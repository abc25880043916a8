import Hanport.Logic.ConfigLines

/-!
# What a comment behind a line changes

Only a value is read up to its first `;` or `#`; before that a line has been
classified by its last byte and by its `=`, and a comment may bring either. So a
comment behind a line shows in some text unless the line stays of its kind
(`Unaffected`).
-/

namespace Hanport.Config

open Lib Lib.Ascii Lib.Getline

/-- The comment does not change the kind of the line: the line is blank or a comment
itself, or else it is no header, is not closed to one by the end of the comment, and
gets no first `=` from it. -/
def Unaffected (line text : List Byte) : Prop :=
  passedOver (trim line) = true ∨
    (isHeader (trim line) = false ∧
      ¬ ((trim line).head? = some '['.toUInt8 ∧
        (text.rdropWhile isSpace).getLast? = some ']'.toUInt8) ∧
      ('='.toUInt8 ∈ line ∨ '='.toUInt8 ∉ text))

/-! ## The kind of the line with the comment -/

section Comment

variable {blank mark : Byte} (hmark : isMark mark = true)
include hmark

/-- Behind the first byte that stays, only the end of the comment is trimmed. -/
theorem trim_commented {a y : List Byte} {e : Byte} (ha : ∀ b ∈ a, isSpace b = true)
    (he : isSpace e = false) (text : List Byte) :
    trim (a ++ e :: y ++ blank :: mark :: text) =
      e :: (y ++ blank :: mark :: text.rdropWhile isSpace) := by
  have hline : a ++ e :: y ++ blank :: mark :: text =
      a ++ e :: ((y ++ [blank]) ++ mark :: text) := by simp
  have htrim : trim (a ++ e :: ((y ++ [blank]) ++ mark :: text)) =
      e :: ((y ++ [blank]) ++ mark :: text).rdropWhile isSpace := Trim.trim_first ha he
  rw [hline, htrim, Trim.rdropWhile_split (isSpace_of_isMark hmark)]
  simp

theorem isHeader_commented {a y : List Byte} {e : Byte} (ha : ∀ b ∈ a, isSpace b = true)
    (he : isSpace e = false) (text : List Byte) :
    isHeader (trim (a ++ e :: y ++ blank :: mark :: text)) = true ↔
      e = '['.toUInt8 ∧ (text.rdropWhile isSpace).getLast? = some ']'.toUInt8 := by
  have hlast : (e :: (y ++ blank :: mark :: text.rdropWhile isSpace)).getLast? =
      (mark :: text.rdropWhile isSpace).getLast? := by
    have hsplit : e :: (y ++ blank :: mark :: text.rdropWhile isSpace) =
        (e :: (y ++ [blank])) ++ mark :: text.rdropWhile isSpace := by simp
    rw [hsplit, List.getLast?_append_of_ne_nil _ (List.cons_ne_nil _ _)]
  have hend : (mark :: text.rdropWhile isSpace).getLast? = some ']'.toUInt8 ↔
      (text.rdropWhile isSpace).getLast? = some ']'.toUInt8 := by
    cases h : text.rdropWhile isSpace with
    | nil =>
        have hne : mark ≠ ']'.toUInt8 := by
          rintro rfl
          exact absurd hmark (by decide)
        simp [hne]
    | cons b t => rw [List.getLast?_cons_of_ne_nil (List.cons_ne_nil _ _)]
  rw [trim_commented hmark ha he]
  unfold isHeader
  rw [Bool.and_eq_true, decide_eq_true_iff, decide_eq_true_iff, List.head?_cons,
    Option.some.injEq, hlast, hend]

/-- The value of a pair does not see the comment. -/
theorem trim_uncommented (hblank : isSpace blank = true) (y text : List Byte) :
    trim (uncommented (y ++ blank :: mark :: text)) = trim (uncommented y) := by
  rcases mark_cases y with hnone | ⟨u, mark', w, rfl, hu, hmark'⟩
  · have hfront : ∀ b ∈ y ++ [blank], isMark b = false := by
      rw [List.forall_mem_append]
      refine ⟨hnone, List.forall_mem_singleton.mpr ?_⟩
      rw [← Bool.not_eq_true]
      intro hb
      rw [isSpace_of_isMark hb] at hblank
      cases hblank
    rw [List.append_cons, uncommented_split hfront hmark, uncommented_eq_self hnone]
    exact Trim.trim_append_right (List.forall_mem_singleton.mpr hblank)
  · rw [List.append_assoc, List.cons_append, uncommented_split hu hmark',
      uncommented_split hu hmark']

end Comment

/-! ## The effect of the line with the comment -/

theorem passedOver_first {a y : List Byte} {e : Byte} (ha : ∀ b ∈ a, isSpace b = true)
    (he : isSpace e = false) : passedOver (trim (a ++ e :: y)) = isMark e := by
  have htrim : trim (a ++ e :: y) = e :: y.rdropWhile isSpace := Trim.trim_first ha he
  rw [htrim]
  simp [passedOver, isMark]

/-- A line with `=` that is neither passed over nor a header stores a value. -/
theorem effect_of_mem {line : List Byte} (heq : '='.toUInt8 ∈ line)
    (hpassed : passedOver (trim line) = false) (hheader : isHeader (trim line) = false) :
    ∃ x y, line = x ++ '='.toUInt8 :: y ∧ '='.toUInt8 ∉ x ∧
      effect line = .store (trim x) (trim (uncommented y)) := by
  obtain ⟨x, y, rfl, hx⟩ := List.eq_append_cons_of_mem heq
  exact ⟨x, y, rfl, hx, effect_pair hx hpassed hheader⟩

/-- A header has one closing bracket more than its name. -/
theorem count_header {a inner d : List Byte} (ha : ∀ b ∈ a, isSpace b = true)
    (hd : ∀ b ∈ d, isSpace b = true) :
    (a ++ '['.toUInt8 :: (inner ++ ']'.toUInt8 :: d)).count ']'.toUInt8 =
      (trim inner).count ']'.toUInt8 + 1 := by
  have hnone : ∀ s : List Byte, (∀ b ∈ s, isSpace b = true) → s.count ']'.toUInt8 = 0 := by
    intro s hs
    rw [List.count_eq_zero]
    intro hmem
    exact absurd (hs _ hmem) (by decide)
  have hopen : '['.toUInt8 ≠ ']'.toUInt8 := by decide
  have hname : (trim inner).count ']'.toUInt8 = inner.count ']'.toUInt8 := Trim.count_trim rfl inner
  rw [List.count_append, List.count_cons_of_ne hopen, List.count_append, List.count_cons_self,
    hnone a ha, hnone d hd, hname]
  omega

/-- A comment behind a header changes its effect: its closing bracket is no longer the last, or
belongs to the name. -/
theorem effect_header_commented {line : List Byte} (hheader : isHeader (trim line) = true)
    {blank mark : Byte} (hmark : isMark mark = true) (text : List Byte) :
    effect (line ++ blank :: mark :: text) ≠ effect line := by
  obtain ⟨a, inner, d, rfl, ha, hd⟩ := (isHeader_trim_iff line).mp hheader
  rw [effect_header ha hd]
  cases hheader' : isHeader (trim (a ++ '['.toUInt8 :: (inner ++ ']'.toUInt8 :: d) ++
      blank :: mark :: text)) with
  | false => exact effect_ne_enter hheader' _
  | true =>
      have hclosed := ((isHeader_commented hmark ha rfl text).mp hheader').2
      have hmem : ']'.toUInt8 ∈ blank :: mark :: text := by
        have hlast := List.mem_of_getLast? hclosed
        have htext : ']'.toUInt8 ∈ text := (List.rdropWhile_prefix _ _).subset hlast
        exact List.mem_cons_of_mem _ (List.mem_cons_of_mem _ htext)
      obtain ⟨a', inner', d', heq, ha', hd'⟩ := (isHeader_trim_iff _).mp hheader'
      have hcount := congrArg (List.count ']'.toUInt8) heq
      rw [List.count_append, count_header ha hd, count_header ha' hd'] at hcount
      have hpos := List.count_pos_iff.mpr hmem
      rw [heq, effect_header ha' hd']
      intro hsame
      rw [Effect.enter.injEq] at hsame
      rw [hsame] at hcount
      omega

/-- Behind a line that is neither passed over nor a header, before and after, only a new
`=` changes the effect. -/
theorem effect_body_commented {line : List Byte} {blank mark : Byte}
    (hblank : isSpace blank = true) (hmark : isMark mark = true) {text : List Byte}
    (hpassed : passedOver (trim line) = false) (hheader : isHeader (trim line) = false)
    (hpassed' : passedOver (trim (line ++ blank :: mark :: text)) = false)
    (hheader' : isHeader (trim (line ++ blank :: mark :: text)) = false) :
    effect (line ++ blank :: mark :: text) = effect line ↔
      '='.toUInt8 ∈ line ∨ '='.toUInt8 ∉ text := by
  by_cases heq : '='.toUInt8 ∈ line
  · obtain ⟨x, y, rfl, hx, heffect⟩ := effect_of_mem heq hpassed hheader
    have hline : x ++ '='.toUInt8 :: y ++ blank :: mark :: text =
        x ++ '='.toUInt8 :: (y ++ blank :: mark :: text) := by simp
    rw [hline] at hpassed' hheader' ⊢
    rw [effect_pair hx hpassed' hheader', heffect, trim_uncommented hmark hblank]
    exact iff_of_true rfl (.inl heq)
  · rw [effect_ignored heq hheader]
    have hcomment : '='.toUInt8 ∈ blank :: mark :: text ↔ '='.toUInt8 ∈ text := by
      have hblank' : '='.toUInt8 ≠ blank := by
        rintro rfl
        exact absurd hblank (by decide)
      have hmark' : '='.toUInt8 ≠ mark := by
        rintro rfl
        exact absurd hmark (by decide)
      simp [hblank', hmark']
    by_cases htext : '='.toUInt8 ∈ text
    · have hmem : '='.toUInt8 ∈ line ++ blank :: mark :: text :=
        List.mem_append_right _ (hcomment.mpr htext)
      obtain ⟨x, y, -, -, heffect⟩ := effect_of_mem hmem hpassed' hheader'
      rw [heffect]
      exact iff_of_false Effect.noConfusion (by simp [heq, htext])
    · have hnone : '='.toUInt8 ∉ line ++ blank :: mark :: text := by
        rw [List.mem_append, hcomment, not_or]
        exact ⟨heq, htext⟩
      rw [effect_ignored hnone hheader']
      exact iff_of_true rfl (.inr htext)

/-- **The effect is kept** exactly where the comment leaves the kind of the line
alone. -/
theorem effect_commented_iff (line : List Byte) {blank mark : Byte} (hblank : isSpace blank = true)
    (hmark : isMark mark = true) (text : List Byte) :
    effect (line ++ blank :: mark :: text) = effect line ↔ Unaffected line text := by
  unfold Unaffected
  rcases Trim.all_or_first (p := isSpace) line with hall | ⟨a, e, y, rfl, ha, he⟩
  · have hnil : trim line = [] := (Trim.trim_eq_nil_iff line).mpr hall
    have hfront : ∀ b ∈ line ++ [blank], isSpace b = true :=
      List.forall_mem_append.mpr ⟨hall, List.forall_mem_singleton.mpr hblank⟩
    rw [List.append_cons, effect_comment hfront (by simpa [isMark] using hmark), effect_blank hall]
    exact iff_of_true rfl (.inl (by rw [hnil]; rfl))
  · have hline : a ++ e :: y ++ blank :: mark :: text =
        a ++ e :: (y ++ blank :: mark :: text) := by simp
    have hpassed : passedOver (trim (a ++ e :: y)) = isMark e := passedOver_first ha he
    have hpassed' : passedOver (trim (a ++ e :: y ++ blank :: mark :: text)) = isMark e := by
      rw [hline]
      exact passedOver_first ha he
    have hhead : (trim (a ++ e :: y)).head? = some e := by
      have htrim : trim (a ++ e :: y) = e :: y.rdropWhile isSpace := Trim.trim_first ha he
      rw [htrim, List.head?_cons]
    have hclosing : isHeader (trim (a ++ e :: y ++ blank :: mark :: text)) = true ↔ _ :=
      isHeader_commented hmark ha he text
    rw [hpassed, hhead, Option.some.injEq, ← hclosing]
    cases hcomment : isMark e with
    | true =>
        have hstart : e = ';'.toUInt8 ∨ e = '#'.toUInt8 := by simpa [isMark] using hcomment
        rw [hline, effect_comment ha hstart, effect_comment ha hstart]
        exact iff_of_true rfl (.inl rfl)
    | false =>
        rw [hcomment] at hpassed hpassed'
        cases hheader : isHeader (trim (a ++ e :: y)) with
        | true => exact iff_of_false (effect_header_commented hheader hmark text) (by simp)
        | false =>
            cases hheader' : isHeader (trim (a ++ e :: y ++ blank :: mark :: text)) with
            | true =>
                obtain ⟨a', inner, d, heq, ha', hd⟩ := (isHeader_trim_iff _).mp hheader'
                have hentered : effect (a' ++ '['.toUInt8 :: (inner ++ ']'.toUInt8 :: d)) = _ :=
                  effect_header ha' hd
                rw [← heq] at hentered
                rw [hentered]
                exact iff_of_false (effect_ne_enter hheader _).symm (by simp)
            | false =>
                rw [effect_body_commented hblank hmark hpassed hheader hpassed' hheader']
                simp

/-! ## What a text shows of the effect -/

/-- The second line in place of the first, anywhere in a text, leaves every `get` as it
is. The text behind is empty or begins with the line's end. -/
def Interchangeable (line line' : List Byte) : Prop :=
  ∀ before cr behind : List Byte, (before = [] ∨ before.getLast? = some newline) →
    (cr = [] ∨ cr = ['\r'.toUInt8]) → (behind = [] ∨ behind.head? = some newline) →
    ∀ (self : Config) (path : String) (sec key defaultVal : List Byte),
      (self.loadFromFile path (some (before ++ line ++ cr ++ behind))).1.get sec key defaultVal =
        (self.loadFromFile path (some (before ++ line' ++ cr ++ behind))).1.get sec key defaultVal

/-- A line within a text. -/
theorem loadLines_within (p : Loading) {before line cr behind : List Byte}
    (hbefore : before = [] ∨ before.getLast? = some newline) (hline : newline ∉ line)
    (hcr : cr = [] ∨ cr = ['\r'.toUInt8])
    (hbehind : behind = [] ∨ behind.head? = some newline) :
    (getlines (before ++ line ++ cr ++ behind)).foldl loadLine p =
      (getlines (behind.drop 1)).foldl loadLine
        ((effect line).apply ((getlines before).foldl loadLine p)) := by
  have hwhole : newline ∉ line ++ cr := by
    rw [List.mem_append, not_or]
    refine ⟨hline, ?_⟩
    rcases hcr with rfl | rfl <;> decide
  have heffect : effect (line ++ cr) = effect line := by
    apply effect_of_trim_eq
    apply Trim.trim_append_right
    rcases hcr with rfl | rfl
    · simp
    · exact List.forall_mem_singleton.mpr rfl
  rw [List.append_assoc before, List.append_assoc, getlines_append hbefore, List.foldl_append,
    ← heffect]
  rcases hbehind with rfl | hhead
  · rw [List.append_nil, loadLines_last _ hwhole]
    rfl
  · obtain ⟨rest, rfl⟩ := List.head?_eq_some_iff.mp hhead
    have htext : line ++ cr ++ newline :: rest = (line ++ cr) ++ [newline] ++ rest := by simp
    rw [htext, loadLines_cons _ hwhole (.inl rfl)]
    rfl

theorem eq_of_getD_eq {o o' : Option (List Byte)} (h : ∀ d, o.getD d = o'.getD d) : o = o' := by
  cases o with
  | none =>
      cases o' with
      | none => rfl
      | some v => exact absurd (h (0 :: v)) (by simp)
  | some v =>
      cases o' with
      | none => exact absurd (h (0 :: v)) (by simp)
      | some v' => exact congrArg some (h [])

/-- The maps behind a header, the line and a pair. -/
def probed (name : List Byte) (e : Effect) : Data :=
  ((Effect.store (ascii "k") (ascii "v")).apply (e.apply ⟨name, fun _ => none⟩)).data

/-- The maps behind the line alone. -/
def alone (e : Effect) : Data := (e.apply ⟨[], fun _ => none⟩).data

theorem lookup_alone (e : Effect) (k : List Byte × List Byte) :
    (alone e).lookup k =
      match e with
      | .nothing => none
      | .enter _ => none
      | .store key val => if ([], key) = k then some val else none := by
  cases e with
  | nothing => rfl
  | enter sec => rfl
  | store key val => exact lookup_insert _ [] key val k

theorem lookup_probed_nothing (name sec : List Byte) :
    (probed name .nothing).lookup (sec, ascii "k") =
      if name = sec then some (ascii "v") else none := by
  have h := lookup_insert (fun _ => none) name (ascii "k") (ascii "v") (sec, ascii "k")
  simp only [Prod.mk.injEq, and_true] at h
  exact h

theorem lookup_probed_enter (name sec' sec : List Byte) :
    (probed name (.enter sec')).lookup (sec, ascii "k") =
      if sec' = sec then some (ascii "v") else none :=
  lookup_probed_nothing sec' sec

/-- No line enters every section that a header in front could have named. -/
theorem exists_probe (sec : List Byte) :
    ∃ name, (name = [] ∨ name = ascii "x") ∧
      (probed name .nothing).lookup (sec, ascii "k") ≠
        (probed name (.enter sec)).lookup (sec, ascii "k") := by
  have hx : ascii "x" ≠ [] := by decide
  by_cases hsec : sec = []
  · refine ⟨ascii "x", .inr rfl, ?_⟩
    rw [lookup_probed_nothing, lookup_probed_enter, if_pos rfl, if_neg (hsec ▸ hx)]
    simp
  · refine ⟨[], .inl rfl, ?_⟩
    rw [lookup_probed_nothing, lookup_probed_enter, if_pos rfl, if_neg (Ne.symm hsec)]
    simp

/-- Two effects that no probe tells apart are equal. -/
theorem effect_eq_of_probes {e e' : Effect}
    (halone : ∀ k, (alone e).lookup k = (alone e').lookup k)
    (hprobed : ∀ name, name = [] ∨ name = ascii "x" →
      ∀ k, (probed name e).lookup k = (probed name e').lookup k) : e = e' := by
  simp only [lookup_alone] at halone
  cases e with
  | nothing =>
      cases e' with
      | nothing => rfl
      | enter sec =>
          obtain ⟨name, hname, hne⟩ := exists_probe sec
          exact absurd (hprobed name hname _) hne
      | store key val =>
          have hk := halone ([], key)
          simp at hk
  | enter sec =>
      cases e' with
      | nothing =>
          obtain ⟨name, hname, hne⟩ := exists_probe sec
          exact absurd (hprobed name hname _).symm hne
      | enter sec' =>
          have hk := hprobed [] (.inl rfl) (sec, ascii "k")
          rw [lookup_probed_enter, lookup_probed_enter, if_pos rfl] at hk
          split_ifs at hk with hsame
          · rw [hsame]
      | store key val =>
          have hk := halone ([], key)
          simp at hk
  | store key val =>
      have hk := halone ([], key)
      cases e' with
      | nothing => simp at hk
      | enter sec => simp at hk
      | store key' val' =>
          simp only [if_true] at hk
          split_ifs at hk with hsame
          · rw [Prod.mk.injEq] at hsame
            rw [hsame.2, Option.some.inj hk]

/-- The header in front of a probed line. -/
theorem loadLines_probe_header {name : List Byte} (hname : name = [] ∨ name = ascii "x") :
    (getlines ('['.toUInt8 :: (name ++ [']'.toUInt8]) ++ [newline])).foldl loadLine
      ⟨[], fun _ => none⟩ = ⟨name, fun _ => none⟩ := by
  have hheader : newline ∉ '['.toUInt8 :: (name ++ [']'.toUInt8]) ∧
      effect ('['.toUInt8 :: (name ++ [']'.toUInt8])) = .enter name := by
    rcases hname with rfl | rfl <;> decide +kernel
  have hload := loadLines_cons ⟨[], fun _ => none⟩ hheader.1 (.inl rfl) []
  rw [List.append_nil, hheader.2] at hload
  exact hload

/-- The pair behind it. -/
theorem loadLines_probe_pair (p : Loading) :
    (getlines (ascii "k=v")).foldl loadLine p =
      (Effect.store (ascii "k") (ascii "v")).apply p := by
  have hpair : effect (ascii "k=v") = .store (ascii "k") (ascii "v") := by decide
  rw [loadLines_last p (by decide), hpair]

/-- **Lines are interchangeable** iff they have the same effect. -/
theorem interchangeable_iff {line line' : List Byte} (h : newline ∉ line)
    (h' : newline ∉ line') : Interchangeable line line' ↔ effect line = effect line' := by
  constructor
  · intro hsame
    have hlookup : ∀ before behind : List Byte,
        (before = [] ∨ before.getLast? = some newline) →
        (behind = [] ∨ behind.head? = some newline) → ∀ k,
        ((getlines (behind.drop 1)).foldl loadLine ((effect line).apply
          ((getlines before).foldl loadLine ⟨[], fun _ => none⟩))).data.lookup k =
        ((getlines (behind.drop 1)).foldl loadLine ((effect line').apply
          ((getlines before).foldl loadLine ⟨[], fun _ => none⟩))).data.lookup k := by
      intro before behind hbefore hbehind k
      apply eq_of_getD_eq
      intro d
      have hget := hsame before [] behind hbefore (.inl rfl) hbehind {} "" k.1 k.2 d
      rw [get_eq, get_eq] at hget
      rw [← loadLines_within _ hbefore h (.inl rfl) hbehind,
        ← loadLines_within _ hbefore h' (.inl rfl) hbehind]
      exact hget
    refine effect_eq_of_probes (hlookup [] [] (.inl rfl) (.inl rfl)) ?_
    intro name hname k
    have hk := hlookup ('['.toUInt8 :: (name ++ [']'.toUInt8]) ++ [newline])
      (newline :: ascii "k=v") (.inr List.getLast?_concat) (.inr rfl) k
    rw [loadLines_probe_header hname, List.drop_one, List.tail_cons, loadLines_probe_pair,
      loadLines_probe_pair] at hk
    exact hk
  · intro heffect before cr behind hbefore hcr hbehind self path sec key defaultVal
    rw [get_eq, get_eq]
    show (((getlines _).foldl loadLine _).data.lookup _).getD _ =
      (((getlines _).foldl loadLine _).data.lookup _).getD _
    rw [loadLines_within _ hbefore h hcr hbehind, loadLines_within _ hbefore h' hcr hbehind,
      heffect]

/-- **A comment behind a line.** Behind a line of a text, a blank, `;` or `#` and any
text to the end of the line leave every `get` in every text as it was iff the line is
blank or itself a comment, or it is no section header, does not begin with `[` while
the comment ends with `]`, and has a `=` or gets none from the comment. -/
theorem comment_invisible_iff (line text : List Byte) {blank mark : Byte}
    (hline : newline ∉ line) (htext : newline ∉ text)
    (hblank : isSpace blank = true ∧ blank ≠ newline) (hmark : isMark mark = true) :
    Interchangeable (line ++ blank :: mark :: text) line ↔ Unaffected line text := by
  have hcommented : newline ∉ line ++ blank :: mark :: text := by
    have hne : newline ≠ mark := by
      rintro rfl
      exact absurd hmark (by decide)
    simp only [List.mem_append, List.mem_cons, not_or]
    exact ⟨hline, hblank.2.symm, hne, htext⟩
  rw [interchangeable_iff hcommented hline]
  exact effect_commented_iff line hblank.1 hmark text

/-- Behind a value the comment may hold anything. -/
theorem comment_invisible_port :
    Interchangeable (ascii "PORT=502" ++ ' '.toUInt8 :: ';'.toUInt8 :: ascii " [a=b]")
      (ascii "PORT=502") := by
  refine (comment_invisible_iff _ _ (by decide) (by decide) ⟨rfl, by decide⟩
    rfl).mpr (.inr ⟨?_, ?_, ?_⟩)
  · rfl
  · decide
  · exact .inl (by decide)

/-- Behind the header `[A]` a comment files `k` outside of the section. -/
theorem comment_hides_section :
    ¬ ∀ (line text : List Byte) (blank mark : Byte), newline ∉ line → newline ∉ text →
      (isSpace blank = true ∧ blank ≠ newline) → isMark mark = true →
      Interchangeable (line ++ blank :: mark :: text) line := by
  intro hall
  have hget := hall (ascii "[A]") (ascii " x") ' '.toUInt8 ';'.toUInt8 (by decide)
    (by decide) ⟨rfl, by decide⟩ rfl [] [] (ascii "\nk=v") (.inl rfl) (.inl rfl)
    (.inr rfl) {} "config.ini" (ascii "A") (ascii "k") (ascii "default")
  exact absurd hget (by decide)

end Hanport.Config
