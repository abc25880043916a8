import Hanport.Lib.Delimiter
import Hanport.Model.Config

/-!
# What each line of a configuration does

A line enters a section, stores a value under a key, or does nothing
(`effect`), and which of these depends on the trimmed line alone.
-/

namespace Hanport.Config

open Lib Lib.Ascii Lib.Getline

/-- The effect of a line. -/
inductive Effect where
  | nothing
  | enter (sec : List Byte)
  | store (key val : List Byte)
  deriving DecidableEq

/-- The effect on the locals of the loop. -/
def Effect.apply (p : Loading) : Effect → Loading
  | .nothing => p
  | .enter sec => { p with currentSection := sec }
  | .store key val => { p with data := p.data.insert p.currentSection key val }

/-- A blank line or a comment. -/
def passedOver (s : List Byte) : Bool :=
  s = [] || s.head? = some ';'.toUInt8 || s.head? = some '#'.toUInt8

/-- The effect of a line. -/
def effect (line : List Byte) : Effect :=
  let s := trim line
  if passedOver s then .nothing
  else if isHeader s then .enter (trim ((s.drop 1).take (s.length - 2)))
  else
    match find s '='.toUInt8 with
    | none => .nothing
    | some eq => .store (trim (s.take eq)) (stripComment (trim (s.drop (eq + 1))))

theorem loadLine_eq (p : Loading) (line : List Byte) : loadLine p line = (effect line).apply p := by
  unfold loadLine effect passedOver
  by_cases hnil : trim line = []
  · simp [hnil, Effect.apply]
  · by_cases hmark : (trim line).head? = some ';'.toUInt8 ∨ (trim line).head? = some '#'.toUInt8
    · simp [hnil, hmark, Effect.apply]
    · by_cases hheader : isHeader (trim line) = true
      · simp [hnil, hmark, hheader, Effect.apply]
      · simp only [hnil, hmark, hheader, if_false]
        rw [not_or] at hmark
        simp only [hmark, decide_false, Bool.or_self, Bool.false_eq_true, if_false]
        cases find (trim line) '='.toUInt8 <;> rfl

theorem effect_of_trim_eq {line line' : List Byte} (h : trim line = trim line') :
    effect line = effect line' := by
  unfold effect
  rw [h]

/-! ## The kinds of lines -/

theorem effect_blank {line : List Byte} (h : ∀ b ∈ line, isSpace b = true) :
    effect line = .nothing := by
  have hnil : trim line = [] := (Trim.trim_eq_nil_iff line).mpr h
  unfold effect
  rw [hnil]
  rfl

theorem effect_comment {a text : List Byte} {mark : Byte} (ha : ∀ b ∈ a, isSpace b = true)
    (hmark : mark = ';'.toUInt8 ∨ mark = '#'.toUInt8) : effect (a ++ mark :: text) = .nothing := by
  have hstay : isSpace mark = false := by
    rcases hmark with rfl | rfl <;> rfl
  have htrim : trim (a ++ mark :: text) = mark :: text.rdropWhile isSpace :=
    Trim.trim_first ha hstay
  have hpassed : passedOver (trim (a ++ mark :: text)) = true := by
    rw [htrim]
    rcases hmark with rfl | rfl <;> rfl
  unfold effect
  simp only [hpassed, if_true]

theorem trim_header {a inner d : List Byte} (ha : ∀ b ∈ a, isSpace b = true)
    (hd : ∀ b ∈ d, isSpace b = true) :
    trim (a ++ '['.toUInt8 :: (inner ++ ']'.toUInt8 :: d)) =
      '['.toUInt8 :: (inner ++ [']'.toUInt8]) := by
  unfold trim
  rw [Trim.trim_first ha rfl, Trim.rdropWhile_split rfl, List.rdropWhile_eq_nil_iff.mpr hd]

theorem isHeader_brackets (inner : List Byte) :
    isHeader ('['.toUInt8 :: (inner ++ [']'.toUInt8])) = true := by
  unfold isHeader
  rw [← List.cons_append, List.getLast?_concat]
  rfl

/-- A header, with blanks on its outside. -/
theorem effect_header {a inner d : List Byte} (ha : ∀ b ∈ a, isSpace b = true)
    (hd : ∀ b ∈ d, isSpace b = true) :
    effect (a ++ '['.toUInt8 :: (inner ++ ']'.toUInt8 :: d)) = .enter (trim inner) := by
  have hpassed : passedOver ('['.toUInt8 :: (inner ++ [']'.toUInt8])) = false := by
    unfold passedOver
    rw [List.head?_cons]
    rfl
  have hinner : (('['.toUInt8 :: (inner ++ [']'.toUInt8])).drop 1).take
      (('['.toUInt8 :: (inner ++ [']'.toUInt8])).length - 2) = inner := by
    simp
  unfold effect
  simp only [trim_header ha hd, hpassed, isHeader_brackets, hinner, Bool.false_eq_true, if_false,
    if_true]

/-- Without the brackets of a header no section is entered. -/
theorem effect_ne_enter {line : List Byte} (h : isHeader (trim line) = false) (sec : List Byte) :
    effect line ≠ .enter sec := by
  unfold effect
  dsimp only
  rw [h, if_neg Bool.false_ne_true]
  split
  · exact Effect.noConfusion
  · split <;> exact Effect.noConfusion

theorem find_first_split {c : Byte} {x : List Byte} (hx : c ∉ x) (y : List Byte) :
    find (x ++ c :: y) c = some x.length :=
  Delimiter.findIdx?_first_split hx y

/-- The trimmed line has the brackets of a header iff they are all but blanks in front
and at the back. -/
theorem isHeader_trim_iff (line : List Byte) :
    isHeader (trim line) = true ↔
      ∃ a inner d, line = a ++ '['.toUInt8 :: (inner ++ ']'.toUInt8 :: d) ∧
        (∀ b ∈ a, isSpace b = true) ∧ ∀ b ∈ d, isSpace b = true := by
  constructor
  · intro h
    rcases Trim.all_or_first (p := isSpace) line with hall | ⟨a, e, y, rfl, ha, he⟩
    · have hnil : trim line = [] := (Trim.trim_eq_nil_iff line).mpr hall
      rw [hnil] at h
      cases h
    · have htrim : trim (a ++ e :: y) = e :: y.rdropWhile isSpace := Trim.trim_first ha he
      rw [htrim] at h
      unfold isHeader at h
      rw [Bool.and_eq_true, decide_eq_true_iff, decide_eq_true_iff, List.head?_cons,
        Option.some.injEq] at h
      obtain ⟨rfl, hlast⟩ := h
      have hne : y.rdropWhile isSpace ≠ [] := by
        intro hnil
        rw [hnil] at hlast
        exact absurd hlast (by decide)
      rw [List.getLast?_cons_of_ne_nil hne, List.getLast?_eq_some_iff] at hlast
      obtain ⟨inner, hinner⟩ := hlast
      refine ⟨a, inner, y.rtakeWhile isSpace, ?_, ha, fun b hb => List.mem_rtakeWhile_imp hb⟩
      have hy : y = inner ++ [']'.toUInt8] ++ y.rtakeWhile isSpace := by
        rw [← hinner, List.rdropWhile_append_rtakeWhile]
      rw [List.append_cons inner, ← hy]
  · rintro ⟨a, inner, d, rfl, ha, hd⟩
    have htrim : trim (a ++ '['.toUInt8 :: (inner ++ ']'.toUInt8 :: d)) =
        '['.toUInt8 :: (inner ++ [']'.toUInt8]) := trim_header ha hd
    rw [htrim]
    exact isHeader_brackets inner

/-! ## Values -/

/-- `;` or `#`. -/
def isMark (b : Byte) : Bool := b = ';'.toUInt8 || b = '#'.toUInt8

theorem isSpace_of_isMark {b : Byte} (h : isMark b = true) : isSpace b = false := by
  unfold isMark at h
  rw [Bool.or_eq_true, decide_eq_true_iff, decide_eq_true_iff] at h
  rcases h with rfl | rfl <;> rfl

/-- The loop over the two marks finds the first of either. -/
theorem commentPos_eq (val : List Byte) : commentPos val = val.findIdx? isMark := by
  have hfirst := Delimiter.findIdx?_or (fun b => b = ';'.toUInt8) (fun b => b = '#'.toUInt8) val
  unfold commentPos find isMark
  rw [hfirst]
  simp only [List.foldl_cons, List.foldl_nil]
  cases val.findIdx? (fun b => b = ';'.toUInt8) <;> rfl

/-- The text up to the first mark. -/
def uncommented (y : List Byte) : List Byte := y.takeWhile fun b => !isMark b

theorem uncommented_eq_self {y : List Byte} (h : ∀ b ∈ y, isMark b = false) :
    uncommented y = y := by
  unfold uncommented
  rw [List.takeWhile_eq_self_iff]
  intro b hb
  rw [h b hb]
  rfl

theorem uncommented_split {y : List Byte} {mark : Byte} (h : ∀ b ∈ y, isMark b = false)
    (hmark : isMark mark = true) (text : List Byte) : uncommented (y ++ mark :: text) = y := by
  unfold uncommented
  rw [List.takeWhile_append_of_pos (fun b hb => by rw [h b hb]; rfl)]
  simp [hmark]

/-- No mark, or a first one. -/
theorem mark_cases (y : List Byte) :
    (∀ b ∈ y, isMark b = false) ∨
      ∃ u mark w, y = u ++ mark :: w ∧ (∀ b ∈ u, isMark b = false) ∧ isMark mark = true := by
  rcases Trim.all_or_first (p := fun b => !isMark b) y with hall | ⟨u, mark, w, rfl, hu, hmark⟩
  · exact .inl fun b hb => by simpa using hall b hb
  · exact .inr ⟨u, mark, w, rfl, fun b hb => by simpa using hu b hb, by simpa using hmark⟩

/-- The value of a pair: what is before the first mark, trimmed. -/
theorem stripComment_trim (y : List Byte) : stripComment (trim y) = trim (uncommented y) := by
  unfold stripComment
  rw [commentPos_eq]
  rcases mark_cases y with hnone | ⟨u, mark, w, rfl, hu, hmark⟩
  · have hfind : (trim y).findIdx? isMark = none := by
      rw [List.findIdx?_eq_none_iff]
      exact fun b hb => hnone b (Trim.mem_of_mem_trim hb)
    rw [hfind, uncommented_eq_self hnone]
  · have hfront : ∀ b ∈ u.dropWhile isSpace, isMark b = false :=
      fun b hb => hu b ((List.dropWhile_suffix _).subset hb)
    have htrim : trim (u ++ mark :: w) = u.dropWhile isSpace ++ mark :: w.rdropWhile isSpace :=
      Trim.trim_split (isSpace_of_isMark hmark) u w
    have hfind : (trim (u ++ mark :: w)).findIdx? isMark = some (u.dropWhile isSpace).length := by
      rw [htrim, List.findIdx?_append, List.findIdx?_eq_none_iff.mpr hfront]
      simp [List.findIdx?_cons, hmark]
    rw [hfind, htrim, uncommented_split hu hmark]
    dsimp only
    rw [List.take_left]
    exact Trim.trim_dropWhile u

/-- A pair stores its value without the comment, unless its line is passed over or has
the brackets of a header. -/
theorem effect_pair {x y : List Byte} (hx : '='.toUInt8 ∉ x)
    (hpassed : passedOver (trim (x ++ '='.toUInt8 :: y)) = false)
    (hheader : isHeader (trim (x ++ '='.toUInt8 :: y)) = false) :
    effect (x ++ '='.toUInt8 :: y) = .store (trim x) (trim (uncommented y)) := by
  have htrim : trim (x ++ '='.toUInt8 :: y) =
      x.dropWhile isSpace ++ '='.toUInt8 :: y.rdropWhile isSpace := Trim.trim_split rfl x y
  have hfront : '='.toUInt8 ∉ x.dropWhile isSpace :=
    fun hmem => hx ((List.dropWhile_suffix _).subset hmem)
  have hbehind : (x.dropWhile isSpace ++ '='.toUInt8 :: y.rdropWhile isSpace).drop
      ((x.dropWhile isSpace).length + 1) = y.rdropWhile isSpace := by
    rw [List.drop_length_add_append]
    rfl
  have hkey : trim (x.dropWhile isSpace) = trim x := Trim.trim_dropWhile x
  have hval : trim (y.rdropWhile isSpace) = trim y := Trim.trim_rdropWhile y
  unfold effect
  simp only [hpassed, hheader, Bool.false_eq_true, if_false]
  rw [htrim, find_first_split hfront]
  dsimp only
  rw [List.take_left, hbehind, hkey, hval, stripComment_trim]

/-- A line without `=` that is no header does nothing. -/
theorem effect_ignored {line : List Byte} (heq : '='.toUInt8 ∉ line)
    (hheader : isHeader (trim line) = false) : effect line = .nothing := by
  have hfind : find (trim line) '='.toUInt8 = none :=
    (Delimiter.findIdx?_eq_none_iff_notMem _ _).mpr fun hmem => heq (Trim.mem_of_mem_trim hmem)
  unfold effect
  simp only [hheader, hfind, Bool.false_eq_true, if_false, ite_self]

/-! ## The lines of a text -/

/-- LF or CRLF. -/
def IsLineEnd (eol : List Byte) : Prop := eol = [newline] ∨ eol = ['\r'.toUInt8, newline]

/-- One line of the text, with its end. -/
theorem loadLines_cons (p : Loading) {line eol : List Byte} (h : newline ∉ line)
    (heol : IsLineEnd eol) (rest : List Byte) :
    (getlines (line ++ eol ++ rest)).foldl loadLine p =
      (getlines rest).foldl loadLine ((effect line).apply p) := by
  rcases heol with rfl | rfl
  · have htext : line ++ [newline] ++ rest = line ++ newline :: rest := by simp
    rw [htext, getlines_eq, getline_append_newline h]
    dsimp only
    rw [List.foldl_cons, loadLine_eq]
  · have htext : line ++ ['\r'.toUInt8, newline] ++ rest =
        (line ++ ['\r'.toUInt8]) ++ newline :: rest := by simp
    have hline : newline ∉ line ++ ['\r'.toUInt8] := by
      rw [List.mem_append, not_or]
      exact ⟨h, by decide⟩
    have htrim : trim (line ++ ['\r'.toUInt8]) = trim line :=
      Trim.trim_append_right (List.forall_mem_singleton.mpr rfl)
    rw [htext, getlines_eq, getline_append_newline hline]
    dsimp only
    rw [List.foldl_cons, loadLine_eq, effect_of_trim_eq htrim]

/-- The last line, without an end. -/
theorem loadLines_last (p : Loading) {line : List Byte} (h : newline ∉ line) :
    (getlines line).foldl loadLine p = (effect line).apply p := by
  by_cases hne : line = []
  · subst hne
    rfl
  · rw [getlines_eq, getline_last hne h]
    dsimp only
    rw [List.foldl_cons, loadLine_eq]
    rfl

/-! ## The maps -/

/-- The value under a section and a key. -/
def Data.lookup (data : Data) (k : List Byte × List Byte) : Option (List Byte) :=
  (data k.1).bind fun values => values k.2

theorem get_eq (self : Config) (sec key defaultVal : List Byte) :
    self.get sec key defaultVal = (self.data.lookup (sec, key)).getD defaultVal := by
  unfold get Data.lookup
  cases self.data sec with
  | none => rfl
  | some values => cases h : values key <;> simp [h]

theorem lookup_insert (data : Data) (sec key val : List Byte) (k : List Byte × List Byte) :
    (data.insert sec key val).lookup k = if (sec, key) = k then some val else data.lookup k := by
  obtain ⟨s, k⟩ := k
  unfold Data.lookup Data.insert
  by_cases hs : s = sec
  · subst hs
    by_cases hk : k = key
    · simp [hk]
    · cases h : data s <;> simp [hk, Ne.symm hk]
  · simp [hs, Ne.symm hs]

end Hanport.Config
