import Hanport.Logic.ConfigLines

/-!
# Reading back a configuration

A list of sections has many layouts as text: blanks around its parts, either line
end, and lines between that say nothing. From each of them `loadFromFile` restores
what the sections say, the last value of a key first.
-/

namespace Hanport.Config

open Lib Lib.Ascii Lib.Getline

/-! ## Sections and their text -/

/-- A section: its name, and its keys with their values. -/
structure Section where
  name : List Byte
  pairs : List (List Byte × List Byte)

/-- What a line can say. -/
inductive Item where
  | header (name : List Byte)
  | pair (key val : List Byte)

/-- The lines of a section. -/
def Section.items (s : Section) : List Item :=
  .header s.name :: s.pairs.map fun p => .pair p.1 p.2

/-- The values that a section gives. -/
def Section.values (s : Section) : List ((List Byte × List Byte) × List Byte) :=
  s.pairs.map fun p => ((s.name, p.1), p.2)

/-- A text without line feeds, and without white space at its ends. -/
structure IsPlain (s : List Byte) : Prop where
  oneLine : newline ∉ s
  front : ∀ b ∈ s.head?, isSpace b = false
  back : ∀ b ∈ s.getLast?, isSpace b = false

structure IsKey (key : List Byte) : Prop where
  plain : IsPlain key
  noEq : '='.toUInt8 ∉ key
  start : ∀ b ∈ key.head?, b ≠ '['.toUInt8 ∧ b ≠ ';'.toUInt8 ∧ b ≠ '#'.toUInt8

structure IsValue (val : List Byte) : Prop where
  plain : IsPlain val
  noMark : ∀ b ∈ val, b ≠ ';'.toUInt8 ∧ b ≠ '#'.toUInt8

/-- White space within a line. -/
def IsBlank (s : List Byte) : Prop := ∀ b ∈ s, isSpace b = true ∧ b ≠ newline

/-- A line of an item, with any blanks around its parts. -/
inductive LineOf : Item → List Byte → Prop
  | header {name a b c d : List Byte} (hname : IsPlain name) (ha : IsBlank a) (hb : IsBlank b)
      (hc : IsBlank c) (hd : IsBlank d) :
      LineOf (.header name) (a ++ '['.toUInt8 :: (b ++ name ++ c ++ ']'.toUInt8 :: d))
  | pair {key val a b c d : List Byte} (hkey : IsKey key) (hval : IsValue val) (ha : IsBlank a)
      (hb : IsBlank b) (hc : IsBlank c) (hd : IsBlank d) :
      LineOf (.pair key val) (a ++ key ++ b ++ '='.toUInt8 :: (c ++ val ++ d))

/-- A line that says nothing: a blank one, a comment, or one without `=` that is no
section header. -/
inductive IsNoise : List Byte → Prop
  | blank {a : List Byte} (ha : IsBlank a) : IsNoise a
  | comment {a text : List Byte} {mark : Byte} (ha : IsBlank a)
      (hmark : mark = ';'.toUInt8 ∨ mark = '#'.toUInt8) (htext : newline ∉ text) :
      IsNoise (a ++ mark :: text)
  | ignored {line : List Byte} (hline : newline ∉ line) (heq : '='.toUInt8 ∉ line)
      (hheader : ¬ ∃ a inner d, line = a ++ '['.toUInt8 :: (inner ++ ']'.toUInt8 :: d) ∧
        IsBlank a ∧ IsBlank d) :
      IsNoise line

/-- The layouts of a list of items. The last line may lack its end. -/
inductive LaysOut : List Item → List Byte → Prop
  | nil : LaysOut [] []
  | item {i : Item} {items : List Item} {line eol rest : List Byte} (hline : LineOf i line)
      (heol : IsLineEnd eol) (hrest : LaysOut items rest) :
      LaysOut (i :: items) (line ++ eol ++ rest)
  | noise {items : List Item} {line eol rest : List Byte} (hline : IsNoise line)
      (heol : IsLineEnd eol) (hrest : LaysOut items rest) : LaysOut items (line ++ eol ++ rest)
  | lastItem {i : Item} {line : List Byte} (hline : LineOf i line) : LaysOut [i] line
  | lastNoise {line : List Byte} (hline : IsNoise line) : LaysOut [] line

/-! ## One line -/

def Item.effect : Item → Effect
  | .header name => .enter name
  | .pair key val => .store key val

theorem IsBlank.space {s : List Byte} (h : IsBlank s) : ∀ b ∈ s, isSpace b = true :=
  fun b hb => (h b hb).1

theorem IsBlank.oneLine {s : List Byte} (h : IsBlank s) : newline ∉ s :=
  fun hmem => (h _ hmem).2 rfl

/-- A text is plain by its first and its last byte. -/
theorem isPlain_of_ends {s : List Byte} {x y : Byte} (hs : newline ∉ s) (hx : s.head? = some x)
    (hx' : isSpace x = false) (hy : s.getLast? = some y) (hy' : isSpace y = false) :
    IsPlain s where
  oneLine := hs
  front := by
    intro b hb
    rw [hx] at hb
    cases hb
    exact hx'
  back := by
    intro b hb
    rw [hy] at hb
    cases hb
    exact hy'

theorem IsPlain.isValue {val : List Byte} (h : IsPlain val) (hsemi : ';'.toUInt8 ∉ val)
    (hhash : '#'.toUInt8 ∉ val) : IsValue val :=
  ⟨h, fun _ hb => ⟨ne_of_mem_of_not_mem hb hsemi, ne_of_mem_of_not_mem hb hhash⟩⟩

theorem IsPlain.trim_surround {s a d : List Byte} (h : IsPlain s) (ha : IsBlank a)
    (hd : IsBlank d) : trim (a ++ s ++ d) = s :=
  (Trim.trim_surround ha.space hd.space).trans (Trim.trim_eq_self h.front h.back)

/-- A line whose first byte is none of these is a pair or is ignored. -/
theorem kind_of_first {a y : List Byte} {e : Byte} (ha : ∀ b ∈ a, isSpace b = true)
    (he : isSpace e = false)
    (hstart : e ≠ '['.toUInt8 ∧ e ≠ ';'.toUInt8 ∧ e ≠ '#'.toUInt8) :
    passedOver (trim (a ++ e :: y)) = false ∧ isHeader (trim (a ++ e :: y)) = false := by
  have htrim : trim (a ++ e :: y) = e :: y.rdropWhile isSpace := Trim.trim_first ha he
  rw [htrim]
  simp [passedOver, isHeader, hstart]

/-- The first byte of a pair is that of its key, or the `=`. -/
theorem kind_of_pair {key a b : List Byte} (hkey : IsKey key) (ha : IsBlank a) (hb : IsBlank b)
    (y : List Byte) :
    passedOver (trim (a ++ key ++ b ++ '='.toUInt8 :: y)) = false ∧
      isHeader (trim (a ++ key ++ b ++ '='.toUInt8 :: y)) = false := by
  cases key with
  | nil =>
      have hblank : ∀ x ∈ a ++ [] ++ b, isSpace x = true := by
        rw [List.append_nil]
        exact List.forall_mem_append.mpr ⟨ha.space, hb.space⟩
      exact kind_of_first hblank rfl ⟨by decide, by decide, by decide⟩
  | cons k key =>
      have hline : a ++ k :: key ++ b ++ '='.toUInt8 :: y =
          a ++ k :: (key ++ b ++ '='.toUInt8 :: y) := by simp
      rw [hline]
      exact kind_of_first ha.space (hkey.plain.front k rfl) (hkey.start k rfl)

theorem not_mem_blank {c : Byte} {s : List Byte} (hc : isSpace c = false) (h : IsBlank s) :
    c ∉ s := by
  intro hmem
  rw [(h c hmem).1] at hc
  cases hc

theorem effect_of_lineOf {i : Item} {line : List Byte} (h : LineOf i line) :
    effect line = i.effect := by
  cases h with
  | header hname ha hb hc hd =>
      rw [effect_header ha.space hd.space, hname.trim_surround hb hc]
      rfl
  | @pair key val a b c d hkey hval ha hb hc hd =>
      have heq : '='.toUInt8 ∉ a ++ key ++ b := by
        simp only [List.mem_append, not_or]
        exact ⟨⟨not_mem_blank rfl ha, hkey.noEq⟩, not_mem_blank rfl hb⟩
      have hmark : ∀ x ∈ c ++ val ++ d, isMark x = false := by
        intro x hx
        rw [← Bool.not_eq_true]
        intro hx'
        rw [List.mem_append, List.mem_append] at hx
        rcases hx with (hx | hx) | hx
        · exact not_mem_blank (isSpace_of_isMark hx') hc hx
        · simp [isMark, hval.noMark x hx] at hx'
        · exact not_mem_blank (isSpace_of_isMark hx') hd hx
      obtain ⟨hpassed, hheader⟩ := kind_of_pair hkey ha hb (c ++ val ++ d)
      rw [effect_pair heq hpassed hheader, hkey.plain.trim_surround ha hb,
        uncommented_eq_self hmark, hval.plain.trim_surround hc hd]
      rfl

theorem effect_of_noise {line : List Byte} (h : IsNoise line) : effect line = .nothing := by
  cases h with
  | blank ha => exact effect_blank ha.space
  | comment ha hmark htext => exact effect_comment ha.space hmark
  | ignored hline heq hheader =>
      apply effect_ignored heq
      rw [← Bool.not_eq_true, isHeader_trim_iff]
      rintro ⟨a, inner, d, rfl, ha, hd⟩
      rw [List.mem_append, List.mem_cons, List.mem_append, List.mem_cons] at hline
      refine hheader ⟨a, inner, d, rfl, ?_, ?_⟩
      · exact fun b hb => ⟨ha b hb, fun he => hline (.inl (he ▸ hb))⟩
      · exact fun b hb => ⟨hd b hb, fun he => hline (.inr (.inr (.inr (.inr (he ▸ hb)))))⟩

/-! ## The whole text -/

theorem oneLine_of_lineOf {i : Item} {line : List Byte} (h : LineOf i line) : newline ∉ line := by
  cases h with
  | header hname ha hb hc hd =>
      simp only [List.mem_append, List.mem_cons, not_or]
      exact ⟨ha.oneLine, by decide, ⟨⟨hb.oneLine, hname.oneLine⟩, hc.oneLine⟩, by decide,
        hd.oneLine⟩
  | pair hkey hval ha hb hc hd =>
      simp only [List.mem_append, List.mem_cons, not_or]
      exact ⟨⟨⟨ha.oneLine, hkey.plain.oneLine⟩, hb.oneLine⟩, by decide,
        ⟨hc.oneLine, hval.plain.oneLine⟩, hd.oneLine⟩

theorem oneLine_of_noise {line : List Byte} (h : IsNoise line) : newline ∉ line := by
  cases h with
  | blank ha => exact ha.oneLine
  | comment ha hmark htext =>
      simp only [List.mem_append, List.mem_cons, not_or]
      refine ⟨ha.oneLine, ?_, htext⟩
      rcases hmark with rfl | rfl <;> decide
  | ignored hline heq hheader => exact hline

theorem loadLines_of_laysOut {items : List Item} {text : List Byte} (h : LaysOut items text)
    (p : Loading) :
    (getlines text).foldl loadLine p = items.foldl (fun p i => i.effect.apply p) p := by
  induction h generalizing p with
  | nil => rfl
  | item hline heol hrest ih =>
      rw [loadLines_cons p (oneLine_of_lineOf hline) heol, ih, effect_of_lineOf hline,
        List.foldl_cons]
  | noise hline heol hrest ih =>
      rw [loadLines_cons p (oneLine_of_noise hline) heol, ih, effect_of_noise hline]
      rfl
  | lastItem hline =>
      rw [loadLines_last p (oneLine_of_lineOf hline), effect_of_lineOf hline]
      rfl
  | lastNoise hline =>
      rw [loadLines_last p (oneLine_of_noise hline), effect_of_noise hline]
      rfl

/-! ## What the maps hold -/

/-- The values that the items give, from the section `sec` on. -/
def given : List Byte → List Item → List ((List Byte × List Byte) × List Byte)
  | _, [] => []
  | _, .header name :: items => given name items
  | sec, .pair key val :: items => ((sec, key), val) :: given sec items

/-- The last value given wins over what was there before. -/
theorem lookup_foldl (items : List Item) (p : Loading) (k : List Byte × List Byte) :
    (items.foldl (fun p i => i.effect.apply p) p).data.lookup k =
      (Store.lastWrite (given p.currentSection items) k).or (p.data.lookup k) := by
  induction items generalizing p with
  | nil => rfl
  | cons i items ih =>
      rw [List.foldl_cons, ih]
      cases i with
      | header name => rfl
      | pair key val =>
          rw [given, Store.lastWrite_cons, Option.or_assoc]
          show _ = (Store.lastWrite (given p.currentSection items) k).or _
          congr 1
          show (p.data.insert p.currentSection key val).lookup k = _
          rw [lookup_insert]
          split_ifs <;> rfl

theorem given_pairs (sec : List Byte) (pairs : List (List Byte × List Byte)) (items : List Item) :
    given sec (pairs.map (fun p => .pair p.1 p.2) ++ items) =
      pairs.map (fun p => ((sec, p.1), p.2)) ++ given sec items := by
  induction pairs with
  | nil => rfl
  | cons p pairs ih =>
      rw [List.map_cons, List.cons_append, given, ih]
      rfl

theorem given_sections (sec : List Byte) (sections : List Section) :
    given sec (sections.flatMap Section.items) = sections.flatMap Section.values := by
  induction sections generalizing sec with
  | nil => rfl
  | cons s sections ih =>
      rw [List.flatMap_cons, List.flatMap_cons, ← ih s.name]
      exact given_pairs s.name s.pairs _

/-- **A configuration reads back.** From every layout of a list of sections, with any
pairs in front of the first header, `get` returns the last value that the text gives
to the key under the name of the section, or the default where it gives none.
The pairs in front belong to the section without a name. -/
theorem loadFromFile_reads_back (self : Config) (path : String)
    (top : List (List Byte × List Byte)) (sections : List Section) {text : List Byte}
    (h : LaysOut (top.map (fun p => .pair p.1 p.2) ++ sections.flatMap Section.items) text)
    (sec key defaultVal : List Byte) :
    (self.loadFromFile path (some text)).2 = .ok () ∧
      (self.loadFromFile path (some text)).1.get sec key defaultVal =
        (Store.lastWrite ((Section.mk [] top :: sections).flatMap Section.values)
          (sec, key)).getD defaultVal := by
  refine ⟨rfl, ?_⟩
  rw [get_eq]
  show (((getlines text).foldl loadLine ⟨[], fun _ => none⟩).data.lookup (sec, key)).getD _ = _
  rw [loadLines_of_laysOut h, lookup_foldl, given_pairs, given_sections]
  show ((Store.lastWrite _ (sec, key)).or none).getD _ = _
  rw [Option.or_none]
  rfl

/-- A section in two parts, with a comment, CRLF, blanks, brackets in the value and no
final line feed. -/
theorem loadFromFile_reads_back_mqtt :
    (({} : Config).loadFromFile "config.ini"
      (some (ascii "# old\r\n[ MQTT ]\r\n PORT = 1=[2] \nignored\n[MQTT]\nPORT=1883"))).1.get
      (ascii "MQTT") (ascii "PORT") [] = ascii "1883" := by
  have hport : IsPlain (ascii "PORT") := isPlain_of_ends (by decide) rfl rfl rfl rfl
  have hname : IsPlain (ascii "MQTT") := isPlain_of_ends (by decide) rfl rfl rfl rfl
  have hfirst : IsPlain (ascii "1=[2]") := isPlain_of_ends (by decide) rfl rfl rfl rfl
  have hlast : IsPlain (ascii "1883") := isPlain_of_ends (by decide) rfl rfl rfl rfl
  have hkey : IsKey (ascii "PORT") := by
    refine ⟨hport, by decide, ?_⟩
    rintro b ⟨⟩
    exact ⟨by decide, by decide, by decide⟩
  have hval : IsValue (ascii "1=[2]") := hfirst.isValue (by decide) (by decide)
  have hval' : IsValue (ascii "1883") := hlast.isValue (by decide) (by decide)
  have hnone : IsBlank [] := by simp [IsBlank]
  have hblank : IsBlank (ascii " ") := by
    intro b hb
    rw [List.mem_singleton.mp hb]
    exact ⟨rfl, by decide⟩
  have hignored : IsNoise (ascii "ignored") := by
    refine .ignored (by decide) (by decide) ?_
    rintro ⟨a, inner, d, heq, -, -⟩
    have hmem : '['.toUInt8 ∈ ascii "ignored" := by
      rw [heq]
      simp
    exact absurd hmem (by decide)
  have hlaid := LaysOut.noise
    (.comment hnone (.inr rfl) (by decide : newline ∉ ascii " old")) (.inr rfl)
    (.item (.header hname hnone hblank hblank hnone) (.inr rfl)
      (.item (.pair hkey hval hblank hblank hblank hblank) (.inl rfl)
        (.noise hignored (.inl rfl)
          (.item (.header hname hnone hnone hnone hnone) (.inl rfl)
            (.lastItem (.pair hkey hval' hnone hnone hnone hnone))))))
  refine (loadFromFile_reads_back {} _ []
    [⟨ascii "MQTT", [(ascii "PORT", ascii "1=[2]")]⟩,
      ⟨ascii "MQTT", [(ascii "PORT", ascii "1883")]⟩]
    (Eq.subst (motive := LaysOut _) ?_ hlaid) _ _ _).2.trans ?_
  · rfl
  · rfl

end Hanport.Config
