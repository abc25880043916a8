import Hanport.Lib.Ascii

/-!
# `std::stoi` in base 16

The conversion of the C++ library as it is documented: leading blanks are
skipped, an optional sign and an optional `0x` are read, then the longest run
of hexadecimal digits; what follows is ignored. `Reads16` states this as a
grammar, and `stoi16_eq_ok_iff` shows the function computes exactly it.
-/

namespace Lib.Strtol

open Lib.Ascii

/-- The two exceptions of `std::stoi`. -/
inductive StoiError where
  | invalidArgument
  | outOfRange
  deriving DecidableEq, Repr

/-- An optional sign: whether it is a minus, and what follows. -/
def sign : List Byte → Bool × List Byte
  | [] => (false, [])
  | b :: s =>
      if b = '-'.toUInt8 then (true, s)
      else if b = '+'.toUInt8 then (false, s)
      else (false, b :: s)

/-- The text begins with `0x` and a hexadecimal digit. -/
def has0x : List Byte → Bool
  | z :: x :: d :: _ =>
      z = '0'.toUInt8 && (x = 'x'.toUInt8 || x = 'X'.toUInt8) && isHexDigit d
  | _ => false

/-- Skip an optional `0x`. Without a digit behind it the `0` is the number
and the `x` ends it. -/
def skip0x (s : List Byte) : List Byte := if has0x s then s.drop 2 else s

/-- The number of a sign and a digit string. -/
def signed (neg : Bool) (digits : List Byte) : ℤ :=
  if neg then -(ofDigits 16 (digits.filterMap hexDigit?) : ℤ)
  else (ofDigits 16 (digits.filterMap hexDigit?) : ℤ)

/-- The range of a 32-bit `int`. -/
def InInt (n : ℤ) : Prop := -2 ^ 31 ≤ n ∧ n < 2 ^ 31

instance (n : ℤ) : Decidable (InInt n) := inferInstanceAs (Decidable (_ ∧ _))

/-- `std::stoi(str, nullptr, 16)`. -/
def stoi16 (str : List Byte) : Except StoiError ℤ :=
  let (neg, s) := sign (str.dropWhile isSpace)
  let digits := (skip0x s).takeWhile isHexDigit
  if digits = [] then .error .invalidArgument
  else if InInt (signed neg digits) then .ok (signed neg digits)
  else .error .outOfRange

/-! ## The grammar -/

/-- The text reads as the number `n`: blanks, an optional sign, an optional
`0x`, the longest run of hexadecimal digits, and anything. -/
structure Reads16Parts (w : List Byte) (n : ℤ) (blanks sgn pre digits rest : List Byte) :
    Prop where
  text : w = blanks ++ sgn ++ pre ++ digits ++ rest
  blank : ∀ b ∈ blanks, isSpace b = true
  sign : sgn = [] ∨ sgn = ascii "+" ∨ sgn = ascii "-"
  base : pre = [] ∧ has0x (digits ++ rest) = false ∨ pre = ascii "0x" ∨ pre = ascii "0X"
  nonempty : digits ≠ []
  digit : ∀ b ∈ digits, isHexDigit b = true
  longest : ∀ b ∈ rest.head?, isHexDigit b = false
  value : n = signed (sgn = ascii "-") digits

def Reads16 (w : List Byte) (n : ℤ) : Prop :=
  ∃ blanks sgn pre digits rest, Reads16Parts w n blanks sgn pre digits rest

theorem not_isSpace_of_isHexDigit {b : Byte} (h : isHexDigit b = true) : isSpace b = false := by
  rw [← Bool.not_eq_true, isSpace_iff]
  rw [isHexDigit_iff] at h
  omega

/-- The parts that `stoi16` cuts a text into. -/
theorem sign_split (s : List Byte) :
    ∃ sgn, s = sgn ++ (sign s).2 ∧ (sgn = [] ∨ sgn = ascii "+" ∨ sgn = ascii "-") ∧
      ((sign s).1 = true ↔ sgn = ascii "-") := by
  cases s with
  | nil => exact ⟨[], rfl, .inl rfl, by decide⟩
  | cons b s =>
      by_cases hm : b = '-'.toUInt8
      · subst hm
        exact ⟨ascii "-", rfl, .inr (.inr rfl), by simp [sign]⟩
      · by_cases hp : b = '+'.toUInt8
        · subst hp
          have hne : ascii "+" ≠ ascii "-" := by decide
          exact ⟨ascii "+", rfl, .inr (.inl rfl), by simp [sign, hm, hne]⟩
        · exact ⟨[], by simp [sign, hm, hp], .inl rfl, by simp [sign, hm, hp]; decide⟩

theorem skip0x_split {s : List Byte} (h : has0x s = true) :
    ∃ pre, s = pre ++ skip0x s ∧ (pre = ascii "0x" ∨ pre = ascii "0X") := by
  rw [skip0x, if_pos h]
  match s, h with
  | z :: x :: d :: t, h =>
      simp only [has0x, Bool.and_eq_true, Bool.or_eq_true, decide_eq_true_eq] at h
      obtain ⟨⟨rfl, rfl | rfl⟩, _⟩ := h
      · exact ⟨ascii "0x", rfl, .inl rfl⟩
      · exact ⟨ascii "0X", rfl, .inr rfl⟩

theorem head?_dropWhile {p : Byte → Bool} (l : List Byte) :
    ∀ b ∈ (l.dropWhile p).head?, p b = false := by
  intro b hb
  have h := List.head?_dropWhile_not p l
  rw [Option.mem_def.mp hb] at h
  simpa using h

/-- A text that is a run of `p`, then something that does not begin with
`p`. -/
theorem takeWhile_run {p : Byte → Bool} {a x : List Byte} (ha : ∀ b ∈ a, p b = true)
    (hx : ∀ b ∈ x.head?, p b = false) :
    (a ++ x).takeWhile p = a ∧ (a ++ x).dropWhile p = x := by
  cases x with
  | nil => simpa [List.takeWhile_eq_self_iff, List.dropWhile_eq_nil_iff] using ha
  | cons c x =>
      have hc : p c = false := hx c rfl
      rw [List.takeWhile_append_of_pos ha, List.dropWhile_append_of_pos ha]
      simp [hc]

/-- Behind the sign a text of the grammar begins with a digit. -/
theorem Reads16Parts.head {w : List Byte} {n : ℤ} {blanks sgn pre digits rest : List Byte}
    (h : Reads16Parts w n blanks sgn pre digits rest) :
    ∃ c t, pre ++ digits ++ rest = c :: t ∧ isHexDigit c = true := by
  rcases h.base with ⟨rfl, _⟩ | rfl | rfl
  · obtain ⟨d, ds, rfl⟩ := List.exists_cons_of_ne_nil h.nonempty
    exact ⟨d, ds ++ rest, rfl, h.digit d (by simp)⟩
  · exact ⟨_, _, rfl, rfl⟩
  · exact ⟨_, _, rfl, rfl⟩

/-- Skipping the blanks leaves the sign. -/
theorem Reads16Parts.dropBlanks {w : List Byte} {n : ℤ} {blanks sgn pre digits rest : List Byte}
    (h : Reads16Parts w n blanks sgn pre digits rest) :
    w.dropWhile isSpace = sgn ++ (pre ++ digits ++ rest) := by
  obtain ⟨c, t, hbody, hc⟩ := h.head
  have hhead : ∀ b ∈ (sgn ++ (pre ++ digits ++ rest)).head?, isSpace b = false := by
    rw [hbody]
    rcases h.sign with rfl | rfl | rfl
    · intro b hb
      cases hb
      exact not_isSpace_of_isHexDigit hc
    · intro b hb
      cases hb
      rfl
    · intro b hb
      cases hb
      rfl
  have hw : w = blanks ++ (sgn ++ (pre ++ digits ++ rest)) := by rw [h.text]; simp
  rw [hw, (takeWhile_run h.blank hhead).2]

/-- Reading the sign leaves the number. -/
theorem Reads16Parts.readSign {w : List Byte} {n : ℤ} {blanks sgn pre digits rest : List Byte}
    (h : Reads16Parts w n blanks sgn pre digits rest) :
    Strtol.sign (sgn ++ (pre ++ digits ++ rest)) =
      (decide (sgn = ascii "-"), pre ++ digits ++ rest) := by
  obtain ⟨c, t, hbody, hc⟩ := h.head
  rw [hbody]
  rcases h.sign with rfl | rfl | rfl
  · have hm : c ≠ '-'.toUInt8 := ne_of_isHexDigit hc rfl
    have hp : c ≠ '+'.toUInt8 := ne_of_isHexDigit hc rfl
    simp [Strtol.sign, hm, hp]
    decide
  · rfl
  · rfl

/-- Skipping the base prefix leaves the digits. -/
theorem Reads16Parts.skipBase {w : List Byte} {n : ℤ} {blanks sgn pre digits rest : List Byte}
    (h : Reads16Parts w n blanks sgn pre digits rest) :
    skip0x (pre ++ digits ++ rest) = digits ++ rest := by
  rcases h.base with ⟨rfl, hno⟩ | hpre
  · simp [skip0x, hno]
  · obtain ⟨d, ds, rfl⟩ := List.exists_cons_of_ne_nil h.nonempty
    have hd : isHexDigit d = true := h.digit d (by simp)
    rcases hpre with rfl | rfl
    · have h0x : has0x ('0'.toUInt8 :: 'x'.toUInt8 :: d :: (ds ++ rest)) = true := by
        simp [has0x, hd]
      exact if_pos h0x
    · have h0x : has0x ('0'.toUInt8 :: 'X'.toUInt8 :: d :: (ds ++ rest)) = true := by
        simp [has0x, hd]
      exact if_pos h0x

/-- **`std::stoi` in base 16 accepts exactly the texts of the grammar whose
number is an `int`.** -/
theorem stoi16_eq_ok_iff (w : List Byte) (n : ℤ) :
    stoi16 w = .ok n ↔ Reads16 w n ∧ InInt n := by
  constructor
  · intro h
    unfold stoi16 at h
    obtain ⟨sgn, hsplit, hsgn, hneg⟩ := sign_split (w.dropWhile isSpace)
    cases hs : Strtol.sign (w.dropWhile isSpace) with
    | mk neg s =>
        rw [hs] at h hsplit hneg
        dsimp only at h hsplit hneg
        split_ifs at h with hnil hint
        cases h
        refine ⟨?_, hint⟩
        have hnegval : neg = decide (sgn = ascii "-") := by
          rw [Bool.eq_iff_iff, hneg, decide_eq_true_iff]
        by_cases h0x : has0x s = true
        · obtain ⟨pre, hpre, hbase⟩ := skip0x_split h0x
          refine ⟨w.takeWhile isSpace, sgn, pre, (skip0x s).takeWhile isHexDigit,
            (skip0x s).dropWhile isHexDigit, ?_, ?_, hsgn, .inr hbase, hnil, ?_,
            head?_dropWhile _, by rw [hnegval]⟩
          · rw [List.append_assoc, List.takeWhile_append_dropWhile, List.append_assoc, ← hpre,
              List.append_assoc, ← hsplit, List.takeWhile_append_dropWhile]
          · exact fun b hb => List.mem_takeWhile_imp hb
          · exact fun b hb => List.mem_takeWhile_imp hb
        · have hskip : skip0x s = s := if_neg h0x
          rw [hskip] at hnil hint ⊢
          refine ⟨w.takeWhile isSpace, sgn, [], s.takeWhile isHexDigit, s.dropWhile isHexDigit,
            ?_, ?_, hsgn, .inl ⟨rfl, ?_⟩, hnil, ?_, head?_dropWhile _, by rw [hnegval]⟩
          · rw [List.append_nil, List.append_assoc, List.takeWhile_append_dropWhile,
              List.append_assoc, ← hsplit, List.takeWhile_append_dropWhile]
          · exact fun b hb => List.mem_takeWhile_imp hb
          · rw [List.takeWhile_append_dropWhile]
            simpa using h0x
          · exact fun b hb => List.mem_takeWhile_imp hb
  · intro hparts
    obtain ⟨⟨blanks, sgn, pre, digits, rest, h⟩, hint⟩ := hparts
    unfold stoi16
    rw [h.dropBlanks, h.readSign]
    dsimp only
    rw [h.skipBase, (takeWhile_run h.digit h.longest).1, if_neg h.nonempty, ← h.value,
      if_pos hint]

end Lib.Strtol
