import Hanport.Lib.DecimalText

/-!
# `std::stoi` in base 10

The conversion of the C++ library as it is documented: leading blanks are skipped,
an optional sign is read, then the longest run of decimal digits; what follows is
ignored. `Reads10` states this as a grammar, and the function computes exactly it.
-/

namespace Lib.Strtol

open Lib.Ascii Lib.Strtof

/-- The number of a sign and a digit string. -/
def signed10 (neg : Bool) (digits : List Byte) : ℤ :=
  if neg then -(digitsValue digits : ℤ) else (digitsValue digits : ℤ)

/-- `std::stoi(str)`. -/
def stoi10 (str : List Byte) : Except StoiError ℤ :=
  let (neg, s) := sign (str.dropWhile isSpace)
  let digits := s.takeWhile isDecDigit
  if digits = [] then .error .invalidArgument
  else if InInt (signed10 neg digits) then .ok (signed10 neg digits)
  else .error .outOfRange

/-! ## The grammar -/

/-- The text reads as the number: blanks, an optional sign, the longest run of digits,
and anything. -/
inductive Reads10 : List Byte → ℤ → Prop
  | number {blanks sgn digits rest : List Byte} {neg : Bool}
      (hblank : ∀ b ∈ blanks, isSpace b = true) (hsign : IsSign sgn neg)
      (hdigit : ∀ b ∈ digits, isDecDigit b = true) (hne : digits ≠ [])
      (hrest : ∀ b ∈ rest.head?, isDecDigit b = false) :
      Reads10 (blanks ++ (sgn ++ (digits ++ rest))) (signed10 neg digits)

/-- A text without a number is refused, and the number of another one if it is no
`int`. -/
theorem stoi10_of_reads {w : List Byte} {n : ℤ} (h : Reads10 w n) :
    stoi10 w = if InInt n then .ok n else .error .outOfRange := by
  cases h with
  | @number blanks sgn digits rest neg hblank hsign hdigit hne hrest =>
      obtain ⟨d, ds, rfl⟩ := List.exists_cons_of_ne_nil hne
      have hd : InNumeral d := .inl (hdigit d (by simp))
      have hdrop : (blanks ++ (sgn ++ (d :: ds ++ rest))).dropWhile isSpace =
          sgn ++ (d :: ds ++ rest) := by
        rw [List.dropWhile_append_of_pos hblank]
        exact dropWhile_isSpace_numeral hsign hd (ds ++ rest)
      have hsgn : sign (sgn ++ (d :: ds ++ rest)) = (neg, d :: ds ++ rest) :=
        sign_numeral hsign hd (ds ++ rest)
      unfold stoi10
      rw [hdrop, hsgn]
      dsimp only
      rw [(takeWhile_run hdigit hrest).1, if_neg hne]

theorem sign_isSign (s : List Byte) : ∃ sgn, IsSign sgn (sign s).1 ∧ s = sgn ++ (sign s).2 := by
  cases s with
  | nil => exact ⟨[], .none, rfl⟩
  | cons b s =>
      by_cases hm : b = '-'.toUInt8
      · subst hm
        exact ⟨['-'.toUInt8], .minus, rfl⟩
      · by_cases hp : b = '+'.toUInt8
        · subst hp
          exact ⟨['+'.toUInt8], .plus, rfl⟩
        · rw [sign, if_neg hm, if_neg hp]
          exact ⟨[], .none, rfl⟩

/-- A text that is not refused as no number has one. -/
theorem reads_of_stoi10 {w : List Byte} (h : stoi10 w ≠ .error .invalidArgument) :
    ∃ n, Reads10 w n := by
  obtain ⟨sgn, hsgn, hsplit⟩ := sign_isSign (w.dropWhile isSpace)
  unfold stoi10 at h
  cases hs : sign (w.dropWhile isSpace) with
  | mk neg s =>
      rw [hs] at h hsgn hsplit
      dsimp only at h hsgn hsplit
      have hne : s.takeWhile isDecDigit ≠ [] := by
        intro hnil
        rw [if_pos hnil] at h
        exact h rfl
      -- the parts that the function takes are those of the grammar
      have hw : w = w.takeWhile isSpace ++ (sgn ++ (s.takeWhile isDecDigit ++
          s.dropWhile isDecDigit)) := by
        rw [List.takeWhile_append_dropWhile, ← hsplit, List.takeWhile_append_dropWhile]
      rw [hw]
      exact ⟨_, .number (fun b hb => List.mem_takeWhile_imp hb) hsgn
        (fun b hb => List.mem_takeWhile_imp hb) hne (head?_dropWhile _)⟩

/-- **`std::stoi` accepts exactly the texts of the grammar whose number is an `int`.** -/
theorem stoi10_eq_ok_iff (w : List Byte) (n : ℤ) : stoi10 w = .ok n ↔ Reads10 w n ∧ InInt n := by
  constructor
  · intro h
    obtain ⟨m, hm⟩ : ∃ m, Reads10 w m := by
      apply reads_of_stoi10
      rw [h]
      exact fun he => nomatch he
    rw [stoi10_of_reads hm] at h
    split_ifs at h with hint
    cases h
    exact ⟨hm, hint⟩
  · rintro ⟨h, hint⟩
    rw [stoi10_of_reads h, if_pos hint]

end Lib.Strtol
