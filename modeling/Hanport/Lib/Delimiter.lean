import Mathlib

/-!
# Splitting at a delimiter

Uniqueness of the first and the last split of a list at a symbol, and what
the searching functions of the list library return on a split list.
-/

namespace Lib.Delimiter

variable {α : Type*}

/-- The split at the first occurrence of a symbol is unique. -/
theorem first_split_unique {d : α} {a b x y : List α} (ha : d ∉ a) (hb : d ∉ b)
    (h : a ++ d :: x = b ++ d :: y) : a = b ∧ x = y := by
  rcases List.append_eq_append_iff.mp h with ⟨c, rfl, hc⟩ | ⟨c, rfl, hc⟩
  · cases c with
    | nil => simpa [eq_comm] using hc
    | cons e c =>
        rw [List.cons_append, List.cons.injEq] at hc
        exact absurd (by simp [hc.1]) hb
  · cases c with
    | nil => simpa [eq_comm] using hc
    | cons e c =>
        rw [List.cons_append, List.cons.injEq] at hc
        exact absurd (by simp [hc.1]) ha

/-- The split at the last occurrence of a symbol is unique. -/
theorem last_split_unique {d : α} {a b x y : List α} (hx : d ∉ x) (hy : d ∉ y)
    (h : a ++ d :: x = b ++ d :: y) : a = b ∧ x = y := by
  have hrev : x.reverse ++ d :: a.reverse = y.reverse ++ d :: b.reverse := by
    have := congrArg List.reverse h
    simpa using this
  obtain ⟨h1, h2⟩ := first_split_unique (by simpa using hx) (by simpa using hy) hrev
  exact ⟨List.reverse_injective h2, List.reverse_injective h1⟩

/-- Where a symbol stands once, an infix with it has its beginning in front of it. -/
theorem suffix_of_split_within [DecidableEq α] {d : α} {p q a b : List α} (ha : d ∉ a) (hb : d ∉ b)
    (h : p ++ d :: q <:+: a ++ d :: b) : p <:+ a := by
  obtain ⟨s, t, hst⟩ := h
  have hsplit : (s ++ p) ++ d :: (q ++ t) = a ++ d :: b := by
    rw [← hst]
    simp
  have hcount := congrArg (List.count d) hsplit
  simp only [List.count_append, List.count_cons_self, List.count_eq_zero.mpr ha,
    List.count_eq_zero.mpr hb] at hcount
  have hfront : d ∉ s ++ p := by
    rw [← List.count_eq_zero, List.count_append]
    omega
  exact ⟨s, (first_split_unique hfront ha hsplit).1⟩

theorem takeWhile_first_split [DecidableEq α] {d : α} {a x : List α} (ha : d ∉ a) :
    (a ++ d :: x).takeWhile (fun c => c ≠ d) = a := by
  rw [List.takeWhile_append_of_pos]
  · simp
  · intro c hc
    simp only [ne_eq, decide_eq_true_eq]
    intro he
    exact ha (he ▸ hc)

theorem dropWhile_first_split [DecidableEq α] {d : α} {a x : List α} (ha : d ∉ a) :
    (a ++ d :: x).dropWhile (fun c => c ≠ d) = d :: x := by
  rw [List.dropWhile_append_of_pos]
  · simp
  · intro c hc
    simp only [ne_eq, decide_eq_true_eq]
    intro he
    exact ha (he ▸ hc)

/-- The index of the first occurrence is the length of what is before. -/
theorem findIdx?_first_split [DecidableEq α] {d : α} {a : List α} (ha : d ∉ a) (x : List α) :
    (a ++ d :: x).findIdx? (fun c => c = d) = some a.length := by
  rw [List.findIdx?_append, List.findIdx?_eq_none_iff.mpr]
  · simp [List.findIdx?_cons]
  · intro c hc
    rw [decide_eq_false_iff_not]
    exact fun he => ha (he ▸ hc)

theorem findIdx?_eq_none_iff_notMem [DecidableEq α] (d : α) (a : List α) :
    a.findIdx? (fun c => c = d) = none ↔ d ∉ a := by
  rw [List.findIdx?_eq_none_iff]
  constructor
  · intro h hd
    simpa using h d hd
  · intro h c hc
    rw [decide_eq_false_iff_not]
    exact fun he => h (he ▸ hc)

/-- The first of either is the earlier of the first ones. -/
theorem findIdx?_or (p q : α → Bool) (l : List α) :
    l.findIdx? (fun b => p b || q b) =
      match l.findIdx? q with
      | none => l.findIdx? p
      | some i =>
          match l.findIdx? p with
          | none => some i
          | some j => some (min j i) := by
  induction l with
  | nil => rfl
  | cons b l ih =>
      simp only [List.findIdx?_cons, ih]
      cases hp : p b <;> cases hq : q b <;> cases l.findIdx? p <;> cases l.findIdx? q <;> simp

end Lib.Delimiter
