import Mathlib

/-!
# Trimming both ends of a list

`trim p` drops the elements of `p` at both ends. What is added there does not show
(`trim_surround`), and an element that stays separates the two ends (`trim_split`).
-/

namespace Lib.Trim

variable {α : Type*} {p : α → Bool}

/-- The list without the elements of `p` at its ends. -/
def trim (p : α → Bool) (l : List α) : List α := (l.dropWhile p).rdropWhile p

theorem rdropWhile_append_of_pos {l d : List α} (h : ∀ x ∈ d, p x = true) :
    (l ++ d).rdropWhile p = l.rdropWhile p := by
  unfold List.rdropWhile
  rw [List.reverse_append, List.dropWhile_append_of_pos]
  intro x hx
  exact h x (List.mem_reverse.mp hx)

theorem trim_append_left {a l : List α} (h : ∀ x ∈ a, p x = true) :
    trim p (a ++ l) = trim p l := by
  unfold trim
  rw [List.dropWhile_append_of_pos h]

theorem trim_append_right {l d : List α} (h : ∀ x ∈ d, p x = true) :
    trim p (l ++ d) = trim p l := by
  unfold trim
  rw [List.dropWhile_append]
  split_ifs with hnil
  · rw [List.isEmpty_iff] at hnil
    rw [hnil, List.dropWhile_eq_nil_iff.mpr h]
  · exact rdropWhile_append_of_pos h

/-- What is added at the ends does not show. -/
theorem trim_surround {a l d : List α} (ha : ∀ x ∈ a, p x = true) (hd : ∀ x ∈ d, p x = true) :
    trim p (a ++ l ++ d) = trim p l := by
  rw [trim_append_right hd, trim_append_left ha]

theorem dropWhile_split {e : α} (he : p e = false) (x y : List α) :
    (x ++ e :: y).dropWhile p = x.dropWhile p ++ e :: y := by
  have hstay : ¬ p e = true := by simp [he]
  rw [List.dropWhile_append]
  split_ifs with hnil
  · rw [List.isEmpty_iff] at hnil
    rw [hnil, List.dropWhile_cons_of_neg hstay, List.nil_append]
  · rfl

theorem rdropWhile_split {e : α} (he : p e = false) (x y : List α) :
    (x ++ e :: y).rdropWhile p = x ++ e :: y.rdropWhile p := by
  unfold List.rdropWhile
  have hreverse : (x ++ e :: y).reverse = y.reverse ++ e :: x.reverse := by simp
  rw [hreverse, dropWhile_split he]
  simp

/-- An element that stays separates the ends. -/
theorem trim_split {e : α} (he : p e = false) (x y : List α) :
    trim p (x ++ e :: y) = x.dropWhile p ++ e :: y.rdropWhile p := by
  unfold trim
  rw [dropWhile_split he, rdropWhile_split he]

theorem trim_dropWhile (l : List α) : trim p (l.dropWhile p) = trim p l := by
  unfold trim
  rw [List.dropWhile_idempotent]

theorem trim_rdropWhile (l : List α) : trim p (l.rdropWhile p) = trim p l := by
  have hends : ∀ x ∈ l.rtakeWhile p, p x = true := fun x hx => List.mem_rtakeWhile_imp hx
  rw [← trim_append_right hends, List.rdropWhile_append_rtakeWhile]

theorem trim_eq_nil_iff (l : List α) : trim p l = [] ↔ ∀ x ∈ l, p x = true := by
  unfold trim
  rw [List.rdropWhile_eq_nil_iff]
  constructor
  · intro h
    by_contra hstay
    rw [← List.dropWhile_eq_nil_iff, ← ne_eq] at hstay
    have hhead := List.head_dropWhile_not p hstay
    rw [h _ (List.head_mem hstay)] at hhead
    cases hhead
  · exact fun h x hx => h x ((List.dropWhile_suffix p).subset hx)

theorem mem_of_mem_trim {x : α} {l : List α} (h : x ∈ trim p l) : x ∈ l :=
  (List.dropWhile_suffix p).subset ((List.rdropWhile_prefix p _).subset h)

/-- A list is of `p` throughout, or begins to stay at some element. -/
theorem all_or_first (l : List α) :
    (∀ x ∈ l, p x = true) ∨
      ∃ a e y, l = a ++ e :: y ∧ (∀ x ∈ a, p x = true) ∧ p e = false := by
  induction l with
  | nil => exact .inl (by simp)
  | cons e l ih =>
      cases he : p e with
      | false => exact .inr ⟨[], e, l, rfl, by simp, he⟩
      | true =>
          rcases ih with hall | ⟨a, e', y, rfl, ha, he'⟩
          · exact .inl (List.forall_mem_cons.mpr ⟨he, hall⟩)
          · exact .inr ⟨e :: a, e', y, rfl, List.forall_mem_cons.mpr ⟨he, ha⟩, he'⟩

/-- From the first element that stays on only the other end is trimmed. -/
theorem trim_first {a y : List α} {e : α} (ha : ∀ x ∈ a, p x = true) (he : p e = false) :
    trim p (a ++ e :: y) = e :: y.rdropWhile p := by
  rw [trim_split he, List.dropWhile_eq_nil_iff.mpr ha, List.nil_append]

/-- A list with no element of `p` at its ends is not changed. -/
theorem trim_eq_self {l : List α} (hhead : ∀ x ∈ l.head?, p x = false)
    (hlast : ∀ x ∈ l.getLast?, p x = false) : trim p l = l := by
  have hfront : l.dropWhile p = l := by
    cases l with
    | nil => rfl
    | cons x l => exact List.dropWhile_cons_of_neg (by simp [hhead x rfl])
  unfold trim
  rw [hfront, List.rdropWhile_eq_self_iff]
  intro hl
  rw [hlast _ (List.getLast?_eq_getLast_of_ne_nil hl)]
  exact Bool.false_ne_true

/-- Elements that stay are all kept. -/
theorem count_trim [DecidableEq α] {e : α} (he : p e = false) (l : List α) :
    (trim p l).count e = l.count e := by
  have hfront : (l.takeWhile p).count e = 0 := by
    rw [List.count_eq_zero]
    intro hmem
    rw [List.mem_takeWhile_imp hmem] at he
    cases he
  have hback : ((l.dropWhile p).rtakeWhile p).count e = 0 := by
    rw [List.count_eq_zero]
    intro hmem
    rw [List.mem_rtakeWhile_imp hmem] at he
    cases he
  have hsplit := List.rdropWhile_append_rtakeWhile (p := p) (l := l.dropWhile p)
  calc (trim p l).count e
      = (trim p l ++ (l.dropWhile p).rtakeWhile p).count e := by
        rw [List.count_append, hback, Nat.add_zero]
    _ = (l.takeWhile p ++ l.dropWhile p).count e := by
        unfold trim
        rw [hsplit, List.count_append, hfront, Nat.zero_add]
    _ = l.count e := by rw [List.takeWhile_append_dropWhile]

end Lib.Trim
