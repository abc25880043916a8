import Mathlib

/-!
# Bit strings as polynomials over GF(2)

A bit string is read as a polynomial whose highest degree belongs to the first
bit (`ofBits`). The difference of two strings of equal length is the sum of the
monomials of the positions where they differ (`ofBits_sub`). For a generator `G`
with constant coefficient 1 this tells which differences `G` cannot divide:

* **bursts**: all positions within `natDegree G` of each other
  (`not_dvd_of_burst`);
* **odd weight**: an odd number of positions, when `G` has the root 1
  (`not_dvd_of_odd`);
* **pairs**: two positions whose distance is no period of `X` modulo `G`
  (`not_dvd_of_pair`).
-/

namespace Lib.BitPoly

open Polynomial

/-- A bit as an element of GF(2). -/
def bit (b : Bool) : ZMod 2 := if b then 1 else 0

@[simp] theorem bit_true : bit true = 1 := rfl

@[simp] theorem bit_false : bit false = 0 := rfl

theorem bit_xor (a b : Bool) : bit (a ^^ b) = bit a + bit b := by
  cases a <;> cases b <;> rfl

/-- Bits differ by 1 or not at all. -/
theorem bit_sub (a b : Bool) : bit a - bit b = if a = b then 0 else 1 := by
  cases a <;> cases b <;> rfl

/-- The polynomial of a bit string, the first bit with the highest degree. -/
noncomputable def ofBits : List Bool → (ZMod 2)[X]
  | [] => 0
  | b :: l => C (bit b) * X ^ l.length + ofBits l

@[simp] theorem ofBits_nil : ofBits [] = 0 := rfl

theorem ofBits_cons (b : Bool) (l : List Bool) :
    ofBits (b :: l) = C (bit b) * X ^ l.length + ofBits l := rfl

theorem ofBits_append (l r : List Bool) :
    ofBits (l ++ r) = X ^ r.length * ofBits l + ofBits r := by
  induction l with
  | nil => simp
  | cons b l ih =>
      rw [List.cons_append, ofBits_cons, ih, ofBits_cons, List.length_append, pow_add]
      ring

theorem ofBits_map_range (f : ℕ → Bool) (n : ℕ) :
    ofBits ((List.range n).map f) = ∑ i ∈ Finset.range n, C (bit (f i)) * X ^ (n - 1 - i) := by
  induction n generalizing f with
  | zero => rfl
  | succ n ih =>
      rw [List.range_succ_eq_map, List.map_cons, List.map_map, ofBits_cons, ih,
        Finset.sum_range_succ', add_comm]
      congr 1
      · refine Finset.sum_congr rfl fun i _ => ?_
        rw [show n + 1 - 1 - (i + 1) = n - 1 - i by omega]
        rfl
      · simp

theorem ofBits_replicate_false (n : ℕ) : ofBits (List.replicate n false) = 0 := by
  induction n with
  | zero => rfl
  | succ n ih => simp [List.replicate_succ, ofBits_cons, ih]

theorem degree_ofBits_lt (l : List Bool) : (ofBits l).degree < l.length := by
  induction l with
  | nil => simp
  | cons b l ih =>
      have hhead : (C (bit b) * X ^ l.length).degree ≤ (l.length : WithBot ℕ) :=
        degree_C_mul_X_pow_le l.length (bit b)
      have hlen : (l.length : WithBot ℕ) < ((b :: l).length : ℕ) := by
        rw [List.length_cons]
        exact_mod_cast Nat.lt_succ_self l.length
      rw [ofBits_cons]
      exact (degree_add_le _ _).trans_lt (max_lt (hhead.trans_lt hlen) (ih.trans hlen))

theorem ofBits_map_xor {ι : Type*} (f g : ι → Bool) (l : List ι) :
    ofBits (l.map fun i => f i ^^ g i) = ofBits (l.map f) + ofBits (l.map g) := by
  induction l with
  | nil => simp
  | cons i l ih =>
      simp only [List.map_cons, ofBits_cons, List.length_map, ih, bit_xor, C_add]
      ring

/-- Strings of equal length are determined by their polynomials. -/
theorem ofBits_injective {l r : List Bool} (h : l.length = r.length)
    (heq : ofBits l = ofBits r) : l = r := by
  induction l generalizing r with
  | nil => exact (List.length_eq_zero_iff.mp h.symm).symm
  | cons a l ih =>
      cases r with
      | nil => cases h
      | cons b r =>
          have hlen : l.length = r.length := by simpa using h
          have hl := coeff_eq_zero_of_degree_lt (degree_ofBits_lt l)
          have hr := coeff_eq_zero_of_degree_lt (degree_ofBits_lt r)
          have hcoeff := congrArg (fun p => p.coeff l.length) heq
          have hab : a = b := by
            rw [← hlen] at hr
            simp only [ofBits_cons, ← hlen, coeff_add, coeff_C_mul, coeff_X_pow_self, mul_one,
              hl, hr, add_zero] at hcoeff
            by_contra hne
            have hsub := bit_sub a b
            rw [hcoeff, sub_self, if_neg hne] at hsub
            exact zero_ne_one hsub
          subst hab
          rw [ofBits_cons, ofBits_cons, ← hlen] at heq
          rw [ih hlen (add_left_cancel heq)]

/-! ## Differences -/

/-- The positions at which two lists differ. -/
def differing {α : Type*} [DecidableEq α] (l r : List α) : Finset ℕ :=
  (Finset.range l.length).filter fun k => l[k]? ≠ r[k]?

theorem mem_differing {α : Type*} [DecidableEq α] {l r : List α} {k : ℕ} :
    k ∈ differing l r ↔ k < l.length ∧ l[k]? ≠ r[k]? := by
  rw [differing, Finset.mem_filter, Finset.mem_range]

/-- Lists of equal length are equal iff they differ nowhere. -/
theorem differing_eq_empty_iff {α : Type*} [DecidableEq α] {l r : List α}
    (h : l.length = r.length) : differing l r = ∅ ↔ l = r := by
  rw [Finset.eq_empty_iff_forall_notMem]
  constructor
  · intro hnone
    refine List.ext_getElem? fun k => ?_
    by_cases hk : k < l.length
    · by_contra hne
      exact hnone k (mem_differing.mpr ⟨hk, hne⟩)
    · rw [List.getElem?_eq_none (by omega), List.getElem?_eq_none (by omega)]
  · rintro rfl k hk
    exact (mem_differing.mp hk).2 rfl

/-- What follows both lists makes no difference. -/
theorem differing_append {α : Type*} [DecidableEq α] {l r : List α} (h : l.length = r.length)
    (t : List α) : differing (l ++ t) (r ++ t) = differing l r := by
  ext k
  rw [mem_differing, mem_differing, List.length_append]
  by_cases hk : k < l.length
  · rw [List.getElem?_append_left hk, List.getElem?_append_left (h ▸ hk)]
    exact and_congr_left fun _ => by omega
  · rw [List.getElem?_append_right (by omega), List.getElem?_append_right (by omega), h]
    simp
    omega

/-- Two strings of equal length differ by the monomials of their differing
positions. -/
theorem ofBits_sub {l r : List Bool} (h : l.length = r.length) :
    ofBits l - ofBits r = ∑ k ∈ differing l r, X ^ (l.length - 1 - k) := by
  unfold differing
  rw [Finset.sum_filter]
  induction l generalizing r with
  | nil =>
      rw [List.length_eq_zero_iff.mp h.symm]
      simp
  | cons a l ih =>
      cases r with
      | nil => cases h
      | cons b r =>
          have hlen : l.length = r.length := by simpa using h
          have hhead : C (bit a) * X ^ l.length - C (bit b) * X ^ r.length =
              if a = b then 0 else (X : (ZMod 2)[X]) ^ l.length := by
            rw [← hlen, ← sub_mul, ← C_sub, bit_sub]
            split <;> simp
          have htail := ih hlen
          rw [ofBits_cons, ofBits_cons, add_sub_add_comm, hhead, htail, List.length_cons,
            Finset.sum_range_succ', add_comm]
          congr 1
          · refine Finset.sum_congr rfl fun k _ => ?_
            rw [List.getElem?_cons_succ, List.getElem?_cons_succ]
            congr 2
            omega
          · by_cases hab : a = b
            · simp [hab]
            · simp [hab]

/-! ## What a generator cannot divide -/

section Generator

variable {G : (ZMod 2)[X]} {l r : List Bool}

theorem dvd_X_pow_mul_iff (hG : G.coeff 0 = 1) (k : ℕ) (P : (ZMod 2)[X]) :
    G ∣ X ^ k * P ↔ G ∣ P := by
  have hcop : IsCoprime G X := by
    rw [isCoprime_comm, Polynomial.irreducible_X.coprime_iff_not_dvd, X_dvd_iff, hG]
    exact one_ne_zero
  constructor
  · intro hdvd
    exact hcop.pow_right.dvd_of_dvd_mul_left hdvd
  · intro hdvd
    exact hdvd.mul_left (X ^ k)

/-- Differences within `natDegree G` positions of each other are not divisible
by `G`. -/
theorem not_dvd_of_burst (hG : G.coeff 0 = 1) (h : l.length = r.length)
    (hne : (differing l r).Nonempty) {a : ℕ}
    (hburst : ∀ k ∈ differing l r, a ≤ k ∧ k < a + G.natDegree) :
    ¬ G ∣ ofBits l - ofBits r := by
  -- up to a power of `X` the difference is a polynomial of degree below `G`
  set last := (differing l r).max' hne with hlast
  have hle : ∀ k ∈ differing l r, k ≤ last := fun k hk => Finset.le_max' _ k hk
  have hmem : last ∈ differing l r := Finset.max'_mem _ hne
  have hlen : last < l.length := (mem_differing.mp hmem).1
  have hshift : ofBits l - ofBits r =
      X ^ (l.length - 1 - last) * ∑ k ∈ differing l r, X ^ (last - k) := by
    rw [ofBits_sub h, Finset.mul_sum]
    refine Finset.sum_congr rfl fun k hk => ?_
    have := hle k hk
    rw [← pow_add]
    congr 1
    omega
  have hcoeff : (∑ k ∈ differing l r, (X : (ZMod 2)[X]) ^ (last - k)).coeff 0 = 1 := by
    rw [finsetSum_coeff, Finset.sum_eq_single last]
    · simp
    · intro k hk hkne
      have hklt : k < last := lt_of_le_of_ne (hle k hk) hkne
      rw [coeff_X_pow, if_neg (by omega)]
    · intro hnot
      exact absurd hmem hnot
  have hdegree : (∑ k ∈ differing l r, (X : (ZMod 2)[X]) ^ (last - k)).natDegree <
      G.natDegree := by
    have hlastb := hburst last hmem
    refine (natDegree_sum_le_of_forall_le _ _ (n := G.natDegree - 1) fun k hk => ?_).trans_lt
      (by omega)
    have hkb := hburst k hk
    rw [natDegree_X_pow]
    omega
  intro hdvd
  rw [hshift, dvd_X_pow_mul_iff hG] at hdvd
  have hzero := eq_zero_of_dvd_of_natDegree_lt hdvd hdegree
  rw [hzero, coeff_zero] at hcoeff
  exact zero_ne_one hcoeff

/-- An odd number of differences is not divisible by a generator with the
root 1. -/
theorem not_dvd_of_odd (hG : G.eval 1 = 0) (h : l.length = r.length)
    (hodd : Odd (differing l r).card) : ¬ G ∣ ofBits l - ofBits r := by
  intro hdvd
  obtain ⟨Q, hQ⟩ := hdvd
  have heval : (ofBits l - ofBits r).eval 1 = ((differing l r).card : ZMod 2) := by
    rw [ofBits_sub h, eval_finsetSum]
    simp
  rw [hQ, eval_mul, hG, zero_mul, ZMod.natCast_eq_one_iff_odd.mpr hodd] at heval
  exact zero_ne_one heval

/-- Two differences are divisible by `G` only at a distance that is a period of
`X` modulo `G`. -/
theorem not_dvd_of_pair (hG : G.coeff 0 = 1) (h : l.length = r.length) {i j : ℕ} (hij : i < j)
    (hpair : differing l r = {i, j}) (hperiod : ¬ G ∣ X ^ (j - i) - 1) :
    ¬ G ∣ ofBits l - ofBits r := by
  have hj : j < l.length := (mem_differing.mp (by rw [hpair]; simp)).1
  have hsum : ofBits l - ofBits r = X ^ (l.length - 1 - j) * (X ^ (j - i) - 1) := by
    rw [ofBits_sub h, hpair, Finset.sum_pair (Nat.ne_of_lt hij), mul_sub, ← pow_add, mul_one,
      CharTwo.sub_eq_add]
    congr 2
    omega
  rw [hsum, dvd_X_pow_mul_iff hG]
  exact hperiod

end Generator

end Lib.BitPoly
