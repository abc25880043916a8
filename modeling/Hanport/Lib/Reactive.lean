import Mathlib

/-!
# Programs that react to inputs

A reactive program takes one input after the other, keeps a state and emits
outputs. Two rules for its runs:

* **exact iterations** (`forall_states_iff`): if, whatever came before, an iteration
  establishes a property iff its input is good, then the property holds after
  every iteration of a run iff all inputs are good;
* **unwinding** (`observed_eq`): if hidden inputs keep a state equivalent and emit
  nothing observable, and inputs that look alike take equivalent states to equivalent
  states with the same observable outputs, then runs whose inputs look alike
  without the hidden ones cannot be told apart;
* **simulation** (`run_simulates`): if each reaction, as it is observed, is the
  reaction of a specification to the input as it is looked at, then so is each run.
-/

namespace Lib.Reactive

variable {S I O : Type*} (react : S → I → S × List O)

/-- The state and the outputs after a list of inputs. -/
def run (s : S) : List I → S × List O
  | [] => (s, [])
  | i :: is => ((run (react s i).1 is).1, (react s i).2 ++ (run (react s i).1 is).2)

theorem run_append (s : S) (is js : List I) :
    run react s (is ++ js) =
      ((run react (run react s is).1 js).1,
        (run react s is).2 ++ (run react (run react s is).1 js).2) := by
  induction is generalizing s with
  | nil => rfl
  | cons i is ih =>
      rw [List.cons_append, run, ih, run]
      simp only [List.append_assoc]

/-- The state after one more input. -/
theorem run_take_succ (s : S) {is : List I} {n : ℕ} (h : n < is.length) :
    (run react s (is.take (n + 1))).1 = (react (run react s (is.take n)).1 is[n]).1 := by
  rw [List.take_add_one, List.getElem?_eq_getElem h, run_append]
  rfl

/-! ## Exact iterations -/

variable {react}

/-- What every iteration keeps, counted, holds after every prefix. -/
theorem counted_run {K : ℕ → S → Prop} {s : S} (hinit : K 0 s)
    (hstep : ∀ n s i, K n s → K (n + 1) (react s i).1) (is : List I) {n : ℕ}
    (hn : n ≤ is.length) : K n (run react s (is.take n)).1 := by
  induction n with
  | zero => exact hinit
  | succ n ih =>
      rw [run_take_succ react s hn]
      exact hstep n _ _ (ih (Nat.le_of_succ_le hn))

/-- What every iteration keeps of the outputs so far and the state holds after a run. -/
theorem history_run {K : List O → S → Prop}
    (hstep : ∀ os s i, K os s → K (os ++ (react s i).2) (react s i).1) {os : List O} {s : S}
    (h : K os s) (is : List I) : K (os ++ (run react s is).2) (run react s is).1 := by
  induction is generalizing os s with
  | nil => rwa [run, List.append_nil]
  | cons i is ih =>
      rw [run, ← List.append_assoc]
      exact ih (hstep os s i h)

/-- **Exact iterations.** `K` holds throughout and under it an iteration establishes
`P` iff its input is good. So `P` holds after every iteration of a run of at most
`N` of them iff every input is good. -/
theorem forall_states_iff {K P : ℕ → S → Prop} {Good : I → Prop} {s : S} {N : ℕ} (hinit : K 0 s)
    (hstep : ∀ n s i, K n s → K (n + 1) (react s i).1)
    (hexact : ∀ n s i, n < N → K n s → (P (n + 1) (react s i).1 ↔ Good i)) {is : List I}
    (hlen : is.length ≤ N) :
    (∀ n < is.length, P (n + 1) (run react s (is.take (n + 1))).1) ↔ ∀ i ∈ is, Good i := by
  have heach : ∀ n (hn : n < is.length),
      P (n + 1) (run react s (is.take (n + 1))).1 ↔ Good is[n] := by
    intro n hn
    rw [run_take_succ react s hn]
    exact hexact n _ _ (by omega) (counted_run hinit hstep is (Nat.le_of_lt hn))
  rw [List.forall_mem_iff_forall_getElem]
  constructor
  · intro h n hn
    exact (heach n hn).mp (h n hn)
  · intro h n hn
    exact (heach n hn).mpr (h n hn)

/-! ## Unwinding -/

section Unwinding

variable {V W : Type*} {R : S → S → Prop} {look : I → Option V} {observe : O → Option W}

/-- Hidden inputs keep the state equivalent and show nothing. -/
theorem run_hidden (hrefl : ∀ s, R s s) (htrans : ∀ s t u, R s t → R t u → R s u)
    (hhidden : ∀ s i, look i = none →
      R s (react s i).1 ∧ (react s i).2.filterMap observe = []) (s : S) {is : List I}
    (h : is.filterMap look = []) :
    R s (run react s is).1 ∧ (run react s is).2.filterMap observe = [] := by
  induction is generalizing s with
  | nil => exact ⟨hrefl s, rfl⟩
  | cons i is ih =>
      rw [List.filterMap_eq_nil_iff, List.forall_mem_cons, ← List.filterMap_eq_nil_iff] at h
      obtain ⟨hstate, hout⟩ := hhidden s i h.1
      obtain ⟨hstate', hout'⟩ := ih (react s i).1 h.2
      refine ⟨htrans _ _ _ hstate hstate', ?_⟩
      rw [run, List.filterMap_append, hout, hout', List.nil_append]

/-- **Unwinding.** Runs from equivalent states, whose inputs look alike once the
hidden ones are dropped, show the same outputs. -/
theorem observed_eq (hequiv : Equivalence R)
    (hhidden : ∀ s i, look i = none →
      R s (react s i).1 ∧ (react s i).2.filterMap observe = [])
    (hvisible : ∀ s t i j v, R s t → look i = some v → look j = some v →
      R (react s i).1 (react t j).1 ∧
        (react s i).2.filterMap observe = (react t j).2.filterMap observe)
    {s t : S} {is js : List I} (hst : R s t) (h : is.filterMap look = js.filterMap look) :
    (run react s is).2.filterMap observe = (run react t js).2.filterMap observe := by
  have htrans : ∀ s t u, R s t → R t u → R s u := fun _ _ _ => hequiv.trans
  induction is generalizing s t js with
  | nil =>
      obtain ⟨_, hout⟩ := run_hidden hequiv.refl htrans hhidden t h.symm
      rw [hout]
      rfl
  | cons i is ih =>
      cases hi : look i with
      | none =>
          obtain ⟨hstate, hout⟩ := hhidden s i hi
          rw [List.filterMap_cons_none hi] at h
          rw [run, List.filterMap_append, hout, List.nil_append]
          exact ih (hequiv.trans (hequiv.symm hstate) hst) h
      | some v =>
          -- the input that looks like `i` stands behind hidden ones
          rw [List.filterMap_cons_some hi] at h
          obtain ⟨pre, j, post, rfl, hpre, hj, hpost⟩ := List.filterMap_eq_cons_iff.mp h.symm
          obtain ⟨hstate, hout⟩ := run_hidden hequiv.refl htrans hhidden t
            (List.filterMap_eq_nil_iff.mpr hpre)
          obtain ⟨hstate', hout'⟩ := hvisible s (run react t pre).1 i j v
            (hequiv.trans hst hstate) hi hj
          rw [run_append, run, run, List.filterMap_append, List.filterMap_append,
            List.filterMap_append, hout, hout', ih hstate' hpost.symm, List.nil_append]

end Unwinding

/-! ## Simulation -/

/-- **Simulation.** `R` relates the states to those of a specification, whose inputs and
outputs are what is seen of the program's. -/
theorem run_simulates {T J P : Type*} {spec : T → J → T × List P} {R : S → T → Prop}
    {look : I → J} {observe : O → Option P}
    (hstep : ∀ s t i, R s t → R (react s i).1 (spec t (look i)).1 ∧
      (react s i).2.filterMap observe = (spec t (look i)).2)
    {s : S} {t : T} (hst : R s t) (is : List I) :
    R (run react s is).1 (run spec t (is.map look)).1 ∧
      (run react s is).2.filterMap observe = (run spec t (is.map look)).2 := by
  induction is generalizing s t with
  | nil => exact ⟨hst, rfl⟩
  | cons i is ih =>
      obtain ⟨hstate, hout⟩ := hstep s t i hst
      obtain ⟨hstate', hout'⟩ := ih hstate
      refine ⟨hstate', ?_⟩
      rw [run, List.filterMap_append, hout, hout']
      rfl

end Lib.Reactive
