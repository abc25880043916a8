import Mathlib

/-!
# Keyed stores and the last write

A store is a state whose values are read and written under keys, and a write
changes the value under its own key only. After a list of writes every key holds
the value of its last write, or its prior value where there is none
(`get_writeAll`).
-/

namespace Lib

/-- Reading and writing under keys. -/
structure Store (K V S : Type*) [DecidableEq K] where
  get : S → K → V
  set : S → K → V → S
  get_set : ∀ s k v k', get (set s k v) k' = if k' = k then v else get s k'

namespace Store

variable {K V S : Type*} [DecidableEq K]

/-- The value of the last write under a key that satisfies `p`. -/
def lastWhere (p : K → Bool) (ws : List (K × V)) : Option V :=
  (ws.filter fun w => p w.1).getLast?.map Prod.snd

/-- The value of the last write under a key. -/
def lastWrite (ws : List (K × V)) (k : K) : Option V := lastWhere (fun k' => k' = k) ws

@[simp] theorem lastWrite_nil (k : K) : lastWrite ([] : List (K × V)) k = none := rfl

omit [DecidableEq K] in
theorem lastWhere_append (p : K → Bool) (ws us : List (K × V)) :
    lastWhere p (ws ++ us) = (lastWhere p us).or (lastWhere p ws) := by
  unfold lastWhere
  rw [List.filter_append, List.getLast?_append, Option.map_or]

theorem lastWrite_append (ws us : List (K × V)) (k : K) :
    lastWrite (ws ++ us) k = (lastWrite us k).or (lastWrite ws k) :=
  lastWhere_append _ ws us

theorem lastWrite_singleton (w : K × V) (k : K) :
    lastWrite [w] k = if w.1 = k then some w.2 else none := by
  unfold lastWrite lastWhere
  by_cases h : w.1 = k <;> simp [h]

theorem lastWrite_cons (w : K × V) (ws : List (K × V)) (k : K) :
    lastWrite (w :: ws) k = (lastWrite ws k).or (if w.1 = k then some w.2 else none) := by
  rw [← lastWrite_singleton, ← lastWrite_append, List.singleton_append]

/-- Writes whose keys are renamed. -/
theorem lastWrite_rename (r : K → K) (ws : List (K × V)) (k : K) :
    lastWrite (ws.map fun w => (r w.1, w.2)) k = lastWhere (fun k' => r k' = k) ws := by
  unfold lastWrite lastWhere
  rw [List.filter_map, List.getLast?_map, Option.map_map]
  rfl

theorem lastWrite_eq_none_iff {ws : List (K × V)} {k : K} :
    lastWrite ws k = none ↔ ∀ w ∈ ws, w.1 ≠ k := by
  unfold lastWrite lastWhere
  rw [Option.map_eq_none_iff, List.getLast?_eq_none_iff, List.filter_eq_nil_iff]
  simp only [decide_eq_true_eq, ne_eq]

/-- A key of a list of distinct keys holds the value it is listed with. -/
theorem lastWrite_eq_some_iff_mem {ws : List (K × V)} (h : (ws.map Prod.fst).Nodup) {k : K}
    {v : V} : lastWrite ws k = some v ↔ (k, v) ∈ ws := by
  induction ws using List.reverseRecOn with
  | nil => simp
  | append_singleton ws w ih =>
      rw [List.map_append, List.nodup_append] at h
      have hfresh : w.1 ∉ ws.map Prod.fst := fun hmem => h.2.2 w.1 hmem w.1 (by simp) rfl
      rw [lastWrite_append, lastWrite_singleton, List.mem_append, List.mem_singleton]
      by_cases hk : w.1 = k
      · have hnot : (k, v) ∉ ws := by
          intro hmem
          rw [hk] at hfresh
          exact hfresh (List.mem_map_of_mem hmem)
        rw [if_pos hk, Option.some_or, Option.some.injEq, or_iff_right hnot, ← hk]
        exact ⟨fun hv => Prod.ext rfl hv.symm, fun heq => congrArg Prod.snd heq.symm⟩
      · have hne : (k, v) ≠ w := fun heq => hk (congrArg Prod.fst heq.symm)
        rw [if_neg hk, Option.none_or, ih h.1, or_iff_left hne]

/-- Batches that agree under a key, one by one. -/
theorem lastWrite_flatMap_congr {α : Type*} {f g : α → List (K × V)} {xs : List α} {k : K}
    (h : ∀ x ∈ xs, lastWrite (f x) k = lastWrite (g x) k) :
    lastWrite (xs.flatMap f) k = lastWrite (xs.flatMap g) k := by
  induction xs with
  | nil => rfl
  | cons x xs ih =>
      rw [List.forall_mem_cons] at h
      rw [List.flatMap_cons, List.flatMap_cons, lastWrite_append, lastWrite_append, h.1, ih h.2]

theorem lastWrite_flatten_eq_none_iff (wss : List (List (K × V))) (k : K) :
    lastWrite wss.flatten k = none ↔ ∀ ws ∈ wss, lastWrite ws k = none := by
  induction wss with
  | nil => simp
  | cons ws wss ih =>
      rw [List.flatten_cons, lastWrite_append, Option.or_eq_none_iff, ih, List.forall_mem_cons,
        and_comm]

/-- Over batches of writes the last write is that of the last batch that has one. -/
theorem lastWrite_flatten_eq_some_iff (wss : List (List (K × V))) (k : K) (v : V) :
    lastWrite wss.flatten k = some v ↔
      ∃ (n : ℕ) (ws : List (K × V)), wss[n]? = some ws ∧ lastWrite ws k = some v ∧
        ∀ (m : ℕ) (ws' : List (K × V)), n < m → wss[m]? = some ws' → lastWrite ws' k = none := by
  induction wss with
  | nil => simp
  | cons ws wss ih =>
      rw [List.flatten_cons, lastWrite_append]
      constructor
      · intro h
        cases hlater : lastWrite wss.flatten k with
        | some v' =>
            rw [hlater, Option.some_or, Option.some.injEq] at h
            obtain ⟨n, us, hn, hus, hmore⟩ := ih.mp (h ▸ hlater)
            refine ⟨n + 1, us, hn, hus, fun m us' hm hus' => ?_⟩
            cases m with
            | zero => exact absurd hm (Nat.not_lt_zero _)
            | succ m => exact hmore m us' (Nat.succ_lt_succ_iff.mp hm) hus'
        | none =>
            rw [hlater, Option.none_or] at h
            rw [lastWrite_flatten_eq_none_iff] at hlater
            refine ⟨0, ws, rfl, h, fun m us' hm hus' => ?_⟩
            cases m with
            | zero => exact absurd hm (Nat.lt_irrefl 0)
            | succ m => exact hlater us' (List.mem_of_getElem? hus')
      · rintro ⟨n, us, hn, hus, hmore⟩
        cases n with
        | zero =>
            cases hn
            have hnone : lastWrite wss.flatten k = none := by
              rw [lastWrite_flatten_eq_none_iff]
              intro us' hus'
              obtain ⟨m, hm⟩ := List.mem_iff_getElem?.mp hus'
              exact hmore (m + 1) us' (Nat.succ_pos m) hm
            rw [hnone, Option.none_or, hus]
        | succ n =>
            have hsome : lastWrite wss.flatten k = some v :=
              ih.mpr ⟨n, us, hn, hus,
                fun m us' hm hus' => hmore (m + 1) us' (Nat.succ_lt_succ hm) hus'⟩
            rw [hsome, Option.some_or]

variable (store : Store K V S)

/-- A list of writes, first to last. -/
def writeAll (ws : List (K × V)) (s : S) : S :=
  ws.foldl (fun s w => store.set s w.1 w.2) s

@[simp] theorem writeAll_nil (s : S) : store.writeAll [] s = s := rfl

@[simp] theorem writeAll_cons (w : K × V) (ws : List (K × V)) (s : S) :
    store.writeAll (w :: ws) s = store.writeAll ws (store.set s w.1 w.2) := rfl

theorem writeAll_append (ws us : List (K × V)) (s : S) :
    store.writeAll (ws ++ us) s = store.writeAll us (store.writeAll ws s) :=
  List.foldl_append

/-- **The last write wins.** -/
theorem get_writeAll (ws : List (K × V)) (s : S) (k : K) :
    store.get (store.writeAll ws s) k = (lastWrite ws k).getD (store.get s k) := by
  induction ws using List.reverseRecOn with
  | nil => rfl
  | append_singleton ws w ih =>
      rw [writeAll_append, writeAll_cons, writeAll_nil, store.get_set,
        lastWrite_append, lastWrite_singleton]
      by_cases h : w.1 = k
      · simp [h]
      · rw [if_neg (Ne.symm h), if_neg h, ih]
        rfl

/-- Writes made a second time change nothing, whatever keys they repeat. -/
theorem get_writeAll_twice (ws : List (K × V)) (s : S) (k : K) :
    store.get (store.writeAll ws (store.writeAll ws s)) k = store.get (store.writeAll ws s) k := by
  rw [get_writeAll, get_writeAll]
  cases lastWrite ws k with
  | none => rfl
  | some v => rfl

end Store

end Lib
