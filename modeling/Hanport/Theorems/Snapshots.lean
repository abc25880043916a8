import Hanport.Logic.Image
import Hanport.Lib.Lts

/-!
# What clients read while snapshots are stored

During an update the table is the new snapshot up to the next store and the old
one from there on (`Layered`). A reply is a range of one snapshot as long as the
range is not cut by the next store and no client has written to the registers of
the image.
-/

namespace Hanport.HpModbuss

open Lib Lib.Lts

/-- Two ranges are equal when they agree at each of their positions. -/
theorem range_eq {xs ys : List Word} {a n : ℕ} (h : ∀ k, a ≤ k → k < a + n → xs[k]? = ys[k]?) :
    (xs.drop a).take n = (ys.drop a).take n := by
  apply List.ext_getElem?
  intro j
  rw [List.getElem?_take, List.getElem?_take, List.getElem?_drop, List.getElem?_drop]
  split
  · exact h (a + j) (by omega) (by omega)
  · rfl

/-! ## An update as the stores of `set_from_hpData` -/

theorem sharedStep_store {wild : Binary32 → BitVec 32} {s : Shared} {d : HpData} {i : ℕ}
    {value : Word} (hu : s.update = some (d, i)) (hv : (makeRegs wild d)[i]? = some value) :
    sharedStep wild s .store =
      some { s with tab := setTab s.tab i value, update := some (d, i + 1) } := by
  rw [sharedStep, hu]
  dsimp only
  rw [hv]

/-- The stores that are left, one after the other. -/
theorem exec_storing (wild : Binary32 → BitVec 32) {s0 s : Shared} {d : HpData} {i : ℕ}
    {h : List (Shared × SharedLabel)} {values : List Word}
    (hexec : Exec (sharedStep wild) s0 h s) (hu : s.update = some (d, i))
    (hvalues : (makeRegs wild d).drop i = values) :
    ∃ mid, (∀ p ∈ mid, p.2 = SharedLabel.store) ∧ Exec (sharedStep wild) s0 (h ++ mid)
      { s with tab := setTabs s.tab i values, update := some (d, i + values.length) } := by
  -- by the words that are left to store
  induction values generalizing s h i with
  | nil => exact ⟨[], List.forall_mem_nil _, by simpa [setTabs, ← hu] using hexec⟩
  | cons value values ih =>
      have hvalue : (makeRegs wild d)[i]? = some value := by
        rw [← List.head?_drop, hvalues]
        rfl
      have hrest : (makeRegs wild d).drop (i + 1) = values := by
        rw [← List.drop_drop, hvalues]
        rfl
      obtain ⟨mid, hmid, hexec'⟩ := ih (.next hexec (sharedStep_store hu hvalue)) rfl hrest
      refine ⟨(s, .store) :: mid, List.forall_mem_cons.mpr ⟨rfl, hmid⟩, ?_⟩
      rw [List.length_cons, setTabs, Nat.add_comm values.length 1, ← Nat.add_assoc,
        List.append_cons]
      exact hexec'

/-- **An update without requests in between is `set_from_hpData`.** -/
theorem exec_updating (wild : Binary32 → BitVec 32) {s0 s : Shared}
    {h : List (Shared × SharedLabel)} (hexec : Exec (sharedStep wild) s0 h s)
    (hidle : s.update = none) (d : HpData) :
    ∃ mid u, (∀ p ∈ mid, p.2 = SharedLabel.store) ∧
      Exec (sharedStep wild) s0
        (h ++ [(s, .setFromHpData d)] ++ mid ++ [(u, .setDone)])
        { tab := setTabs s.tab 0 (makeRegs wild d), passed := s.passed ++ [d],
          completed := some d } := by
  have hbegin : sharedStep wild s (.setFromHpData d) =
      some { s with update := some (d, 0), passed := s.passed ++ [d] } := by
    rw [sharedStep, hidle]
  obtain ⟨mid, hmid, hexec'⟩ := exec_storing wild (.next hexec hbegin) rfl
    (List.drop_zero (l := makeRegs wild d))
  refine ⟨mid, _, hmid, .next hexec' ?_⟩
  rw [sharedStep]
  dsimp only
  rw [if_pos (Nat.zero_add _)]

/-! ## What a step does -/

/-- The steps on the shared table. -/
inductive SharedSteps (wild : Binary32 → BitVec 32) (s : Shared) : SharedLabel → Shared → Prop where
  | setFromHpData (d : HpData) (hidle : s.update = none) :
      SharedSteps wild s (.setFromHpData d)
        { s with update := some (d, 0), passed := s.passed ++ [d] }
  | store {d : HpData} {i : ℕ} {value : Word} (hu : s.update = some (d, i))
      (hv : (makeRegs wild d)[i]? = some value) :
      SharedSteps wild s .store { s with tab := setTab s.tab i value, update := some (d, i + 1) }
  | setDone {d : HpData} {i : ℕ} (hu : s.update = some (d, i)) (hi : i = imageSize) :
      SharedSteps wild s .setDone { s with update := none, completed := some d }
  | read (address count : ℕ) : SharedSteps wild s (.read address count) s
  | write (address : ℕ) (values : List Word) (hroom : address + values.length ≤ nbReg) :
      SharedSteps wild s (.write address values) { s with tab := setTabs s.tab address values }
  | refused (address : ℕ) (values : List Word) (hroom : nbReg < address + values.length) :
      SharedSteps wild s (.write address values) s

theorem sharedSteps_of_step {wild : Binary32 → BitVec 32} {s s' : Shared} {l : SharedLabel}
    (h : sharedStep wild s l = some s') : SharedSteps wild s l s' := by
  cases l with
  | setFromHpData d =>
      rw [sharedStep] at h
      cases hu : s.update with
      | some p =>
          rw [hu] at h
          cases h
      | none =>
          rw [hu] at h
          cases h
          exact .setFromHpData d hu
  | store =>
      rw [sharedStep] at h
      cases hu : s.update with
      | none =>
          rw [hu] at h
          cases h
      | some p =>
          rw [hu] at h
          dsimp only at h
          cases hv : (makeRegs wild p.1)[p.2]? with
          | none =>
              rw [hv] at h
              cases h
          | some value =>
              rw [hv] at h
              cases h
              exact .store hu hv
  | setDone =>
      rw [sharedStep] at h
      cases hu : s.update with
      | none =>
          rw [hu] at h
          cases h
      | some p =>
          rw [hu] at h
          obtain ⟨hi, h⟩ := Option.ite_none_right_eq_some.mp h
          cases h
          exact .setDone hu (hi.trans (makeRegs_length wild p.1))
  | read address count =>
      cases h
      exact .read address count
  | write address values =>
      rw [sharedStep] at h
      split_ifs at h with hroom
      · cases h
        exact .write address values hroom
      · cases h
        exact .refused address values (Nat.lt_of_not_le hroom)

/-! ## The invariant -/

section Wild

variable (wild : Binary32 → BitVec 32)

/-- The registers of the image are those of the snapshot being stored below the
next store, and those of the last complete one from there on. -/
structure Layered (s : Shared) : Prop where
  new : ∀ d i, s.update = some (d, i) → d ∈ s.passed ∧ i ≤ imageSize ∧
    ∀ k < i, s.tab[k]? = (makeRegs wild d)[k]?
  old : ∀ d, s.completed = some d → d ∈ s.passed ∧
    ∀ k < imageSize, (∀ d' i, s.update = some (d', i) → i ≤ k) →
      s.tab[k]? = (makeRegs wild d)[k]?

/-- A good request: a read that the next store does not cut (a read before the first
complete update, or one that leaves the image, does not matter), or a write that
leaves the registers of the image alone. -/
def GoodRequest (s : Shared) : SharedLabel → Prop
  | .read address count =>
      address + count ≤ imageSize → s.completed ≠ none →
        ∀ d i, s.update = some (d, i) → i ≤ address ∨ address + count ≤ i
  | .write address values =>
      imageSize ≤ address ∨ values = [] ∨ nbReg < address + values.length
  | _ => True

variable {wild}

theorem Layered.begin {s : Shared} (hs : Layered wild s) (hidle : s.update = none) (d : HpData) :
    Layered wild { s with update := some (d, 0), passed := s.passed ++ [d] } := by
  refine ⟨?_, ?_⟩
  · intro d' i hd
    cases hd
    exact ⟨by simp, Nat.zero_le _, fun k hk => absurd hk (Nat.not_lt_zero k)⟩
  · intro d0 hd0
    obtain ⟨hmem, htab⟩ := hs.old d0 hd0
    refine ⟨List.mem_append_left _ hmem, fun k hk _ => htab k hk ?_⟩
    intro d' i hd
    rw [hidle] at hd
    cases hd

/-- A store moves the border between the snapshots by one register. -/
theorem Layered.store {s : Shared} (hs : Layered wild s) {d : HpData} {i : ℕ} {value : Word}
    (hu : s.update = some (d, i)) (hv : (makeRegs wild d)[i]? = some value) :
    Layered wild { s with tab := setTab s.tab i value, update := some (d, i + 1) } := by
  obtain ⟨hmem, -, hnew⟩ := hs.new d i hu
  have hi : i < imageSize := by
    obtain ⟨hlt, _⟩ := List.getElem?_eq_some_iff.mp hv
    rwa [makeRegs_length] at hlt
  have hreg : i < nbReg := Nat.lt_of_lt_of_le hi (by decide)
  refine ⟨?_, ?_⟩
  · intro d' i' hd
    cases hd
    refine ⟨hmem, hi, fun k hk => ?_⟩
    show (setTab s.tab i value)[k]? = _
    rw [setTab_getElem?]
    by_cases hki : k = i
    · rw [if_pos ⟨hki, hreg⟩, hki, hv]
    · rw [if_neg fun hc => hki hc.1]
      exact hnew k (by omega)
  · intro d0 hd0
    obtain ⟨hmem0, hold⟩ := hs.old d0 hd0
    refine ⟨hmem0, fun k hk hcut => ?_⟩
    have hki : i + 1 ≤ k := hcut d (i + 1) rfl
    show (setTab s.tab i value)[k]? = _
    rw [setTab_getElem?, if_neg fun hc => by omega]
    refine hold k hk ?_
    intro d' i' hd
    rw [hu] at hd
    cases hd
    omega

theorem Layered.done {s : Shared} (hs : Layered wild s) {d : HpData} {i : ℕ}
    (hu : s.update = some (d, i)) (hi : i = imageSize) :
    Layered wild { s with update := none, completed := some d } := by
  obtain ⟨hmem, -, hnew⟩ := hs.new d i hu
  refine ⟨(fun d' i' hd => nomatch hd), ?_⟩
  intro d0 hd0
  cases hd0
  exact ⟨hmem, fun k hk _ => hnew k (by omega)⟩

/-- Only the registers of the image matter. -/
theorem Layered.of_image {s : Shared} (hs : Layered wild s) {tab : Tab}
    (hkeep : ∀ k < imageSize, tab[k]? = s.tab[k]?) : Layered wild { s with tab := tab } := by
  refine ⟨?_, ?_⟩
  · intro d i hd
    obtain ⟨hmem, hi, hnew⟩ := hs.new d i hd
    exact ⟨hmem, hi, fun k hk => (hkeep k (by omega)).trans (hnew k hk)⟩
  · intro d hd
    obtain ⟨hmem, hold⟩ := hs.old d hd
    exact ⟨hmem, fun k hk hcut => (hkeep k hk).trans (hold k hk hcut)⟩

variable (wild)

theorem layered_step (s : Shared) (l : SharedLabel) (s' : Shared) (hs : Layered wild s)
    (hgood : GoodRequest s l) (h : sharedStep wild s l = some s') : Layered wild s' := by
  cases sharedSteps_of_step h with
  | setFromHpData d hidle => exact hs.begin hidle d
  | store hu hv => exact hs.store hu hv
  | setDone hu hi => exact hs.done hu hi
  | read address count => exact hs
  | write address values hroom =>
      refine hs.of_image fun k hk => ?_
      rcases hgood with hpast | hnil | hout
      · exact setTabs_getElem?_of_lt (by omega) s.tab values
      · rw [hnil]
        rfl
      · omega
  | refused address values hroom => exact hs

/-- In a layered state a read that is not cut sees one snapshot. -/
theorem Layered.reply_eq {s : Shared} (hs : Layered wild s) {address count : ℕ}
    (hgood : GoodRequest s (.read address count)) (hrange : address + count ≤ imageSize)
    (hdone : s.completed ≠ none) :
    ∃ d ∈ s.passed, reply s address count =
      ((makeRegs wild d).drop address).take count := by
  obtain ⟨d0, hd0⟩ := Option.ne_none_iff_exists'.mp hdone
  obtain ⟨hmem0, hold⟩ := hs.old d0 hd0
  have hlist : ∀ k, s.tab.toList[k]? = s.tab[k]? := fun k => Vector.getElem?_toList
  by_cases hnew : ∃ d i, s.update = some (d, i) ∧ address + count ≤ i
  · obtain ⟨d, i, hu, hbelow⟩ := hnew
    obtain ⟨hmem, _, htab⟩ := hs.new d i hu
    refine ⟨d, hmem, range_eq fun k _ hk => ?_⟩
    rw [hlist]
    exact htab k (by omega)
  · refine ⟨d0, hmem0, range_eq fun k hka hk => ?_⟩
    rw [hlist]
    refine hold k (by omega) fun d i hu => ?_
    rcases hgood hrange hdone d i hu with h | h
    · omega
    · exact absurd ⟨d, i, hu, h⟩ hnew

/-- **Clients read one snapshot while every request is good.** In every execution
whose reads are not cut by the next store and whose client writes leave the image
alone, each reply inside the image, once an update is complete, is that range of
one snapshot passed before. -/
theorem replies_one_snapshot (tab : Tab) {h : List (Shared × SharedLabel)} {s : Shared}
    (hexec : Exec (sharedStep wild) { tab := tab } h s)
    (hgood : ∀ p ∈ h, GoodRequest p.1 p.2) :
    ∀ t address count, (t, SharedLabel.read address count) ∈ h →
      address + count ≤ imageSize → t.completed ≠ none →
      ∃ d ∈ t.passed, reply t address count =
        ((makeRegs wild d).drop address).take count := by
  have hinit : Layered wild { tab := tab } :=
    ⟨(fun d i hd => nomatch hd), (fun d hd => nomatch hd)⟩
  intro t address count hmem hrange hdone
  have hlayered := hexec.guarded hinit (layered_step wild) hgood t (mem_visited_of_mem hmem)
  exact hlayered.reply_eq wild (hgood _ hmem) hrange hdone

end Wild

def firstSnapshot : HpData := { heartbeat := 1, l1VoltageRms := ⟨0x43666666#32⟩ }

def secondSnapshot : HpData := { heartbeat := 2, l1VoltageRms := ⟨0x43670000#32⟩ }

/-- The second update has stored its heartbeat when a client reads it, and another one reads
all the other registers. -/
theorem replies_one_snapshot_during_update :
    ∃ t : Shared, t.update = some (secondSnapshot, 2) ∧
      t.passed = [firstSnapshot, secondSnapshot] ∧
      (∃ d ∈ t.passed, reply t 0 2 = ((makeRegs (fun _ => 0#32) d).drop 0).take 2) ∧
      ∃ d ∈ t.passed, reply t 2 52 = ((makeRegs (fun _ => 0#32) d).drop 2).take 52 := by
  obtain ⟨mid, u, hmid, hexec⟩ := exec_updating (fun _ => 0#32)
    (.start : Exec (sharedStep fun _ => 0#32) { tab := mappingNew } [] _) rfl firstSnapshot
  have hword : ∀ k < imageSize,
      ∃ word, (makeRegs (fun _ => 0#32) secondSnapshot)[k]? = some word :=
    fun k hk => ⟨_, List.getElem?_eq_getElem (by rwa [makeRegs_length])⟩
  obtain ⟨low, hlow⟩ := hword 0 (by decide)
  obtain ⟨high, hhigh⟩ := hword 1 (by decide)
  have hbegin := Exec.next (l := SharedLabel.setFromHpData secondSnapshot) hexec rfl
  have hstores := Exec.next (.next hbegin (sharedStep_store rfl hlow)) (sharedStep_store rfl hhigh)
  have hread := Exec.next (l := SharedLabel.read 2 52)
    (Exec.next (l := SharedLabel.read 0 2) hstores rfl) rfl
  have hall := replies_one_snapshot (fun _ => 0#32) mappingNew hread ?_
  · exact ⟨_, rfl, rfl,
      hall _ 0 2 (List.mem_append_left _ (List.mem_append_right _ List.mem_cons_self))
        (by decide) (by simp),
      hall _ 2 52 (List.mem_append_right _ List.mem_cons_self) (by decide) (by simp)⟩
  · intro p hp
    simp only [List.mem_append, List.mem_singleton, List.nil_append] at hp
    rcases hp with (((((((rfl | hp) | rfl) | rfl) | rfl) | rfl) | rfl) | rfl)
    · trivial
    · rw [hmid p hp]
      trivial
    · trivial
    · trivial
    · trivial
    · trivial
    · -- the two words of the heartbeat are stored
      rintro - - d i ⟨⟩
      exact .inr (Nat.le_refl 2)
    · rintro - - d i ⟨⟩
      exact .inl (Nat.le_refl 2)

/-- The second update has stored one of the two words of its heartbeat when a
client reads them: the reply belongs to neither snapshot. -/
theorem reply_of_two_snapshots :
    ¬ ∀ h s, Exec (sharedStep fun _ => 0#32) { tab := mappingNew } h s →
      ∀ t address count, (t, SharedLabel.read address count) ∈ h →
        address + count ≤ imageSize → t.completed ≠ none →
        ∃ d ∈ t.passed, reply t address count =
          ((makeRegs (fun _ => 0#32) d).drop address).take count := by
  intro hall
  have hstart : Exec (sharedStep fun _ => 0#32) { tab := mappingNew } [] { tab := mappingNew } :=
    .start
  have hvalue : (makeRegs (fun _ => 0#32) { heartbeat := 0x00010001#32 })[0]? = some 0x0001#16 := by
    decide +kernel
  obtain ⟨mid, u, -, hexec⟩ := exec_updating (fun _ => 0#32) hstart rfl {}
  have hbegin := Exec.next (l := SharedLabel.setFromHpData { heartbeat := 0x00010001#32 }) hexec rfl
  have hread := Exec.next (l := SharedLabel.read 0 2)
    (.next hbegin (sharedStep_store rfl hvalue)) rfl
  obtain ⟨d, hd, heq⟩ := hall _ _ hread _ 0 2 (List.mem_append_right _ List.mem_cons_self)
    (by decide) (by simp)
  have hreply : (setTab (setTabs mappingNew 0 (makeRegs (fun _ => 0#32) {})) 0 0x0001#16).toList.take 2
      = [0x0001#16, 0#16] := by decide +kernel
  unfold reply at heq
  rw [List.drop_zero, List.drop_zero, hreply] at heq
  rcases List.mem_cons.mp hd with rfl | hd
  · exact absurd heq (by decide +kernel)
  · rw [List.mem_singleton.mp hd] at heq
    exact absurd heq (by decide +kernel)

end Hanport.HpModbuss
