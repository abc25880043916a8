import Hanport.Theorems.Snapshots

/-!
# The shared table under every interleaving

What a client reads while the updater stores snapshots: a splice of the last two, the
newer one in front, and never an older one than it has read before. The words that
clients write themselves are undone by the next complete update inside the image, and
stay where the image does not reach. The updater's stores come one by one, while a request
is one step: `modbus_reply` is taken to answer it, or to write what it asks for, with no
store in between.
-/

namespace Hanport.HpModbuss

open Lib Lib.Lts

/-- The step stores nothing a client sends in the registers of the image. -/
def SparesImage : SharedLabel → Prop
  | .write address values =>
      imageSize ≤ address ∨ values = [] ∨ nbReg < address + values.length
  | _ => True

/-- How many snapshots have been stored to a register. -/
def version (s : Shared) (k : ℕ) : ℕ :=
  match s.update with
  | none => s.passed.length
  | some (_, i) => if k < i then s.passed.length else s.passed.length - 1

section Wild

variable (wild : Binary32 → BitVec 32)

/-- The word of a register in a version; in the version 0 it is that of the table at the
start. -/
def versionWord (tab : Tab) (passed : List HpData) (k : ℕ) : ℕ → Option Word
  | 0 => tab[k]?
  | v + 1 => passed[v]?.bind fun d => (makeRegs wild d)[k]?

/-! ## Versions -/

/-- Every register of the image whose version is not below `base` holds the word of its
version. -/
structure Versioned (tab : Tab) (base : ℕ) (s : Shared) : Prop where
  current : ∀ d i, s.update = some (d, i) → s.passed.getLast? = some d ∧ i ≤ imageSize
  holds : ∀ k < imageSize, base ≤ version s k →
    s.tab[k]? = versionWord wild tab s.passed k (version s k)

variable {wild}

theorem version_le (s : Shared) (k : ℕ) : version s k ≤ s.passed.length := by
  unfold version
  cases s.update with
  | none => exact Nat.le_refl _
  | some p =>
      dsimp only
      split_ifs
      · exact Nat.le_refl _
      · exact Nat.sub_le _ _

/-- No register is more than one snapshot behind. -/
theorem length_le_version (s : Shared) (k : ℕ) : s.passed.length ≤ version s k + 1 := by
  unfold version
  cases s.update with
  | none => exact Nat.le_succ _
  | some p =>
      dsimp only
      split_ifs <;> omega

/-- Registers further in front are as new. -/
theorem version_antitone (s : Shared) {k k' : ℕ} (h : k ≤ k') : version s k' ≤ version s k := by
  unfold version
  cases s.update with
  | none => exact Nat.le_refl _
  | some p =>
      dsimp only
      split_ifs <;> omega

/-- A snapshot that is passed later belongs to no earlier version. -/
theorem versionWord_append (tab : Tab) (passed : List HpData) (d : HpData) (k : ℕ) {v : ℕ}
    (hv : v ≤ passed.length) :
    versionWord wild tab (passed ++ [d]) k v = versionWord wild tab passed k v := by
  cases v with
  | zero => rfl
  | succ v =>
      simp only [versionWord]
      rw [List.getElem?_append_left hv]

theorem Versioned.begin {tab : Tab} {base : ℕ} {s : Shared} (hs : Versioned wild tab base s)
    (hidle : s.update = none) (d : HpData) :
    Versioned wild tab base { s with update := some (d, 0), passed := s.passed ++ [d] } := by
  have hversion : ∀ k, version { s with update := some (d, 0), passed := s.passed ++ [d] } k =
      version s k := by
    intro k
    unfold version
    rw [hidle]
    simp
  refine ⟨?_, fun k hk hbase => ?_⟩
  · intro d' i hd
    cases hd
    exact ⟨List.getLast?_concat, Nat.zero_le _⟩
  · rw [hversion] at hbase ⊢
    exact (hs.holds k hk hbase).trans (versionWord_append tab s.passed d k (version_le s k)).symm

/-- A store gives its register the newest version. -/
theorem Versioned.store {tab : Tab} {base : ℕ} {s : Shared} (hs : Versioned wild tab base s)
    {d : HpData} {i : ℕ}
    {value : Word} (hu : s.update = some (d, i)) (hv : (makeRegs wild d)[i]? = some value) :
    Versioned wild tab base
      { s with tab := setTab s.tab i value, update := some (d, i + 1) } := by
  obtain ⟨hlast, -⟩ := hs.current d i hu
  have hi : i < imageSize := by
    obtain ⟨hlt, _⟩ := List.getElem?_eq_some_iff.mp hv
    rwa [makeRegs_length] at hlt
  refine ⟨?_, fun k hk hbase => ?_⟩
  · intro d' i' hd
    cases hd
    exact ⟨hlast, hi⟩
  · show (setTab s.tab i value)[k]? = _
    have hreg : i < nbReg := Nat.lt_of_lt_of_le hi (by decide)
    rw [setTab_getElem?]
    -- register `i` gets the word of the newest snapshot, any other keeps version and word
    by_cases hki : k = i
    · have hpos : s.passed ≠ [] := by
        rintro hnil
        rw [hnil] at hlast
        cases hlast
      obtain ⟨n, hn⟩ := Nat.exists_eq_succ_of_ne_zero (List.length_pos_iff.mpr hpos).ne'
      rw [List.getLast?_eq_getElem?, hn, Nat.succ_sub_one] at hlast
      have hnew : version { s with tab := setTab s.tab i value, update := some (d, i + 1) } k =
          n + 1 := by
        unfold version
        dsimp only
        rw [hki, if_pos (Nat.lt_succ_self i), hn]
      rw [if_pos ⟨hki, hreg⟩, hnew, versionWord, hlast, hki]
      exact hv.symm
    · have hsame : version { s with tab := setTab s.tab i value, update := some (d, i + 1) } k =
          version s k := by
        unfold version
        rw [hu]
        dsimp only
        congr 1
        exact propext ⟨fun h => by omega, fun h => by omega⟩
      rw [hsame] at hbase ⊢
      rw [if_neg fun hc => hki hc.1]
      exact hs.holds k hk hbase

theorem version_done {s : Shared} {d : HpData} {k : ℕ} (hk : k < imageSize)
    (hu : s.update = some (d, imageSize)) (completed : Option HpData) :
    version { s with update := none, completed := completed } k = version s k := by
  unfold version
  rw [hu]
  dsimp only
  rw [if_pos hk]

/-- A client that spares the image changes no register of it. -/
theorem setTabs_image {address : ℕ} {values : List Word}
    (hspares : SparesImage (.write address values)) (hroom : address + values.length ≤ nbReg)
    (tab : Tab) {k : ℕ} (hk : k < imageSize) : (setTabs tab address values)[k]? = tab[k]? := by
  rcases hspares with hpast | hnil | hout
  · exact setTabs_getElem?_of_lt (by omega) tab values
  · rw [hnil]
    rfl
  · omega

theorem versioned_step (tab : Tab) (base : ℕ) (s : Shared) (l : SharedLabel) (s' : Shared)
    (hs : Versioned wild tab base s) (hspares : SparesImage l)
    (h : sharedStep wild s l = some s') : Versioned wild tab base s' := by
  cases sharedSteps_of_step h with
  | setFromHpData d hidle => exact hs.begin hidle d
  | store hu hv => exact hs.store hu hv
  | setDone hu hi =>
      subst hi
      refine ⟨(fun d' i hd => nomatch hd), fun k hk hbase => ?_⟩
      rw [version_done hk hu] at hbase ⊢
      exact hs.holds k hk hbase
  | read address count => exact hs
  | write address values hroom =>
      refine ⟨hs.current, fun k hk hbase => ?_⟩
      exact (setTabs_image hspares hroom s.tab hk).trans (hs.holds k hk hbase)
  | refused address values hroom => exact hs

/-! ## Order -/

/-- The first state is not ahead of the second: in no register, and in no snapshot. -/
structure NotAhead (s t : Shared) : Prop where
  passed : s.passed <+: t.passed
  version : ∀ k < imageSize, version s k ≤ version t k

theorem NotAhead.refl (s : Shared) : NotAhead s s := ⟨List.prefix_rfl, fun _ _ => Nat.le_refl _⟩

theorem NotAhead.trans (s t u : Shared) (h : NotAhead s t) (h' : NotAhead t u) : NotAhead s u :=
  ⟨h.passed.trans h'.passed, fun k hk => (h.version k hk).trans (h'.version k hk)⟩

theorem notAhead_step (s : Shared) (l : SharedLabel) (s' : Shared)
    (h : sharedStep wild s l = some s') : NotAhead s s' := by
  cases sharedSteps_of_step h with
  | setFromHpData d hidle =>
      refine ⟨List.prefix_append _ _, fun k _ => ?_⟩
      unfold version
      rw [hidle]
      simp
  | store hu hv =>
      refine ⟨List.prefix_rfl, fun k _ => ?_⟩
      unfold version
      rw [hu]
      dsimp only
      split_ifs <;> omega
  | setDone hu hi =>
      subst hi
      exact ⟨List.prefix_rfl, fun k hk => (version_done hk hu _).ge⟩
  | read address count => exact NotAhead.refl s
  | write address values hroom => exact ⟨List.prefix_rfl, fun _ _ => Nat.le_refl _⟩
  | refused address values hroom => exact NotAhead.refl s

variable (wild)

theorem versioned_init (tab : Tab) : Versioned wild tab 0 { tab := tab } where
  current := by simp
  holds := fun _ _ _ => rfl

/-- **No read goes back.** In every execution in which clients spare the image, each reply
inside it is, register by register, a version that is the newest snapshot or the one before
it, the newer ones in front; and of two replies the later one is in no register older. -/
theorem reads_never_go_back (tab : Tab) {h : List (Shared × SharedLabel)} {s : Shared}
    (hexec : Exec (sharedStep wild) { tab := tab } h s) (hspares : ∀ p ∈ h, SparesImage p.2) :
    (∀ t address count, (t, SharedLabel.read address count) ∈ h → address + count ≤ imageSize →
      (∀ j < count, (reply t address count)[j]? =
        versionWord wild tab t.passed (address + j) (version t (address + j))) ∧
      (∀ j < count, t.passed.length ≤ version t (address + j) + 1) ∧
      ∀ j j', j ≤ j' → j' < count → version t (address + j') ≤ version t (address + j)) ∧
    ∀ (m n : ℕ) t t' l l', m ≤ n → h[m]? = some (t, l) → h[n]? = some (t', l') →
      t.passed <+: t'.passed ∧ ∀ k < imageSize, version t k ≤ version t' k := by
  have hall := hexec.guarded (versioned_init wild tab) (versioned_step tab 0) hspares
  refine ⟨?_, ?_⟩
  · intro t address count hmem hrange
    have hs := hall t (mem_visited_of_mem hmem)
    refine ⟨fun j hj => ?_, fun j _ => length_le_version t _,
      fun j j' hj _ => version_antitone t (Nat.add_le_add_left hj address)⟩
    unfold reply
    rw [List.getElem?_take_of_lt hj, List.getElem?_drop, Vector.getElem?_toList]
    exact hs.holds _ (by omega) (Nat.zero_le _)
  · intro m n t t' l l' hmn hm hn
    -- no step takes a version away, so the order of the reads is that of the versions
    have hnot := hexec.ordered NotAhead.refl NotAhead.trans (versioned_init wild tab)
      (versioned_step tab 0) (fun s l s' _ _ => notAhead_step s l s') hspares hmn hm hn
    exact ⟨hnot.passed, hnot.version⟩

/-- A client reads the heartbeat between the stores of its two words, in the second
update. -/
theorem reads_never_go_back_torn :
    ∃ t : Shared, t.passed = [{}, { heartbeat := 1 }] ∧
      t.update = some ({ heartbeat := 1 }, 1) ∧
      (∀ j < 2, (reply t 0 2)[j]? =
        versionWord (fun _ => 0#32) mappingNew t.passed (0 + j) (version t (0 + j))) ∧
      (∀ j < 2, t.passed.length ≤ version t (0 + j) + 1) ∧
      ∀ j j', j ≤ j' → j' < 2 → version t (0 + j') ≤ version t (0 + j) := by
  obtain ⟨mid, u, hmid, hexec⟩ := exec_updating (fun _ => 0#32)
    (.start : Exec (sharedStep fun _ => 0#32) { tab := mappingNew } [] _) rfl {}
  obtain ⟨value, hvalue⟩ : ∃ v, (makeRegs (fun _ => 0#32) { heartbeat := 1 })[0]? = some v :=
    ⟨_, List.getElem?_eq_getElem (by rw [makeRegs_length]; decide)⟩
  have hbegin := Exec.next (l := SharedLabel.setFromHpData { heartbeat := 1 }) hexec rfl
  have hread := Exec.next (l := SharedLabel.read 0 2)
    (.next hbegin (sharedStep_store rfl hvalue)) rfl
  have hall := (reads_never_go_back (fun _ => 0#32) mappingNew hread ?_).1 _ 0 2
    (List.mem_append_right _ List.mem_cons_self) (by decide)
  · exact ⟨_, rfl, rfl, hall⟩
  · intro p hp
    simp only [List.mem_append, List.mem_singleton, List.nil_append] at hp
    rcases hp with (((((rfl | hp) | rfl) | rfl) | rfl) | rfl)
    all_goals first | trivial | (rw [hmid p hp]; trivial)

/-! ## Words of clients -/

variable {wild}

/-- At the end of an update every register of the image has the newest version. -/
theorem version_at_setDone {s s' : Shared} (h : sharedStep wild s .setDone = some s') {k : ℕ}
    (hk : k < imageSize) : version s k = s.passed.length := by
  cases sharedSteps_of_step h with
  | setDone hu hi =>
      unfold version
      rw [hu, hi]
      dsimp only
      rw [if_pos hk]

variable (wild)

theorem versionWord_succ (tab : Tab) (k : ℕ) {passed : List HpData} {v base : ℕ}
    (hv : v ≤ passed.length) (hbase : base < v) :
    ∃ n d, base ≤ n ∧ passed[n]? = some d ∧
      versionWord wild tab passed k v = (makeRegs wild d)[k]? := by
  obtain ⟨n, rfl⟩ := Nat.exists_eq_succ_of_ne_zero (Nat.ne_zero_of_lt hbase)
  refine ⟨n, passed[n], Nat.le_of_lt_succ hbase, List.getElem?_eq_getElem hv, ?_⟩
  rw [versionWord, List.getElem?_eq_getElem hv, Option.bind_some]

/-- **The words of clients are undone.** Whatever clients have written to the image before
an update begins: if they spare it from then on, every reply inside it that comes after the
end of an update holds, register by register, the words of snapshots that were passed with
this update or later. -/
theorem client_words_undone (tab : Tab) {h : List (Shared × SharedLabel)} {s : Shared}
    (hexec : Exec (sharedStep wild) { tab := tab } h s) {m j n address count : ℕ}
    {t0 u t : Shared} {d : HpData} (hm : h[m]? = some (t0, .setFromHpData d)) (hmj : m < j)
    (hj : h[j]? = some (u, .setDone)) (hjn : j < n) (hn : h[n]? = some (t, .read address count))
    (hrange : address + count ≤ imageSize)
    (hspares : ∀ (i : ℕ) p, m < i → h[i]? = some p → SparesImage p.2) :
    ∀ i < count, ∃ v d', t0.passed.length ≤ v ∧ t.passed[v]? = some d' ∧
      (reply t address count)[i]? = (makeRegs wild d')[address + i]? := by
  obtain ⟨t1, -, hbegin, hafter⟩ := hexec.at hm
  obtain ⟨u', -, hdone, -⟩ := hexec.at hj
  have hspares' : ∀ p ∈ h.drop (m + 1), SparesImage p.2 := by
    intro p hp
    obtain ⟨i, hi⟩ := List.mem_iff_getElem?.mp hp
    rw [List.getElem?_drop] at hi
    exact hspares _ p (by omega) hi
  -- no register has a version of the new update yet
  have hfresh : Versioned wild tab (t0.passed.length + 1) t1 ∧
      t1.passed.length = t0.passed.length + 1 := by
    cases sharedSteps_of_step hbegin with
    | setFromHpData d hidle =>
        refine ⟨⟨?_, fun k _ hbase => ?_⟩, by simp⟩
        · intro d' i hd
          cases hd
          exact ⟨List.getLast?_concat, Nat.zero_le _⟩
        · unfold version at hbase
          simp at hbase
  obtain ⟨hfresh, hlength⟩ := hfresh
  have hj' : (h.drop (m + 1))[j - (m + 1)]? = some (u, .setDone) := by
    rw [List.getElem?_drop, Nat.add_sub_cancel' hmj, hj]
  have hn' : (h.drop (m + 1))[n - (m + 1)]? = some (t, .read address count) := by
    rw [List.getElem?_drop, Nat.add_sub_cancel' (hmj.trans hjn), hn]
  have ht := hafter.guarded hfresh (versioned_step tab _) hspares' t
    (mem_visited_of_mem (List.mem_of_getElem? hn'))
  -- the end of the update comes before the read, and has the newest version everywhere
  have hu := hafter.forall_visited (J := NotAhead t1) (NotAhead.refl t1)
    (fun s l s' hs hstep => hs.trans _ _ _ (notAhead_step s l s' hstep)) u
    (mem_visited_of_mem (List.mem_of_getElem? hj'))
  have hut := hafter.ordered NotAhead.refl NotAhead.trans hfresh (versioned_step tab _)
    (fun s l s' _ _ => notAhead_step s l s') hspares' (by omega) hj' hn'
  intro i hi
  have hk : address + i < imageSize := by omega
  have hnew : t0.passed.length < version t (address + i) := by
    have hpassed := hu.passed.length_le
    have hlater := hut.version (address + i) hk
    rw [version_at_setDone hdone hk] at hlater
    omega
  obtain ⟨v, d', hv, hd', hword⟩ :=
    versionWord_succ wild tab (address + i) (version_le t _) hnew
  refine ⟨v, d', hv, hd', ?_⟩
  unfold reply
  rw [List.getElem?_take_of_lt hi, List.getElem?_drop, Vector.getElem?_toList, ← hword]
  exact ht.holds _ hk hnew

/-- A client has written to the first register, and reads it after an update. -/
theorem client_words_undone_first :
    ∃ t : Shared, t.passed = [{}] ∧ ∀ i < 1, ∃ v d', 0 ≤ v ∧ t.passed[v]? = some d' ∧
      (reply t 0 1)[i]? = (makeRegs (fun _ => 0#32) d')[0 + i]? := by
  have hwrite : Exec (sharedStep fun _ => 0#32) { tab := mappingNew }
      [({ tab := mappingNew }, .write 0 [7#16])] { tab := setTabs mappingNew 0 [7#16] } :=
    .next .start rfl
  obtain ⟨mid, u, hmid, hexec⟩ := exec_updating (fun _ => 0#32) hwrite rfl {}
  have hread := Exec.next (l := SharedLabel.read 0 1) hexec rfl
  simp only [List.append_assoc, List.singleton_append] at hread
  generalize ht : (⟨setTabs (setTabs mappingNew 0 [7#16]) 0 (makeRegs (fun _ => 0#32) {}), none,
    [] ++ [({} : HpData)], some {}⟩ : Shared) = t at hread
  have hdone : ((({ tab := mappingNew }, SharedLabel.write 0 [7#16]) ::
      ({ tab := setTabs mappingNew 0 [7#16] }, SharedLabel.setFromHpData {}) ::
      (mid ++ [(u, SharedLabel.setDone), (t, SharedLabel.read 0 1)])) :
        List (Shared × SharedLabel))[mid.length + 2]? = some (u, .setDone) := by simp
  have hlast : ((({ tab := mappingNew }, SharedLabel.write 0 [7#16]) ::
      ({ tab := setTabs mappingNew 0 [7#16] }, SharedLabel.setFromHpData {}) ::
      (mid ++ [(u, SharedLabel.setDone), (t, SharedLabel.read 0 1)])) :
        List (Shared × SharedLabel))[mid.length + 3]? = some (t, .read 0 1) := by simp
  refine ⟨t, by rw [← ht]; rfl, client_words_undone (fun _ => 0#32) mappingNew hread (m := 1)
    (j := mid.length + 2) rfl (by omega) hdone (Nat.lt_succ_self _) hlast (by decide) ?_⟩
  intro i p hi hp
  obtain ⟨i, rfl⟩ := Nat.exists_eq_add_of_lt hi
  rw [show 1 + i + 1 = i + 2 by omega] at hp
  have hmem : p ∈ mid ++ [(u, SharedLabel.setDone), (t, SharedLabel.read 0 1)] :=
    List.mem_of_getElem? hp
  simp only [List.mem_append, List.mem_cons, List.not_mem_nil, or_false] at hmem
  rcases hmem with hp | rfl | rfl
  · rw [hmid p hp]
    trivial
  · trivial
  · trivial

/-! ## All words -/

/-- Consecutive words, numbered. -/
def numbered : ℕ → List Word → List (ℕ × Word)
  | _, [] => []
  | i, value :: values => (i, value) :: numbered (i + 1) values

/-- What a step stores in the table, and where. -/
def stores (p : Shared × SharedLabel) : List (ℕ × Word) :=
  match p.2 with
  | .store =>
      match p.1.update with
      | none => []
      | some (d, i) => numbered i ((makeRegs wild d)[i]?.toList)
  | .write address values =>
      if address + values.length ≤ nbReg then numbered address values else []
  | _ => []

/-- The words that clients write. -/
def clientStores (p : Shared × SharedLabel) : List (ℕ × Word) :=
  if p.2.isRequest then stores wild p else []

theorem setTabs_getElem?_lastWrite {i : ℕ} {values : List Word}
    (hroom : i + values.length ≤ nbReg) (tab : Tab) (k : ℕ) :
    (setTabs tab i values)[k]? = (Store.lastWrite (numbered i values) k).or tab[k]? := by
  induction values generalizing tab i with
  | nil => rfl
  | cons value values ih =>
      rw [List.length_cons] at hroom
      rw [setTabs, ih (by omega), numbered, Store.lastWrite_cons, Option.or_assoc,
        setTab_getElem?]
      congr 1
      by_cases hk : k = i
      · rw [if_pos ⟨hk, by omega⟩, if_pos hk.symm]
        rfl
      · rw [if_neg fun hc => hk hc.1, if_neg (Ne.symm hk)]
        rfl

theorem tab_step {s s' : Shared} {l : SharedLabel} (h : sharedStep wild s l = some s') (k : ℕ) :
    s'.tab[k]? = (Store.lastWrite (stores wild (s, l)) k).or s.tab[k]? := by
  cases sharedSteps_of_step h with
  | setFromHpData d hidle => rfl
  | @store d i value hu hv =>
      have hi : i < imageSize := by
        obtain ⟨hlt, _⟩ := List.getElem?_eq_some_iff.mp hv
        rwa [makeRegs_length] at hlt
      have hroom : i + [value].length ≤ nbReg :=
        (Nat.add_le_add_right hi.le 1).trans (by decide)
      simp only [stores, hu, hv, Option.toList_some]
      exact setTabs_getElem?_lastWrite hroom s.tab k
  | setDone hu hi => rfl
  | read address count => rfl
  | write address values hroom =>
      simp only [stores, if_pos hroom]
      exact setTabs_getElem?_lastWrite hroom s.tab k
  | refused address values hroom =>
      simp only [stores, if_neg (Nat.not_le.mpr hroom)]
      rfl

/-- A register holds the last word stored in it. -/
theorem tab_exec {tab : Tab} {h : List (Shared × SharedLabel)} {s : Shared}
    (hexec : Exec (sharedStep wild) { tab := tab } h s) (k : ℕ) :
    s.tab[k]? = (Store.lastWrite (h.flatMap (stores wild)) k).or tab[k]? := by
  induction hexec with
  | start => rfl
  | @next h s l s' _ hs ih =>
      rw [tab_step wild hs, ih, List.flatMap_append, List.flatMap_singleton,
        Store.lastWrite_append, Option.or_assoc]

/-- The updater stores nothing behind the image. -/
theorem lastWrite_clientStores (p : Shared × SharedLabel) {k : ℕ} (hk : imageSize ≤ k) :
    Store.lastWrite (stores wild p) k = Store.lastWrite (clientStores wild p) k := by
  obtain ⟨s, l⟩ := p
  cases l with
  | setFromHpData d => rfl
  | setDone => rfl
  | read address count => rfl
  | write address values => rfl
  | store =>
      show Store.lastWrite (stores wild (s, .store)) k = none
      unfold stores
      cases hu : s.update with
      | none => rfl
      | some p =>
          dsimp only
          cases hv : (makeRegs wild p.1)[p.2]? with
          | none => rfl
          | some value =>
              -- what is stored is a word of the image, in front of `k`
              have hi := (List.getElem?_eq_some_iff.mp hv).1
              rw [makeRegs_length] at hi
              rw [Option.toList_some, numbered, numbered, Store.lastWrite_singleton,
                if_neg (by omega)]

/-- **Every word read is the last one stored.** Whatever the updater and the clients do, in
whatever order, each word of a reply inside the table is the last one that was stored in
its register by either side; behind the image it is the last one a client wrote. -/
theorem replies_last_stored (tab : Tab) {h : List (Shared × SharedLabel)} {s : Shared}
    (hexec : Exec (sharedStep wild) { tab := tab } h s) {n address count : ℕ} {t : Shared}
    (hn : h[n]? = some (t, .read address count)) (j : ℕ) (hj : j < count) :
    (reply t address count)[j]? =
        (Store.lastWrite ((h.take n).flatMap (stores wild)) (address + j)).or tab[address + j]? ∧
      (imageSize ≤ address + j → (reply t address count)[j]? =
        (Store.lastWrite ((h.take n).flatMap (clientStores wild)) (address + j)).or
          tab[address + j]?) := by
  obtain ⟨t', hbefore, -, -⟩ := hexec.at hn
  have hword : (reply t address count)[j]? = t.tab[address + j]? := by
    unfold reply
    rw [List.getElem?_take_of_lt hj, List.getElem?_drop, Vector.getElem?_toList]
  rw [hword, tab_exec wild hbefore]
  refine ⟨rfl, fun hk => ?_⟩
  rw [Store.lastWrite_flatMap_congr fun p _ => lastWrite_clientStores wild p hk]

/-- A client reads back what it wrote behind the image. -/
theorem replies_last_stored_client :
    (reply { tab := setTabs mappingNew 60 [7#16] } 60 1)[0]? =
        (Store.lastWrite (([({ tab := mappingNew }, SharedLabel.write 60 [7#16])] :
          List (Shared × SharedLabel)).flatMap (stores fun _ => 0#32)) (60 + 0)).or
            mappingNew[60 + 0]? ∧
      (imageSize ≤ 60 + 0 → (reply { tab := setTabs mappingNew 60 [7#16] } 60 1)[0]? =
        (Store.lastWrite (([({ tab := mappingNew }, SharedLabel.write 60 [7#16])] :
          List (Shared × SharedLabel)).flatMap (clientStores fun _ => 0#32)) (60 + 0)).or
            mappingNew[60 + 0]?) :=
  replies_last_stored (fun _ => 0#32) mappingNew (n := 1)
    (.next (.next .start rfl) (rfl : sharedStep (fun _ => 0#32) _ (.read 60 1) = some _)) rfl 0
    Nat.one_pos

end Wild

end Hanport.HpModbuss
