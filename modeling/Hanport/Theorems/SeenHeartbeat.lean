import Hanport.Theorems.Interleaving
import Hanport.Theorems.MeterRoundTrip

/-!
# The heartbeat that a client sees

The heartbeat takes two registers, and a client can read them between the two stores. With
`main` as the updater it then sees the low half of the newest count behind the high half of
the one before: too low, by a multiple of `2^16`, when the high half has changed. Its read
is one step, as in `Interleaving`.
-/

namespace Hanport.HpModbuss

open Lib Lib.Lts

/-! ## The two registers -/

theorem toNat_decodeInt (low high : Word) :
    (decodeInt low high).toNat = high.toNat * 2 ^ 16 + low.toNat := by
  unfold decodeInt
  rw [BitVec.toNat_append, ← Nat.shiftLeft_add_eq_or_of_lt low.isLt, Nat.shiftLeft_eq]

/-- The words of the heartbeat in an image. -/
theorem heartbeat_words (wild : Binary32 → BitVec 32) (d : HpData) :
    ∃ low high, (makeRegs wild d)[0]? = some low ∧ (makeRegs wild d)[1]? = some high ∧
      low.toNat = d.heartbeat.toNat % 2 ^ 16 ∧ high.toNat = d.heartbeat.toNat / 2 ^ 16 := by
  obtain ⟨rest, hrest⟩ := makeRegs_eq_heartbeat wild d
  obtain ⟨low, high, hregs, hdecode⟩ := intToRegs_eq d.heartbeat
  have hsum := toNat_decodeInt low high
  have hlow := low.isLt
  rw [hdecode] at hsum
  rw [hrest, hregs]
  exact ⟨low, high, rfl, rfl, by omega, by omega⟩

/-- One of the two words has been stored. -/
def Halfway (s : Shared) : Prop := ∃ d, s.update = some (d, 1)

section Wild

variable {wild : Binary32 → BitVec 32}

/-- What a client reads as the heartbeat, from the second update on. -/
theorem reply_heartbeat {tab : Tab} {t : Shared} (hs : Versioned wild tab 0 t)
    {older : List HpData} {p n : HpData} (hpassed : t.passed = older ++ [p, n]) :
    ∃ low high, reply t 0 2 = [low, high] ∧
      (¬ Halfway t → decodeInt low high = p.heartbeat ∨ decodeInt low high = n.heartbeat) ∧
      (Halfway t → (decodeInt low high).toNat =
        p.heartbeat.toNat / 2 ^ 16 * 2 ^ 16 + n.heartbeat.toNat % 2 ^ 16) := by
  obtain ⟨plow, phigh, hplow, hphigh, hplow', hphigh'⟩ := heartbeat_words wild p
  obtain ⟨nlow, nhigh, hnlow, hnhigh, hnlow', hnhigh'⟩ := heartbeat_words wild n
  have hlength : t.passed.length = older.length + 2 := by
    rw [hpassed, List.length_append]
    rfl
  -- the words of the newest version, and of the one before
  have hnew : ∀ k, versionWord wild tab t.passed k (older.length + 2) = (makeRegs wild n)[k]? := by
    intro k
    rw [versionWord, hpassed]
    simp
  have hold : ∀ k, versionWord wild tab t.passed k (older.length + 1) = (makeRegs wild p)[k]? := by
    intro k
    rw [versionWord, hpassed]
    simp
  have hword : ∀ k < 2, ∀ v, version t k = v → t.tab[k]? = versionWord wild tab t.passed k v := by
    rintro k hk v rfl
    exact hs.holds k (Nat.lt_of_lt_of_le hk (by decide)) (Nat.zero_le _)
  have hreply : ∀ low high, t.tab[0]? = some low → t.tab[1]? = some high →
      reply t 0 2 = [low, high] := by
    intro low high hlow hhigh
    apply List.ext_getElem?
    intro k
    unfold reply
    rw [List.drop_zero, List.getElem?_take]
    by_cases h0 : k = 0
    · subst h0
      exact (Vector.getElem?_toList).trans hlow
    · by_cases h1 : k = 1
      · subst h1
        exact (Vector.getElem?_toList).trans hhigh
      · rw [if_neg (by omega)]
        exact (List.getElem?_eq_none_iff.mpr (by simp; omega)).symm
  have hjoin : ∀ {d : HpData} {low high : Word},
      low.toNat = d.heartbeat.toNat % 2 ^ 16 → high.toNat = d.heartbeat.toNat / 2 ^ 16 →
        decodeInt low high = d.heartbeat := by
    intro d low high hlow hhigh
    apply BitVec.eq_of_toNat_eq
    rw [toNat_decodeInt, hlow, hhigh]
    omega
  by_cases hhalf : Halfway t
  · obtain ⟨d, hd⟩ := hhalf
    have hv0 : version t 0 = older.length + 2 := by simp [version, hd, hlength]
    have hv1 : version t 1 = older.length + 1 := by simp [version, hd, hlength]
    refine ⟨nlow, phigh, hreply nlow phigh ?_ ?_, fun h => absurd ⟨d, hd⟩ h, fun _ => ?_⟩
    · rw [hword 0 (by decide) _ hv0, hnew, hnlow]
    · rw [hword 1 (by decide) _ hv1, hold, hphigh]
    · rw [toNat_decodeInt, hphigh', hnlow']
  · -- both registers are of one version
    have hsame : (version t 0 = older.length + 2 ∧ version t 1 = older.length + 2) ∨
        (version t 0 = older.length + 1 ∧ version t 1 = older.length + 1) := by
      unfold version
      cases hu : t.update with
      | none => exact .inl ⟨hlength, hlength⟩
      | some q =>
          obtain ⟨d, i⟩ := q
          have hi : i ≠ 1 := fun h => hhalf ⟨d, h ▸ hu⟩
          dsimp only
          split_ifs <;> omega
    rcases hsame with ⟨hv0, hv1⟩ | ⟨hv0, hv1⟩
    · refine ⟨nlow, nhigh, hreply nlow nhigh ?_ ?_, fun _ => .inr (hjoin hnlow' hnhigh'),
        fun h => absurd h hhalf⟩
      · rw [hword 0 (by decide) _ hv0, hnew, hnlow]
      · rw [hword 1 (by decide) _ hv1, hnew, hnhigh]
    · refine ⟨plow, phigh, hreply plow phigh ?_ ?_, fun _ => .inl (hjoin hplow' hphigh'),
        fun h => absurd h hhalf⟩
      · rw [hword 0 (by decide) _ hv0, hold, hplow]
      · rw [hword 1 (by decide) _ hv1, hold, hphigh]

/-! ## The snapshots that are passed -/

/-- The snapshots of the updates that begin in an execution. -/
def updates (h : List (Shared × SharedLabel)) : List HpData :=
  h.filterMap fun p =>
    match p.2 with
    | .setFromHpData d => some d
    | _ => none

theorem passed_eq_updates {tab : Tab} {h : List (Shared × SharedLabel)} {s : Shared}
    (hexec : Exec (sharedStep wild) { tab := tab } h s) : s.passed = updates h := by
  induction hexec with
  | start => rfl
  | @next h s l s' _ hs ih =>
      unfold updates at ih ⊢
      rw [List.filterMap_append, ← ih]
      cases sharedSteps_of_step hs with
      | setFromHpData d hidle => rfl
      | store hu hv => exact (List.append_nil _).symm
      | setDone hu hi => exact (List.append_nil _).symm
      | read address count => exact (List.append_nil _).symm
      | write address values hroom => exact (List.append_nil _).symm
      | refused address values hroom => exact (List.append_nil _).symm

end Wild

end Hanport.HpModbuss

namespace Hanport.Main

open Lib Lib.Ascii Lib.Lts HpModbuss HpSerialRead

/-- The objects handed to the Modbus server. -/
def served (events : List Event) : List HpData :=
  (events.filterMap handed).filterMap fun p => if p.1 = .modbus then some p.2 else none

/-- The heartbeats of the objects of a run are the numbers of their cycles. -/
theorem served_run (env : Env) (s : State) (k : ℕ) (hs : s.heartbeat = BitVec.ofNat 32 k)
    (cycles : List Cycle) :
    ∃ counts : List ℕ,
      (served (run env s cycles).2).map HpData.heartbeat = counts.map (BitVec.ofNat 32) ∧
      counts.Pairwise (· < ·) ∧ ∀ c ∈ counts, k < c ∧ c ≤ k + cycles.length := by
  unfold run
  induction cycles generalizing s k with
  | nil => exact ⟨[], rfl, .nil, List.forall_mem_nil _⟩
  | cons c cycles ih =>
      rw [Reactive.run, List.length_cons]
      unfold served
      rw [List.filterMap_append, List.filterMap_append]
      have hcount : s.heartbeat + 1 = BitVec.ofNat 32 (k + 1) := heartbeat_succ hs
      -- a rejected message takes its number, and nothing carries it
      rcases iteration_cases env s c with ⟨-, later, hit, hnone⟩ | ⟨-, later, hit, hhanded⟩
      · obtain ⟨counts, hmap, hsorted, hbound⟩ := ih (tick s c.message) (k + 1) hcount
        rw [hit, hnone]
        refine ⟨counts, hmap, hsorted, fun c hc => ?_⟩
        obtain ⟨hlt, hle⟩ := hbound c hc
        omega
      · obtain ⟨counts, hmap, hsorted, hbound⟩ :=
          ih (exposed env s (received env s c.message)) (k + 1) hcount
        rw [hit, hhanded]
        refine ⟨(k + 1) :: counts, ?_, ?_, ?_⟩
        · have hheartbeat : (received env s c.message).heartbeat = BitVec.ofNat 32 (k + 1) :=
            (heartbeat_received env s c.message).trans hcount
          unfold served at hmap
          rw [List.map_append, hmap, List.map_cons, ← hheartbeat]
          rfl
        · exact hsorted.cons fun c hc => (hbound c hc).1
        · refine List.forall_mem_cons.mpr ⟨by omega, fun c hc => ?_⟩
          obtain ⟨hlt, hle⟩ := hbound c hc
          omega

/-- While the count does not wrap, each object carries a higher one than those before. -/
theorem served_program (env : Env) (port : BitVec 32) (startEnv : StartEnv)
    (attempts : ℕ → ℕ → HpMqttPub.Attempt) (reads : List ReadResult)
    (hsize : (frames reads).length < 2 ^ 32) :
    (served (program env port startEnv attempts reads).2).Pairwise
      fun d d' => d.heartbeat.toNat < d'.heartbeat.toNat := by
  obtain ⟨counts, hmap, hsorted, hbound⟩ := served_run env (boot env port startEnv).1 0 rfl
    (cyclesFrom attempts 0 (frames reads))
  rw [length_cyclesFrom] at hbound
  have hserved : (served (program env port startEnv attempts reads).2).map HpData.heartbeat =
      (0 :: counts).map (BitVec.ofNat 32) := by
    rw [program_eq]
    unfold served at hmap ⊢
    rw [List.filterMap_append, List.filterMap_append, handed_boot, List.map_append, hmap]
    rfl
  have hincreasing : ((0 :: counts).map (BitVec.ofNat 32)).Pairwise
      fun b b' => b.toNat < b'.toNat := by
    rw [List.pairwise_map]
    refine (hsorted.cons fun c hc => (hbound c hc).1).imp_of_mem ?_
    intro c c' hc hc' hlt
    have hsmall : ∀ c ∈ 0 :: counts, c < 2 ^ 32 :=
      List.forall_mem_cons.mpr ⟨by decide, fun c hc => by have := (hbound c hc).2; omega⟩
    rw [BitVec.toNat_ofNat, BitVec.toNat_ofNat, Nat.mod_eq_of_lt (hsmall c hc),
      Nat.mod_eq_of_lt (hsmall c' hc')]
    exact hlt
  rw [← hserved, List.pairwise_map] at hincreasing
  exact hincreasing

/-- **The heartbeat that a client sees.** With `main` as the updater, over any reads of the
serial port with fewer than `2^31` frames, and clients that spare the image, in whatever
order their steps are taken, a request in one step: from the second update on, a client
that reads the two registers of the heartbeat sees no more than the newest count. It sees
this count or the one before iff it does not read between the stores of the two words, or
the two counts agree in one of their halves. -/
theorem heartbeat_seen (env : Env) (port : BitVec 32) (startEnv : StartEnv)
    (attempts : ℕ → ℕ → HpMqttPub.Attempt) (reads : List ReadResult)
    (hsize : (frames reads).length < 2 ^ 31) (tab : Tab) {h : List (Shared × SharedLabel)}
    {s : Shared} (hexec : Exec (sharedStep env.wild) { tab := tab } h s)
    (hmain : updates h <+: served (program env port startEnv attempts reads).2)
    (hspares : ∀ p ∈ h, SparesImage p.2) {t : Shared} (hread : (t, SharedLabel.read 0 2) ∈ h)
    (htwo : 2 ≤ t.passed.length) :
    ∃ low high p n, reply t 0 2 = [low, high] ∧ [p, n] <:+ t.passed ∧
      (decodeInt low high).toNat ≤ n.heartbeat.toNat ∧
      ((decodeInt low high = p.heartbeat ∨ decodeInt low high = n.heartbeat) ↔
        (Halfway t → p.heartbeat.toNat / 2 ^ 16 = n.heartbeat.toNat / 2 ^ 16 ∨
          p.heartbeat.toNat % 2 ^ 16 = n.heartbeat.toNat % 2 ^ 16)) := by
  have hs := hexec.guarded (versioned_init env.wild tab) (versioned_step tab 0) hspares t
    (mem_visited_of_mem hread)
  -- the last two snapshots, of which the registers hold words
  obtain ⟨older, p, n, hpassed⟩ : ∃ older p n, t.passed = older ++ [p, n] := by
    rcases List.eq_nil_or_concat t.passed with hnil | ⟨front, n, hn⟩
    · simp [hnil] at htwo
    · rcases List.eq_nil_or_concat front with hnil | ⟨older, p, hp⟩
      · simp [hn, hnil] at htwo
      · exact ⟨older, p, n, by simp [hn, hp]⟩
  -- what has been passed at the read, `main` has handed over, in this order
  have hprefix : t.passed <+: served (program env port startEnv attempts reads).2 := by
    obtain ⟨m, hm⟩ := List.mem_iff_getElem?.mp hread
    obtain ⟨t', hbefore, -, -⟩ := hexec.at hm
    rw [passed_eq_updates hbefore]
    exact ((List.take_prefix m h).filterMap _).trans hmain
  have hup : p.heartbeat.toNat < n.heartbeat.toNat := by
    have hsorted := (served_program env port startEnv attempts reads
      (hsize.trans (by norm_num))).sublist hprefix.sublist
    rw [hpassed, List.pairwise_append] at hsorted
    exact List.rel_of_pairwise_cons hsorted.2.1 List.mem_cons_self
  obtain ⟨low, high, hreply, hwhole, htorn⟩ := reply_heartbeat hs hpassed
  refine ⟨low, high, p, n, hreply, hpassed ▸ List.suffix_append older [p, n], ?_, ?_⟩
  · by_cases hhalf : Halfway t
    · rw [htorn hhalf]
      omega
    · rcases hwhole hhalf with heq | heq <;> rw [heq]
      omega
  · by_cases hhalf : Halfway t
    · have hvalue := htorn hhalf
      rw [BitVec.toNat_inj.symm, BitVec.toNat_inj.symm, hvalue]
      constructor
      · intro h _
        omega
      · intro h
        have := h hhalf
        omega
    · exact iff_of_true (hwhole hhalf) fun h => absurd h hhalf

/-- A telegram has arrived behind the initial values, and the first word of its count is
stored when the client reads. -/
theorem heartbeat_seen_halfway :
    ∃ t : Shared, Halfway t ∧ ∃ low high p n, reply t 0 2 = [low, high] ∧ [p, n] <:+ t.passed ∧
      (decodeInt low high).toNat ≤ n.heartbeat.toNat ∧
      ((decodeInt low high = p.heartbeat ∨ decodeInt low high = n.heartbeat) ↔
        (Halfway t → p.heartbeat.toNat / 2 ^ 16 = n.heartbeat.toNat / 2 ^ 16 ∨
          p.heartbeat.toNat % 2 ^ 16 = n.heartbeat.toNat % 2 ^ 16)) := by
  obtain ⟨d, hhanded, -, -⟩ := handed_readings bgsLokal 502 ⟨true, true, 3, none⟩
    (fun _ _ => .delivered) (List.forall_mem_singleton.mpr sendable_fiveKilowattHours) []
    (delivered_oneByteReads (telegram [fiveKilowattHours]))
  obtain ⟨low, -, hlow, -⟩ := heartbeat_words bgsLokal.wild d
  -- the initial values are stored, then the update of the telegram begins
  have hstart : Exec (sharedStep bgsLokal.wild) { tab := mappingNew } [] { tab := mappingNew } :=
    .start
  obtain ⟨mid, u, hmid, hexec⟩ := exec_updating bgsLokal.wild hstart rfl {}
  have hbegin := Exec.next (l := SharedLabel.setFromHpData d) hexec rfl
  have hstore := Exec.next hbegin (sharedStep_store rfl hlow)
  have hread := Exec.next (l := SharedLabel.read 0 2) hstore rfl
  have hnoUpdate : updates mid = [] := by
    unfold updates
    rw [List.filterMap_eq_nil_iff]
    intro p hp
    rw [hmid p hp]
  refine ⟨_, ⟨d, rfl⟩, heartbeat_seen bgsLokal 502 ⟨true, true, 3, none⟩ (fun _ _ => .delivered)
    ([] ++ oneByteReads (telegram [fiveKilowattHours])) ?_ mappingNew hread ?_ ?_
    (List.mem_append_right _ List.mem_cons_self) (by simp)⟩
  · have hframe : IsFrame (delivered (oneByteReads (telegram [fiveKilowattHours]))) := by
      rw [delivered_oneByteReads]
      exact isFrame_readings bgsLokal (List.forall_mem_singleton.mpr sendable_fiveKilowattHours)
    rw [List.nil_append, frames_alone hframe]
    decide
  · have hserved : served (program bgsLokal 502 ⟨true, true, 3, none⟩ (fun _ _ => .delivered)
        ([] ++ oneByteReads (telegram [fiveKilowattHours]))).2 = [{}, d] := by
      unfold served
      rw [hhanded]
      rfl
    unfold updates at hnoUpdate
    rw [hserved]
    unfold updates
    simp only [List.filterMap_append, hnoUpdate]
    exact List.prefix_rfl
  · intro p hp
    simp only [List.mem_append, List.mem_singleton, List.not_mem_nil, false_or] at hp
    rcases hp with ((((rfl | hp) | rfl) | rfl) | rfl) | rfl
    · trivial
    · rw [hmid p hp]
      trivial
    · trivial
    · trivial
    · trivial
    · trivial

end Hanport.Main
