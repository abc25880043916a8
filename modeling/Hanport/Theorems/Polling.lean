import Hanport.Model.ServerLoop

/-!
# Which descriptors the server loop polls and handles

The scan of a pass runs up to `fdmax`, which the pass itself moves: an accepted
descriptor may raise it, and closing the highest client lowers it by one. What
`fdmax` bounds from above is all the monitored descriptors, never only those that
are left to scan, so the scan meets every descriptor that `select` reported. Nothing
keeps an accepted descriptor below `FD_SETSIZE`, from which on it cannot be monitored.
-/

namespace Hanport.ServerLoop

open Lib.Lts

/-- The clients that were accepted and not yet closed. -/
def openClients (record : List (ℕ × Handling)) : Finset ℕ :=
  record.foldl
    (fun clients p =>
      match p.2 with
      | .accepted newfd => insert newfd clients
      | .closed => clients.erase p.1
      | .acceptFailed => clients
      | .replied => clients
      | .ignored => clients)
    ∅

theorem openClients_concat (record : List (ℕ × Handling)) (fd : ℕ) (done : Handling) :
    openClients (record ++ [(fd, done)]) =
      match done with
      | .accepted newfd => insert newfd (openClients record)
      | .closed => (openClients record).erase fd
      | .acceptFailed => openClients record
      | .replied => openClients record
      | .ignored => openClients record := by
  unfold openClients
  rw [List.foldl_concat]

/-- What `accept` or `modbus_receive` has returned decides what is done with a descriptor
that is ready. -/
def outcome (serverSocket : ℕ) (calls : Calls) (fd : ℕ) : Handling :=
  if fd = serverSocket then
    match calls.accept with
    | none => .acceptFailed
    | some newfd => .accepted newfd
  else if calls.receive fd > 0 then .replied
  else if calls.receive fd = -1 then .closed
  else .ignored

/-- The server socket and the open clients are monitored, all of them up to
`fdmax`. -/
structure Polls (t : Thread) : Prop where
  monitored : t.refset.fds = insert t.serverSocket (openClients t.record)
  bounded : ∀ fd ∈ t.refset.fds, (fd : ℤ) ≤ t.fdmax
  defined : t.overrun = false

/-! ## The sets -/

theorem fdSet_of_lt {fd : ℕ} (h : fd < fdSetSize) (s : FdSet) :
    ∃ s', fdSet fd s = some s' ∧ s'.fds = insert fd s.fds := by
  unfold fdSet
  rw [dif_pos h]
  exact ⟨_, rfl, rfl⟩

theorem boot_of_lt {serverSocket : ℕ} (h : serverSocket < fdSetSize) :
    ∃ refset, boot serverSocket =
        { serverSocket := serverSocket, refset := refset, fdmax := serverSocket } ∧
      refset.fds = {serverSocket} := by
  obtain ⟨refset, hset, hfds⟩ := fdSet_of_lt h fdZero
  unfold boot
  rw [hset]
  exact ⟨refset, rfl, hfds⟩

theorem serverSocket_boot (serverSocket : ℕ) : (boot serverSocket).serverSocket = serverSocket := by
  unfold boot
  cases fdSet serverSocket fdZero <;> rfl

theorem record_boot (serverSocket : ℕ) : (boot serverSocket).record = [] := by
  unfold boot
  cases fdSet serverSocket fdZero <;> rfl

theorem polls_boot {serverSocket : ℕ} (h : serverSocket < fdSetSize) :
    Polls (boot serverSocket) := by
  obtain ⟨refset, hboot, hfds⟩ := boot_of_lt h
  rw [hboot]
  refine ⟨hfds, fun fd hfd => ?_, rfl⟩
  have hfd' : fd ∈ refset.fds := hfd
  rw [hfds, Finset.mem_singleton] at hfd'
  rw [hfd']

/-! ## One descriptor -/

/-- The bound moves no higher than the accepted descriptor. -/
theorem fdmax_handle_le (calls : Calls) (t : Thread) (fd : ℕ) :
    (handle calls t fd).fdmax ≤ max t.fdmax (calls.accept.getD 0) := by
  unfold handle
  by_cases hserver : fd = t.serverSocket
  · rw [if_pos hserver]
    cases calls.accept with
    | none => exact le_max_left _ _
    | some newfd =>
        dsimp only [Option.getD_some]
        cases fdSet newfd t.refset with
        | none => exact le_max_left _ _
        | some refset =>
            dsimp only
            split_ifs <;> omega
  · rw [if_neg hserver]
    split_ifs <;> dsimp only <;> omega

/-- Every handling is recorded, with what the call has returned. -/
theorem record_handle (calls : Calls) (t : Thread) (fd : ℕ) :
    (handle calls t fd).record = t.record ++ [(fd, outcome t.serverSocket calls fd)] := by
  unfold handle outcome
  by_cases hserver : fd = t.serverSocket
  · rw [if_pos hserver, if_pos hserver]
    cases calls.accept with
    | none => rfl
    | some newfd =>
        dsimp only
        cases fdSet newfd t.refset <;> rfl
  · rw [if_neg hserver, if_neg hserver]
    split_ifs <;> rfl

/-- What handling a descriptor leaves: the other descriptors are still monitored. -/
structure Handles (t : Thread) (fd : ℕ) (t' : Thread) : Prop where
  polls : Polls t'
  server : t'.serverSocket = t.serverSocket
  others : ∀ other ∈ t.refset.fds, other ≠ fd → other ∈ t'.refset.fds

/-- A descriptor that stays as it is. -/
theorem handles_recorded {t : Thread} (h : Polls t) (fd : ℕ) {done : Handling}
    (hsame : openClients (t.record ++ [(fd, done)]) = openClients t.record) :
    Handles t fd { t with record := t.record ++ [(fd, done)] } where
  polls := ⟨h.monitored.trans (by rw [hsame]), h.bounded, h.defined⟩
  server := rfl
  others := fun _ hother _ => hother

/-- An accepted client is monitored, and the bound is raised to it. -/
theorem handles_accepted {t : Thread} (h : Polls t) (fd newfd : ℕ) {refset : FdSet}
    (hset : refset.fds = insert newfd t.refset.fds) :
    Handles t fd
      { t with
        refset := refset
        fdmax := if (newfd : ℤ) > t.fdmax then newfd else t.fdmax
        record := t.record ++ [(fd, .accepted newfd)] } where
  polls := {
    monitored := by
      show refset.fds = insert t.serverSocket (openClients (t.record ++ _))
      rw [hset, openClients_concat, h.monitored, Finset.insert_comm]
    bounded := by
      intro other hother
      show (other : ℤ) ≤ if (newfd : ℤ) > t.fdmax then (newfd : ℤ) else t.fdmax
      have hmem : other ∈ refset.fds := hother
      rw [hset] at hmem
      rcases Finset.mem_insert.mp hmem with rfl | hmem
      · split_ifs <;> omega
      · have := h.bounded other hmem
        split_ifs <;> omega
    defined := h.defined }
  server := rfl
  others := fun other hother _ => by
    show other ∈ refset.fds
    rw [hset]
    exact Finset.mem_insert_of_mem hother

/-- A closed client is no longer monitored. If it was the highest, the others are below
it, so one less still bounds them. -/
theorem handles_closed {t : Thread} (h : Polls t) {fd : ℕ}
    (hserver : fd ≠ t.serverSocket) :
    Handles t fd
      { t with
        refset := fdClr fd t.refset
        fdmax := if (fd : ℤ) = t.fdmax then t.fdmax - 1 else t.fdmax
        record := t.record ++ [(fd, .closed)] } where
  polls := {
    monitored := by
      show t.refset.fds.erase fd = insert t.serverSocket (openClients (t.record ++ _))
      rw [openClients_concat, h.monitored, Finset.erase_insert_of_ne (Ne.symm hserver)]
    bounded := by
      intro other hother
      show (other : ℤ) ≤ if (fd : ℤ) = t.fdmax then t.fdmax - 1 else t.fdmax
      obtain ⟨hne, hmem⟩ := Finset.mem_erase.mp hother
      have := h.bounded other hmem
      split_ifs <;> omega
    defined := h.defined }
  server := rfl
  others := fun _ hother hne => Finset.mem_erase.mpr ⟨hne, hother⟩

theorem handle_spec (calls : Calls) {t : Thread} (h : Polls t) (fd : ℕ)
    (hfits : fd = t.serverSocket → ∀ newfd, calls.accept = some newfd → newfd < fdSetSize) :
    Handles t fd (handle calls t fd) := by
  unfold handle
  by_cases hserver : fd = t.serverSocket
  · rw [if_pos hserver]
    cases haccept : calls.accept with
    | none => exact handles_recorded h fd (openClients_concat _ _ _)
    | some newfd =>
        obtain ⟨refset, hset, hfds⟩ := fdSet_of_lt (hfits hserver newfd haccept) t.refset
        dsimp only
        rw [hset]
        exact handles_accepted h fd newfd hfds
  · rw [if_neg hserver]
    by_cases hreply : calls.receive fd > 0
    · rw [if_pos hreply]
      exact handles_recorded h fd (openClients_concat _ _ _)
    · rw [if_neg hreply]
      by_cases hclosed : calls.receive fd = -1
      · rw [if_pos hclosed]
        exact handles_closed h hserver
      · rw [if_neg hclosed]
        exact handles_recorded h fd (openClients_concat _ _ _)

/-! ## The scan -/

/-- What a scan adds to the record: the reported descriptors from `fd` on, each once and
in their order, with what the calls returned for them. -/
structure Records (serverSocket : ℕ) (calls : Calls) (rdset : Finset ℕ) (fd : ℕ)
    (done : List (ℕ × Handling)) : Prop where
  sorted : (done.map Prod.fst).Pairwise (· < ·)
  handled : ∀ other, other ∈ done.map Prod.fst ↔ other ∈ rdset ∧ fd ≤ other
  outcomes : ∀ q ∈ done, q.2 = outcome serverSocket calls q.1

/-- What the scan from `fd` on leaves. -/
structure Scans (calls : Calls) (rdset : Finset ℕ) (t : Thread) (fd : ℕ) (t' : Thread) :
    Prop where
  polls : Polls t'
  server : t'.serverSocket = t.serverSocket
  recorded : ∃ done, t'.record = t.record ++ done ∧ Records t.serverSocket calls rdset fd done

/-- Where the bound is passed, no reported descriptor is left. -/
theorem scans_end {calls : Calls} {rdset : Finset ℕ} {t : Thread} {fd : ℕ} (h : Polls t)
    (hleft : ∀ other ∈ rdset, fd ≤ other → other ∈ t.refset.fds) (hend : t.fdmax < fd) :
    Scans calls rdset t fd t where
  polls := h
  server := rfl
  recorded := by
    refine ⟨[], by simp, by simp, fun other => ?_, by simp⟩
    have hnone : ¬ (other ∈ rdset ∧ fd ≤ other) := by
      rintro ⟨hmem, hle⟩
      have := h.bounded other (hleft other hmem hle)
      omega
    simp [hnone]

/-- A descriptor that is ready and handled comes before those of the rest of the scan. -/
theorem Handles.scans {calls : Calls} {rdset : Finset ℕ} {t t' : Thread} {fd : ℕ}
    (hh : Handles t fd (handle calls t fd)) (hready : fd ∈ rdset)
    (hs : Scans calls rdset (handle calls t fd) (fd + 1) t') : Scans calls rdset t fd t' where
  polls := hs.polls
  server := hs.server.trans hh.server
  recorded := by
    obtain ⟨done, hdone, hrecords⟩ := hs.recorded
    rw [hh.server] at hrecords
    refine ⟨(fd, outcome t.serverSocket calls fd) :: done, ?_, ?_, fun other => ?_, ?_⟩
    · rw [hdone, record_handle, List.append_assoc]
      rfl
    · rw [List.map_cons, List.pairwise_cons]
      exact ⟨fun other hother => ((hrecords.handled other).mp hother).2, hrecords.sorted⟩
    · rw [List.map_cons, List.mem_cons, hrecords.handled]
      constructor
      · rintro (rfl | ⟨hin, hle⟩)
        · exact ⟨hready, le_refl _⟩
        · exact ⟨hin, by omega⟩
      · rintro ⟨hin, hle⟩
        rcases Nat.eq_or_lt_of_le hle with heq | hlt
        · exact .inl heq.symm
        · exact .inr ⟨hin, hlt⟩
    · exact List.forall_mem_cons.mpr ⟨rfl, hrecords.outcomes⟩

/-- A descriptor that is not ready is passed over. -/
theorem Scans.pass_over {calls : Calls} {rdset : Finset ℕ} {t t' : Thread} {fd : ℕ}
    (hs : Scans calls rdset t (fd + 1) t') (hready : fd ∉ rdset) : Scans calls rdset t fd t' where
  polls := hs.polls
  server := hs.server
  recorded := by
    obtain ⟨done, hdone, hrecords⟩ := hs.recorded
    refine ⟨done, hdone, hrecords.sorted, fun other => ?_, hrecords.outcomes⟩
    rw [hrecords.handled]
    constructor
    · exact fun hin => ⟨hin.1, by omega⟩
    · rintro ⟨hin, hle⟩
      refine ⟨hin, ?_⟩
      rcases Nat.eq_or_lt_of_le hle with rfl | hlt
      · exact absurd hin hready
      · exact hlt

/-- **The scan.** With the fuel above the bound and the accepted descriptor, every
reported descriptor ahead still monitored, and room for what is accepted, the scan handles
all of them. -/
theorem scan_spec (calls : Calls) (rdset : Finset ℕ) (fuel fd : ℕ) {t : Thread} (h : Polls t)
    (hleft : ∀ other ∈ rdset, fd ≤ other → other ∈ t.refset.fds)
    (hfits : t.serverSocket ∈ rdset → ∀ newfd, calls.accept = some newfd → newfd < fdSetSize)
    (hfuel : max t.fdmax (calls.accept.getD 0) < fd + fuel) :
    Scans calls rdset t fd (scan calls rdset fuel fd t) := by
  induction fuel generalizing fd t with
  | zero => exact scans_end h hleft (by omega)
  | succ fuel ih =>
      rw [scan, h.defined, if_neg Bool.false_ne_true]
      by_cases hbound : (fd : ℤ) ≤ t.fdmax
      · rw [if_pos hbound]
        by_cases hready : fd ∈ rdset
        · rw [if_pos hready]
          have hh := handle_spec calls h fd fun heq => hfits (heq ▸ hready)
          -- the descriptors ahead are others than this one, so they are still monitored
          have hahead : ∀ other ∈ rdset, fd + 1 ≤ other →
              other ∈ (handle calls t fd).refset.fds :=
            fun other hmem hle => hh.others other (hleft other hmem (by omega)) (by omega)
          have hmore : max (handle calls t fd).fdmax (calls.accept.getD 0) <
              (fd + 1 : ℕ) + (fuel : ℕ) := by
            have := fdmax_handle_le calls t fd
            push_cast at hfuel ⊢
            omega
          have hfits' := hfits
          rw [← hh.server] at hfits'
          exact hh.scans hready (ih (fd + 1) hh.polls hahead hfits' hmore)
        · rw [if_neg hready]
          have hahead : ∀ other ∈ rdset, fd + 1 ≤ other → other ∈ t.refset.fds :=
            fun other hmem hle => hleft other hmem (by omega)
          exact (ih (fd + 1) h hahead hfits (by push_cast at hfuel ⊢; omega)).pass_over hready
      · rw [if_neg hbound]
        exact scans_end h hleft (by omega)

/-! ## Passes -/

theorem scanFuel_suffices (calls : Calls) (t : Thread) :
    max t.fdmax (calls.accept.getD 0) < (0 : ℕ) + (scanFuel calls t : ℕ) := by
  unfold scanFuel
  push_cast
  omega

/-- The descriptors that `select` reports in a pass. -/
def reported (calls : Calls) : Finset ℕ :=
  match calls.select with
  | .failed => ∅
  | .timeout => ∅
  | .ready rdset => rdset

/-- In every pass that accepts, there is room for what is accepted. -/
def Fits (serverSocket : ℕ) (calls : Calls) : Prop :=
  serverSocket ∈ reported calls → ∀ newfd, calls.accept = some newfd → newfd < fdSetSize

/-- What a pass leaves: it has handled the reported descriptors. -/
theorem pass_spec {t t' : Thread} {calls : Calls} (h : Polls t) (hfits : Fits t.serverSocket calls)
    (hpass : pass t calls = some t') :
    Polls t' ∧ t'.serverSocket = t.serverSocket ∧
      ∃ done, t'.record = t.record ++ done ∧
        Records t.serverSocket calls (reported calls) 0 done := by
  unfold pass at hpass
  unfold Fits at hfits
  unfold reported at hfits ⊢
  split_ifs at hpass with hleft
  cases hselect : calls.select with
  | failed =>
      rw [hselect] at hpass
      cases hpass
      exact ⟨⟨h.monitored, h.bounded, h.defined⟩, rfl, [], by simp, by simp, by simp, by simp⟩
  | timeout =>
      rw [hselect] at hpass
      cases hpass
      exact ⟨h, rfl, [], by simp, by simp, by simp, by simp⟩
  | ready rdset =>
      rw [hselect] at hpass hfits
      dsimp only at hpass hfits
      split_ifs at hpass with hpossible
      cases hpass
      have hs := scan_spec calls rdset (scanFuel calls t) 0 h
        (fun fd hfd _ => (hpossible.2 fd hfd).1) hfits (scanFuel_suffices calls t)
      exact ⟨hs.polls, hs.server, hs.recorded⟩

/-- What a pass is given is in the set. -/
theorem reported_of_pass {t t' : Thread} {calls : Calls} (hpass : pass t calls = some t') :
    reported calls ⊆ t.refset.fds := by
  unfold pass at hpass
  unfold reported
  split_ifs at hpass with hleft
  cases hselect : calls.select with
  | failed => exact Finset.empty_subset _
  | timeout => exact Finset.empty_subset _
  | ready rdset =>
      rw [hselect] at hpass
      dsimp only at hpass
      split_ifs at hpass with hpossible
      exact fun fd hfd => (hpossible.2 fd hfd).1

/-! ## Runs -/

/-- **No client is dropped.** In every state the monitored descriptors are the server
socket and the clients that were accepted and not yet closed, and none is above `fdmax`.
Every pass handles the descriptors that `select` reported in it, each exactly once, as the
calls returned for it. -/
structure KeepsClients (serverSocket : ℕ) (h : List (Thread × Calls)) (t : Thread) : Prop where
  monitored : ∀ s ∈ visited h t, s.refset.fds = insert serverSocket (openClients s.record)
  bounded : ∀ s ∈ visited h t, ∀ fd ∈ s.refset.fds, (fd : ℤ) ≤ s.fdmax
  handled : ∀ p ∈ h, ∃ s' done, pass p.1 p.2 = some s' ∧ s'.record = p.1.record ++ done ∧
    (done.map Prod.fst).Nodup ∧ (∀ fd, fd ∈ done.map Prod.fst ↔ fd ∈ reported p.2) ∧
    ∀ q ∈ done, q.2 = outcome serverSocket p.2 q.1

/-- In a run in which everything fits. -/
theorem polls_of_fits {serverSocket : ℕ} (hserver : serverSocket < fdSetSize)
    {h : List (Thread × Calls)} {t : Thread} (hexec : Exec pass (boot serverSocket) h t)
    (hfits : ∀ p ∈ h, Fits serverSocket p.2) :
    ∀ s ∈ visited h t, Polls s ∧ s.serverSocket = serverSocket := by
  have hstep : ∀ s calls s', Polls s ∧ s.serverSocket = serverSocket → Fits serverSocket calls →
      pass s calls = some s' → Polls s' ∧ s'.serverSocket = serverSocket := by
    rintro s calls s' ⟨hs, rfl⟩ hgood hpass
    obtain ⟨hs', hsame, -⟩ := pass_spec hs hgood hpass
    exact ⟨hs', hsame⟩
  exact hexec.guarded ⟨polls_boot hserver, serverSocket_boot serverSocket⟩ hstep hfits

/-- A client that is accepted in a pass, and not handled in it itself, is open after it. -/
theorem mem_openClients_append {record done : List (ℕ × Handling)} {fd newfd : ℕ}
    (haccepted : (fd, Handling.accepted newfd) ∈ done) (hnot : newfd ∉ done.map Prod.fst) :
    newfd ∈ openClients (record ++ done) := by
  induction done using List.reverseRecOn with
  | nil => cases haccepted
  | append_singleton done q ih =>
      obtain ⟨other, handling⟩ := q
      rw [List.map_append, List.mem_append, not_or, List.map_singleton, List.mem_singleton] at hnot
      rw [← List.append_assoc, openClients_concat]
      rcases List.mem_append.mp haccepted with hin | hlast
      · have hopen := ih hin hnot.1
        cases handling with
        | acceptFailed => exact hopen
        | accepted other' => exact Finset.mem_insert_of_mem hopen
        | replied => exact hopen
        | ignored => exact hopen
        | closed => exact Finset.mem_erase.mpr ⟨hnot.2, hopen⟩
      · cases List.mem_singleton.mp hlast
        exact Finset.mem_insert_self _ _

/-- **When no client is dropped.** In every run of the loop, and whatever the calls
return: iff the server socket and every descriptor that is accepted are below
`FD_SETSIZE`. -/
theorem keeps_clients_iff (serverSocket : ℕ) {h : List (Thread × Calls)} {t : Thread}
    (hexec : Exec pass (boot serverSocket) h t) :
    KeepsClients serverSocket h t ↔
      serverSocket < fdSetSize ∧ ∀ p ∈ h, Fits serverSocket p.2 := by
  constructor
  · rintro ⟨hmonitored, -, hhandled⟩
    -- what is monitored is in a set, and so below its size
    have hbelow : ∀ s ∈ visited h t, ∀ fd ∈ insert serverSocket (openClients s.record),
        fd < fdSetSize := by
      intro s hs fd hfd
      rw [← hmonitored s hs] at hfd
      exact s.refset.bounded fd hfd
    refine ⟨?_, fun p hp hready newfd haccept => ?_⟩
    · exact hbelow t (mem_visited_self h t) serverSocket (Finset.mem_insert_self _ _)
    · obtain ⟨s', done, hpass, hrecord, -, hmem, houtcome⟩ := hhandled p hp
      obtain ⟨q, hq, hfd⟩ := List.mem_map.mp ((hmem serverSocket).mpr hready)
      have hentry : (serverSocket, Handling.accepted newfd) ∈ done := by
        have hdone : q.2 = .accepted newfd := by
          rw [houtcome q hq, hfd, outcome, if_pos rfl, haccept]
        exact hfd ▸ hdone ▸ hq
      by_contra hlarge
      have hnot : newfd ∉ done.map Prod.fst := by
        intro hin
        have hin' := reported_of_pass hpass ((hmem newfd).mp hin)
        exact hlarge (p.1.refset.bounded newfd hin')
      have hopen : newfd ∈ openClients s'.record := by
        rw [hrecord]
        exact mem_openClients_append hentry hnot
      have hs' : s' ∈ visited h t := hexec.next_mem_visited hp hpass
      exact hlarge (hbelow s' hs' newfd (Finset.mem_insert_of_mem hopen))
  · rintro ⟨hserver, hfits⟩
    have hpolls := polls_of_fits hserver hexec hfits
    refine ⟨fun s hs => ?_, fun s hs => (hpolls s hs).1.bounded, fun p hp => ?_⟩
    · obtain ⟨hp, rfl⟩ := hpolls s hs
      exact hp.monitored
    · obtain ⟨s', hpass⟩ := hexec.enabled p hp
      obtain ⟨hp', hsame⟩ := hpolls p.1 (mem_visited_of_mem hp)
      obtain ⟨-, -, done, hdone, hrecords⟩ := pass_spec hp' (hsame ▸ hfits p hp) hpass
      refine ⟨s', done, hpass, hdone, hrecords.sorted.imp Nat.ne_of_lt, fun fd => ?_, ?_⟩
      · rw [hrecords.handled, and_iff_left (Nat.zero_le fd)]
      · rw [← hsame]
        exact hrecords.outcomes

/-- Descriptor 6 is accepted, and closed as the highest in the pass that accepts 4. -/
theorem keeps_clients_closed :
    ∃ h t, Exec pass (boot 3) h t ∧ h.map (fun p => p.2.select) = [.ready {3}, .ready {3, 6}] ∧
      t.record = [(3, .accepted 6), (3, .accepted 4), (6, .closed)] ∧ KeepsClients 3 h t := by
  have hexec : Exec pass (boot 3) [(boot 3, ⟨.ready {3}, some 6, fun _ => 0⟩), (_, _)] _ :=
    .next (l := ⟨.ready {3, 6}, some 4, fun _ => -1⟩) (.next .start rfl) rfl
  refine ⟨_, _, hexec, rfl, rfl, (keeps_clients_iff 3 hexec).mpr ⟨by decide, ?_⟩⟩
  simp only [List.forall_mem_cons]
  refine ⟨?_, ?_, List.forall_mem_nil _⟩
  · rintro - newfd ⟨⟩
    decide
  · rintro - newfd ⟨⟩
    decide

/-- A client whose descriptor is 1024 is accepted, and not monitored. -/
theorem client_dropped_at_fdSetSize :
    ∃ h t, Exec pass (boot 3) h t ∧ h.map (fun p => p.2.accept) = [some 1024] ∧
      1024 ∈ openClients t.record ∧ 1024 ∉ t.refset.fds ∧ ¬ KeepsClients 3 h t := by
  have hpass : pass (boot 3) ⟨.ready {3}, some 1024, fun _ => 0⟩ =
      some ⟨3, (boot 3).refset, 3, [(3, .accepted 1024)], false, true⟩ := rfl
  have hopen : 1024 ∈ openClients [(3, Handling.accepted 1024)] := by decide
  have hout : 1024 ∉ (boot 3).refset.fds := fun hmem =>
    absurd ((boot 3).refset.bounded 1024 hmem) (by decide)
  refine ⟨_, _, .next .start hpass, rfl, hopen, hout, fun hkeeps => hout ?_⟩
  rw [hkeeps.monitored _ (mem_visited_self _ _)]
  exact Finset.mem_insert_of_mem hopen

end Hanport.ServerLoop
