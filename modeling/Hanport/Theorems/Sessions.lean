import Hanport.Theorems.Polling

/-!
# The sessions of a client

Seen from one descriptor, the record of the server loop is a sequence of sessions: it is
accepted, replied to or ignored any number of times, and closed, before it is accepted
again. Nothing is done with a descriptor outside a session, and none is closed twice.
-/

namespace Hanport.ServerLoop

open Lib.Lts

/-! ## What is handled -/

/-- What may come next in a record: the server socket is accepted from, and an open client
is replied to, ignored or closed. -/
def MayHandle (serverSocket : ℕ) (record : List (ℕ × Handling)) (fd : ℕ) : Handling → Prop
  | .acceptFailed => fd = serverSocket
  | .accepted _ => fd = serverSocket
  | .replied => fd ≠ serverSocket ∧ fd ∈ openClients record
  | .ignored => fd ≠ serverSocket ∧ fd ∈ openClients record
  | .closed => fd ≠ serverSocket ∧ fd ∈ openClients record

/-- A record in which nothing else is done. -/
inductive Proper (serverSocket : ℕ) : List (ℕ × Handling) → Prop
  | start : Proper serverSocket []
  | next {record : List (ℕ × Handling)} {fd : ℕ} {done : Handling} :
      Proper serverSocket record → MayHandle serverSocket record fd done →
      Proper serverSocket (record ++ [(fd, done)])

/-- A monitored descriptor is handled properly. -/
theorem mayHandle_outcome (calls : Calls) {t : Thread} (h : Polls t) {fd : ℕ}
    (hfd : fd ∈ t.refset.fds) :
    MayHandle t.serverSocket t.record fd (outcome t.serverSocket calls fd) := by
  unfold outcome
  by_cases hserver : fd = t.serverSocket
  · rw [if_pos hserver]
    cases calls.accept with
    | none => exact hserver
    | some newfd => exact hserver
  · -- what is monitored is the server socket or an open client
    have hopen : fd ∈ openClients t.record := by
      rw [h.monitored] at hfd
      exact (Finset.mem_insert.mp hfd).resolve_left hserver
    rw [if_neg hserver]
    split_ifs <;> exact ⟨hserver, hopen⟩

theorem proper_handle (calls : Calls) {t : Thread} (h : Polls t) {fd : ℕ}
    (hh : Handles t fd (handle calls t fd)) (hfd : fd ∈ t.refset.fds)
    (hp : Proper t.serverSocket t.record) :
    Proper (handle calls t fd).serverSocket (handle calls t fd).record := by
  rw [hh.server, record_handle]
  exact hp.next (mayHandle_outcome calls h hfd)

/-- The scan handles monitored descriptors only: those ahead are not closed before it
comes to them. -/
theorem proper_scan (calls : Calls) (rdset : Finset ℕ) (fuel fd : ℕ) {t : Thread} (h : Polls t)
    (hleft : ∀ other ∈ rdset, fd ≤ other → other ∈ t.refset.fds)
    (hfits : t.serverSocket ∈ rdset → ∀ newfd, calls.accept = some newfd → newfd < fdSetSize)
    (hp : Proper t.serverSocket t.record) :
    Proper (scan calls rdset fuel fd t).serverSocket (scan calls rdset fuel fd t).record := by
  induction fuel generalizing fd t with
  | zero => exact hp
  | succ fuel ih =>
      rw [scan, h.defined, if_neg Bool.false_ne_true]
      by_cases hbound : (fd : ℤ) ≤ t.fdmax
      · rw [if_pos hbound]
        by_cases hready : fd ∈ rdset
        · rw [if_pos hready]
          have hh := handle_spec calls h fd fun heq => hfits (heq ▸ hready)
          -- the handling of `fd` closes no other descriptor
          have hahead : ∀ other ∈ rdset, fd + 1 ≤ other →
              other ∈ (handle calls t fd).refset.fds :=
            fun other hmem hle => hh.others other (hleft other hmem (by omega)) (by omega)
          have hfits' := hfits
          rw [← hh.server] at hfits'
          exact ih (fd + 1) hh.polls hahead hfits'
            (proper_handle calls h hh (hleft fd hready le_rfl) hp)
        · rw [if_neg hready]
          exact ih (fd + 1) h (fun other hmem hle => hleft other hmem (by omega)) hfits hp
      · rw [if_neg hbound]
        exact hp

theorem proper_pass {t t' : Thread} {calls : Calls} (h : Polls t)
    (hfits : Fits t.serverSocket calls) (hp : Proper t.serverSocket t.record)
    (hpass : pass t calls = some t') : Proper t'.serverSocket t'.record := by
  unfold pass at hpass
  unfold Fits reported at hfits
  split_ifs at hpass with hleft
  cases hselect : calls.select with
  | failed =>
      rw [hselect] at hpass
      cases hpass
      exact hp
  | timeout =>
      rw [hselect] at hpass
      cases hpass
      exact hp
  | ready rdset =>
      rw [hselect] at hpass hfits
      dsimp only at hpass hfits
      split_ifs at hpass with hpossible
      cases hpass
      exact proper_scan calls rdset (scanFuel calls t) 0 h
        (fun fd hfd _ => (hpossible.2 fd hfd).1) hfits hp

/-! ## Sessions -/

/-- `accept` returns descriptors that are not open. -/
def FreshAccepts (serverSocket : ℕ) (record : List (ℕ × Handling)) : Prop :=
  ∀ before fd newfd after, record = before ++ (fd, .accepted newfd) :: after →
    newfd ≠ serverSocket ∧ newfd ∉ openClients before

/-- What a handling is for a client, in or out of a session; `none` is what no session
allows. -/
def sessionStep (client : ℕ) (inSession : Bool) : ℕ × Handling → Option Bool
  | (_, .acceptFailed) => some inSession
  | (_, .accepted newfd) =>
      if newfd = client then if inSession then none else some true else some inSession
  | (fd, .replied) => if fd = client then if inSession then some true else none else some inSession
  | (fd, .ignored) => if fd = client then if inSession then some true else none else some inSession
  | (fd, .closed) => if fd = client then if inSession then some false else none else some inSession

/-- Whether the client is in a session at the end of a record that is one of sessions. -/
def session (client : ℕ) (record : List (ℕ × Handling)) : Option Bool :=
  record.foldlM (sessionStep client) false

theorem session_concat (client : ℕ) (record : List (ℕ × Handling)) (p : ℕ × Handling) :
    session client (record ++ [p]) =
      (session client record).bind fun inSession => sessionStep client inSession p := by
  unfold session
  rw [List.foldlM_append]
  congr 1
  funext inSession
  exact bind_pure _

theorem FreshAccepts.init {serverSocket : ℕ} {record : List (ℕ × Handling)} {p : ℕ × Handling}
    (h : FreshAccepts serverSocket (record ++ [p])) : FreshAccepts serverSocket record := by
  intro before fd newfd after heq
  exact h before fd newfd (after ++ [p]) (by rw [heq, List.append_assoc]; rfl)

theorem FreshAccepts.last {serverSocket : ℕ} {record : List (ℕ × Handling)} {fd newfd : ℕ}
    (h : FreshAccepts serverSocket (record ++ [(fd, .accepted newfd)])) :
    newfd ≠ serverSocket ∧ newfd ∉ openClients record :=
  h record fd newfd [] rfl

/-- A proper record is one of sessions, for every client. -/
theorem session_of_proper {serverSocket : ℕ} {record : List (ℕ × Handling)}
    (hp : Proper serverSocket record) (hfresh : FreshAccepts serverSocket record) (client : ℕ) :
    session client record = some (decide (client ∈ openClients record)) := by
  induction hp with
  | start => rfl
  | @next record fd done _ hmay ih =>
      rw [session_concat, ih hfresh.init, openClients_concat, Option.bind_some]
      cases done with
      | acceptFailed => rfl
      | accepted newfd =>
          -- a client that is accepted is not in a session: its descriptor would be open
          have hnew := hfresh.last.2
          by_cases hclient : newfd = client
          · subst hclient
            simp [sessionStep, hnew]
          · simp [sessionStep, hclient, Ne.symm hclient]
      | replied =>
          by_cases hclient : fd = client
          · subst hclient
            simp [sessionStep, hmay.2]
          · simp [sessionStep, hclient]
      | ignored =>
          by_cases hclient : fd = client
          · subst hclient
            simp [sessionStep, hmay.2]
          · simp [sessionStep, hclient]
      | closed =>
          by_cases hclient : fd = client
          · subst hclient
            simp [sessionStep, hmay.2]
          · simp [sessionStep, hclient, Ne.symm hclient]

/-- How often the client was accepted. -/
def accepts (client : ℕ) (record : List (ℕ × Handling)) : ℕ :=
  record.countP fun p => p.2 = .accepted client

/-- How often the client was closed. -/
def closes (client : ℕ) (record : List (ℕ × Handling)) : ℕ := record.count (client, .closed)

/-- In a record of sessions each but the last is closed, once. -/
theorem accepts_of_session {client : ℕ} {record : List (ℕ × Handling)} {inSession : Bool}
    (h : session client record = some inSession) :
    accepts client record = closes client record + if inSession then 1 else 0 := by
  induction record using List.reverseRecOn generalizing inSession with
  | nil =>
      cases h
      rfl
  | append_singleton record p ih =>
      obtain ⟨fd, done⟩ := p
      rw [session_concat] at h
      obtain ⟨before, hbefore, hstep⟩ := Option.bind_eq_some_iff.mp h
      have hcount := ih hbefore
      unfold accepts closes at hcount ⊢
      rw [List.countP_append, List.count_append, hcount]
      cases done with
      | acceptFailed =>
          cases hstep
          simp
      | accepted newfd =>
          simp only [sessionStep] at hstep
          by_cases hclient : newfd = client
          · subst hclient
            cases before <;> simp_all
          · cases before <;> simp_all
      | replied =>
          simp only [sessionStep] at hstep
          cases before <;> by_cases hclient : fd = client <;> simp_all
      | ignored =>
          simp only [sessionStep] at hstep
          cases before <;> by_cases hclient : fd = client <;> simp_all
      | closed =>
          simp only [sessionStep] at hstep
          by_cases hclient : fd = client
          · subst hclient
            cases before <;> simp_all
          · cases before <;> simp_all

/-- **Sessions.** In every run of the loop in which `accept` returns no open descriptor and
all descriptors are below `FD_SETSIZE`, and for every descriptor but the server socket: the
record is one of sessions, the last one is open iff the descriptor is still monitored, and
every other one was ended by one `close`. -/
theorem client_sessions {serverSocket : ℕ} (hserver : serverSocket < fdSetSize)
    {h : List (Thread × Calls)} {t : Thread} (hexec : Exec pass (boot serverSocket) h t)
    (hfits : ∀ p ∈ h, Fits serverSocket p.2) (hfresh : FreshAccepts serverSocket t.record)
    (client : ℕ) (hclient : client ≠ serverSocket) :
    session client t.record = some (decide (client ∈ t.refset.fds)) ∧
      accepts client t.record =
        closes client t.record + if client ∈ t.refset.fds then 1 else 0 := by
  have hboot : Proper serverSocket (boot serverSocket).record := by
    rw [record_boot]
    exact .start
  have hkept := polls_of_fits hserver hexec hfits
  have hproper : Proper serverSocket t.record := by
    have hstep : ∀ s calls s', Proper serverSocket s.record →
        (Polls s ∧ s.serverSocket = serverSocket) ∧ Fits serverSocket calls →
        pass s calls = some s' → Proper serverSocket s'.record := by
      rintro s calls s' hp ⟨⟨hs, rfl⟩, hgood⟩ hpass
      obtain ⟨-, hsame, -⟩ := pass_spec hs hgood hpass
      have hnext := proper_pass hs hgood hp hpass
      rwa [hsame] at hnext
    exact hexec.guarded (K := fun s => Proper serverSocket s.record) hboot hstep
      (fun p hp => ⟨hkept p.1 (mem_visited_of_mem hp), hfits p hp⟩) t (mem_visited_self h t)
  obtain ⟨hpolls, hsame⟩ := hkept t (mem_visited_self h t)
  have hmem : client ∈ openClients t.record ↔ client ∈ t.refset.fds := by
    rw [hpolls.monitored, Finset.mem_insert, hsame, or_iff_right hclient]
  have hsession := session_of_proper hproper hfresh client
  have hcount := accepts_of_session hsession
  simp only [hmem] at hsession hcount
  exact ⟨hsession, by simpa using hcount⟩

/-- Descriptor 6 is accepted, closed, and accepted again. -/
theorem client_sessions_reused :
    ∃ h t, Exec pass (boot 3) h t ∧
      t.record = [(3, .accepted 6), (6, .closed), (3, .accepted 6)] ∧
      session 6 t.record = some (decide (6 ∈ t.refset.fds)) ∧
      accepts 6 t.record = closes 6 t.record + if 6 ∈ t.refset.fds then 1 else 0 := by
  have hexec : Exec pass (boot 3)
      [(boot 3, ⟨.ready {3}, some 6, fun _ => 0⟩), (_, _), (_, _)] _ :=
    .next (l := ⟨.ready {3}, some 6, fun _ => 0⟩)
      (.next (l := ⟨.ready {6}, none, fun _ => -1⟩) (.next .start rfl) rfl) rfl
  have hfresh : FreshAccepts 3 [(3, .accepted 6), (6, .closed), (3, .accepted 6)] := by
    rintro (- | ⟨p, - | ⟨q, - | ⟨r, before⟩⟩⟩) fd newfd after heq <;> simp at heq
    · obtain ⟨⟨-, rfl⟩, -⟩ := heq
      decide
    · obtain ⟨rfl, rfl, ⟨-, rfl⟩, -⟩ := heq
      decide
  refine ⟨_, _, hexec, rfl, client_sessions (by decide) hexec ?_ hfresh 6 (by decide)⟩
  simp only [List.forall_mem_cons]
  refine ⟨?_, ?_, ?_, List.forall_mem_nil _⟩
  · rintro - newfd ⟨⟩
    decide
  · rintro - newfd ⟨⟩
  · rintro - newfd ⟨⟩
    decide

end Hanport.ServerLoop
