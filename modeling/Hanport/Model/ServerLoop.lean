import Hanport.Lib.Lts

/-!
# The sockets of the server thread

The loop of the thread that `hpModbuss::start` creates, while `running` is set: one pass
is one `select` and the scan of the descriptors it reports. What the system calls
and `modbus_receive` return is given for each pass. An `fd_set` has a bit for each
descriptor below `FD_SETSIZE`; `FD_SET` behind the last one is undefined, and no pass
follows it. The query, the reply and the output on the standard streams are not
modelled.
-/

namespace Hanport.ServerLoop

/-! ## `fd_set` -/

/-- `FD_SETSIZE` of Linux. -/
def fdSetSize : ℕ := 1024

structure FdSet where
  fds : Finset ℕ
  bounded : ∀ fd ∈ fds, fd < fdSetSize

/-- `FD_ZERO` -/
def fdZero : FdSet := ⟨∅, by simp⟩

/-- `FD_SET`, where it is defined. -/
def fdSet (fd : ℕ) (s : FdSet) : Option FdSet :=
  if h : fd < fdSetSize then
    some ⟨insert fd s.fds, fun other hother => by
      rcases Finset.mem_insert.mp hother with rfl | hmem
      · exact h
      · exact s.bounded other hmem⟩
  else none

/-- `FD_CLR` of a descriptor of the set. -/
def fdClr (fd : ℕ) (s : FdSet) : FdSet :=
  ⟨s.fds.erase fd, fun other hother => s.bounded other (Finset.mem_of_mem_erase hother)⟩

/-! ## The thread -/

/-- What `select` returns: -1, 0, or the descriptors it leaves in `rdset`. -/
inductive Selected where
  | failed
  | timeout
  | ready (rdset : Finset ℕ)

/-- What the calls of one pass return; the server socket is ready at most once, so
there is one `accept`, and its `none` is -1. -/
structure Calls where
  select : Selected
  accept : Option ℕ
  receive : ℕ → ℤ

/-- What is done with a descriptor that is ready. -/
inductive Handling where
  | acceptFailed
  | accepted (newfd : ℕ)
  | replied
  | ignored
  | closed
  deriving DecidableEq, Repr

/-- The locals of the thread, with a record of what it has done, whether it has left its
loop, and whether an `FD_SET` was not defined. -/
structure Thread where
  serverSocket : ℕ
  refset : FdSet
  fdmax : ℤ
  record : List (ℕ × Handling) := []
  left : Bool := false
  overrun : Bool := false

/-- Before the loop. -/
def boot (serverSocket : ℕ) : Thread :=
  let t : Thread :=
    { serverSocket := serverSocket, refset := fdZero, fdmax := serverSocket }
  match fdSet serverSocket fdZero with
  | none => { t with overrun := true }
  | some refset => { t with refset := refset }

/-- The body of the scan for a descriptor that is ready. -/
def handle (calls : Calls) (t : Thread) (masterSocket : ℕ) : Thread :=
  if masterSocket = t.serverSocket then
    match calls.accept with
    | none => { t with record := t.record ++ [(masterSocket, .acceptFailed)] }
    | some newfd =>
        let record := t.record ++ [(masterSocket, Handling.accepted newfd)]
        match fdSet newfd t.refset with
        | none => { t with record := record, overrun := true }
        | some refset =>
            { t with
              refset := refset
              fdmax := if (newfd : ℤ) > t.fdmax then newfd else t.fdmax
              record := record }
  else if calls.receive masterSocket > 0 then
    { t with record := t.record ++ [(masterSocket, .replied)] }
  else if calls.receive masterSocket = -1 then
    { t with
      refset := fdClr masterSocket t.refset
      fdmax := if (masterSocket : ℤ) = t.fdmax then t.fdmax - 1 else t.fdmax
      record := t.record ++ [(masterSocket, .closed)] }
  else { t with record := t.record ++ [(masterSocket, .ignored)] }

/-- The scan from `masterSocket` on, in at most `fuel` passes. Its bound is read
again before each of them. -/
def scan (calls : Calls) (rdset : Finset ℕ) : ℕ → ℕ → Thread → Thread
  | 0, _, t => t
  | fuel + 1, masterSocket, t =>
      if t.overrun then t
      else if (masterSocket : ℤ) ≤ t.fdmax then
        if masterSocket ∈ rdset then
          scan calls rdset fuel (masterSocket + 1) (handle calls t masterSocket)
        else scan calls rdset fuel (masterSocket + 1) t
      else t

/-- Passes that suffice: no descriptor is above `fdmax` or the accepted one. -/
def scanFuel (calls : Calls) (t : Thread) : ℕ :=
  (max t.fdmax (calls.accept.getD 0)).toNat + 1

/-- One pass of the loop, where the calls can return so: `select` reports some of the
descriptors it is given, all below its bound. -/
def pass (t : Thread) (calls : Calls) : Option Thread :=
  if t.left || t.overrun then none
  else
    match calls.select with
    | .failed => some { t with left := true }
    | .timeout => some t
    | .ready rdset =>
        if rdset.Nonempty ∧ ∀ fd ∈ rdset, fd ∈ t.refset.fds ∧ (fd : ℤ) < t.fdmax + 1 then
          some (scan calls rdset (scanFuel calls t) 0 t)
        else none

end Hanport.ServerLoop
