import Hanport.Lib.Lts
import Hanport.Model.HpModbuss

/-!
# The server thread beside the API

The calls of `start` and `stop`, made one after the other by one thread, and the
passes of the server loop in between. `start` holds the mutex throughout and
creates the thread last, so it is one step. `stop` gives the mutex back after
clearing `running`, and the loop goes on while it closes, joins and frees.
-/

namespace Hanport.HpModbuss

/-- Where the calling thread stands: outside any call, or in `stop` before the
part it names. -/
inductive ApiPc where
  | idle
  | closing
  | joining
  | freeing
  deriving DecidableEq, Repr

structure Server where
  impl : Impl
  api : ApiPc := .idle
  terminated : Bool := false

/-- What `select` returns: -1, 0, or a positive count. -/
inductive SelectResult where
  | failed
  | timeout
  | ready (count : ℕ)
  deriving DecidableEq, Repr

inductive Label where
  | start (env : StartEnv)
  | stop
  | stopClose
  | stopJoin
  | stopFree
  | loopTest
  | select (ret : SelectResult)
  deriving DecidableEq, Repr

/-- The test of `running` at the head of the loop. -/
def threadTest (s : Impl) : Impl :=
  { s with serverThread := some (if s.running then .inSelect else .left) }

/-- The pass behind `select`. On -1 the loop is left whether `running` is set or
not; the sockets that are ready are handled otherwise. -/
def threadSelect (s : Impl) : SelectResult → Impl
  | .failed => { s with serverThread := some .left }
  | .timeout => { s with serverThread := some .atTest }
  | .ready _ => { s with serverThread := some .atTest }

/-- One step, where it is possible. -/
def step (s : Server) (l : Label) : Option Server :=
  if s.terminated then none
  else
    match l with
    | .start env =>
        if s.api = .idle then
          some { s with
            impl := (start s.impl env).1
            terminated := (start s.impl env).2 = .terminated }
        else none
    | .stop =>
        if s.api = .idle then
          if s.impl.running = false then some s
          else some { s with impl := stopLock s.impl, api := .closing }
        else none
    | .stopClose =>
        if s.api = .closing then some { s with impl := stopClose s.impl, api := .joining }
        else none
    | .stopJoin =>
        if s.api = .joining ∧ canJoin s.impl = true then
          some { s with impl := stopJoin s.impl, api := .freeing }
        else none
    | .stopFree =>
        if s.api = .freeing then some { s with impl := stopFree s.impl, api := .idle }
        else none
    | .loopTest =>
        if s.impl.serverThread = some .atTest then some { s with impl := threadTest s.impl }
        else none
    | .select ret =>
        if s.impl.serverThread = some .inSelect then
          some { s with impl := threadSelect s.impl ret }
        else none

/-- The object before its first call. -/
def boot (port : BitVec 16) : Server := { impl := { port := port } }

end Hanport.HpModbuss
