import Mathlib.Data.Fintype.Card
import Mathlib.Algebra.BigOperators.Group.Finset.Basic
import Mathlib.Order.Fin.Basic
import Mathlib.Data.Finset.Lattice.Fold
import VmSpect.Lib.Interleaving
import VmSpect.Vms.NbdErrors

/-!
# Sessions of `qemu-nbd`

`NbdReader::open_with_options`, the permit that it takes from the process-wide counter, and the drop
of the reader, from `src/vms/nbd.rs`. Each call of `open_with_options` is a session, and any number
of sessions interleave. What the clock, the token, the child process and the network answer is part
of an event, so that they may answer in any way at any time.

`acquire` looks at the counter with the lock held until it takes a permit, gives up or waits, so
each of these is one step. A child is `running` until its exit is observed or someone tries to kill
it.
-/

namespace VmSpect.NbdSession

open Interleaving

/-- What is known of the child of a session. -/
inductive Child where
  /-- None was spawned. -/
  | absent
  /-- Spawned; its exit was not observed and no one tried to kill it. -/
  | running
  | killed
  | exited
  deriving DecidableEq

/-- Why the child is terminated. -/
inductive Cause where
  | cancelled
  | status (error : IoError)
  | handshake (error : IoError)
  | timedOut (last : Option IoError)
  | dropped

/-- How a session ends: the call returned an error, or the reader was dropped. -/
inductive Outcome where
  | failed (error : IoError)
  | closed

/-- Where a session is. `last` is the last error of a connection attempt. -/
inductive Phase where
  /-- The call has not been made. -/
  | fresh
  /-- In `NbdSessionPermit::acquire`. -/
  | acquire
  | bindPort
  | spawn
  | loopHead (last : Option IoError)
  | loopToken (last : Option IoError)
  | loopWait (last : Option IoError)
  | loopConnect (last : Option IoError)
  /-- After the loop, without a connection. -/
  | lastWait (last : Option IoError)
  /-- In `terminate_and_reap`. -/
  | terminate (cause : Cause)
  | kill (cause : Cause)
  | reap (cause : Cause)
  | reapWait (cause : Cause)
  | reapLast (cause : Cause)
  /-- The permit goes out of scope. -/
  | release (outcome : Outcome)
  /-- The call returned a reader. -/
  | opened
  /-- The reader is being dropped. -/
  | closing
  | done (outcome : Outcome)

/-- A session: the limit of its options, its permit and its child. -/
structure Session where
  phase : Phase
  nbdMaxSessions : ℕ
  permit : Bool
  child : Child

/-- What the world answers. -/
inductive Answer where
  /-- A load of the token. -/
  | load (cancelled : Bool)
  /-- A look at the clock. -/
  | clock (expired : Bool)
  /-- A call that returns nothing or an error. -/
  | io (result : Except IoError Unit)
  /-- `try_wait`, and the text on the child's stderr. -/
  | wait (result : Except IoError (Option ExitCode)) (stderr : String)
  /-- `kill`, whose result is ignored. -/
  | killed

/-- How the session ends once its child is terminated. -/
def Cause.outcome (path stderr : String) : Cause → Outcome
  | cancelled => .failed NbdError.cancelled
  | status error => .failed (NbdError.noStatus path error stderr)
  | handshake error => .failed (NbdError.handshake path error stderr)
  | timedOut last => .failed (NbdError.timedOut path last stderr)
  | dropped => .closed

/-- A step of a session that does not touch the counter. -/
def Session.next (path : String) (s : Session) (answer : Answer) : Option Session :=
  match s.phase, answer with
  | .bindPort, .io (.ok ()) => some { s with phase := .spawn }
  | .bindPort, .io (.error e) => some { s with phase := .release (.failed e) }
  | .spawn, .io (.ok ()) => some { s with phase := .loopHead none, child := .running }
  | .spawn, .io (.error e) =>
    some { s with phase := .release (.failed (NbdError.notStarted path e)) }
  | .loopHead last, .clock expired =>
    some { s with phase := if expired then .lastWait last else .loopToken last }
  | .loopToken last, .load cancelled =>
    some { s with phase := if cancelled then .terminate .cancelled else .loopWait last }
  | .loopWait _, .wait (.ok (some code)) stderr =>
    some { s with phase := .release (.failed (NbdError.exited path code stderr)), child := .exited }
  | .loopWait last, .wait (.ok none) _ => some { s with phase := .loopConnect last }
  | .loopWait _, .wait (.error e) _ => some { s with phase := .terminate (.status e) }
  | .loopConnect _, .io (.ok ()) => some { s with phase := .opened }
  | .loopConnect _, .io (.error e) =>
    some { s with
      phase := if retryable e.kind then .loopHead (some e) else .terminate (.handshake e) }
  | .lastWait _, .wait (.ok (some code)) stderr =>
    some { s with phase := .release (.failed (NbdError.exited path code stderr)), child := .exited }
  | .lastWait last, .wait _ _ => some { s with phase := .terminate (.timedOut last) }
  | .terminate cause, .wait (.ok (some _)) stderr =>
    some { s with phase := .release (cause.outcome path stderr), child := .exited }
  | .terminate cause, .wait _ _ => some { s with phase := .kill cause }
  | .kill cause, .killed => some { s with phase := .reap cause, child := .killed }
  | .reap cause, .clock expired =>
    some { s with phase := if expired then .reapLast cause else .reapWait cause }
  | .reapWait cause, .wait (.ok (some _)) stderr =>
    some { s with phase := .release (cause.outcome path stderr), child := .exited }
  | .reapWait cause, .wait _ _ => some { s with phase := .reap cause }
  | .reapLast cause, .wait (.ok (some _)) stderr =>
    some { s with phase := .release (cause.outcome path stderr), child := .exited }
  | .reapLast cause, .wait _ _ => some { s with phase := .release (cause.outcome path "") }
  | .closing, .wait (.ok (some _)) _ => some { s with phase := .release .closed, child := .exited }
  | .closing, .wait _ _ => some { s with phase := .terminate .dropped }
  | _, _ => none

/-- Why a wait for a permit goes on or ends. -/
inductive Waiting where
  | cancelled
  | expired
  | woken

/-- The counter behind the lock, and the sessions. -/
structure State (n : ℕ) where
  count : ℕ
  sessions : Fin n → Session

/-- What can happen next. -/
inductive Event (n : ℕ) where
  /-- The call is made with this limit; the token is loaded first. -/
  | start (i : Fin n) (nbdMaxSessions : ℕ) (cancelled : Bool)
  | acquire (i : Fin n) (waiting : Waiting)
  | advance (i : Fin n) (answer : Answer)
  | drop (i : Fin n)
  | release (i : Fin n)

/-- No call has been made yet. -/
def initial (n : ℕ) : State n where
  count := 0
  sessions := fun _ => ⟨.fresh, 0, false, .absent⟩

/-- Session `i` becomes `session`. -/
def State.put {n : ℕ} (s : State n) (i : Fin n) (session : Session) : State n :=
  { s with sessions := Function.update s.sessions i session }

/-- One event. -/
def step (path : String) {n : ℕ} (e : Event n) (s : State n) : Option (State n) :=
  match e with
  | .start i nbdMaxSessions cancelled =>
    match (s.sessions i).phase with
    | .fresh =>
      let phase := if cancelled then .done (.failed NbdError.cancelledByUser) else .acquire
      some (s.put i { s.sessions i with phase, nbdMaxSessions })
    | _ => none
  | .acquire i waiting =>
    match (s.sessions i).phase with
    | .acquire =>
      if max (s.sessions i).nbdMaxSessions 1 ≤ s.count then
        match waiting with
        | .cancelled =>
          some (s.put i { s.sessions i with phase := .done (.failed NbdError.cancelled) })
        | .expired => some (s.put i { s.sessions i with phase := .done (.failed NbdError.noSlot) })
        | .woken => some s
      else
        some ({ s with count := s.count + 1 }.put i
          { s.sessions i with phase := .bindPort, permit := true })
    | _ => none
  | .advance i answer => ((s.sessions i).next path answer).map (s.put i)
  | .drop i =>
    match (s.sessions i).phase with
    | .opened => some (s.put i { s.sessions i with phase := .closing })
    | _ => none
  | .release i =>
    match (s.sessions i).phase with
    | .release outcome =>
      -- The subtraction saturates, as that of natural numbers does.
      some ({ s with count := s.count - 1 }.put i
        { s.sessions i with phase := .done outcome, permit := false })
    | _ => none

/-- The number of permits that are alive. -/
def State.permits {n : ℕ} (s : State n) : ℕ := ∑ i, (s.sessions i).permit.toNat

/-- The largest limit that a call was made with so far. -/
def State.largestLimit {n : ℕ} (s : State n) : ℕ :=
  Finset.univ.sup fun i => (s.sessions i).nbdMaxSessions

/-- The number of children that are running unattended. -/
def State.unattended {n : ℕ} (s : State n) : ℕ :=
  (Finset.univ.filter fun i => (s.sessions i).child = .running).card

end VmSpect.NbdSession
