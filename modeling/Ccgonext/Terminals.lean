import Ccgonext.TerminalWindow
import Ccgonext.Lib.Pool
import Ccgonext.Lib.Runs

/-!
# A terminal and its tasks

One terminal of `acp/callbacks.rs`: the drain tasks of its streams, the task that
supervises the child, and the requests of the agent about it. A step goes from
one `await` to the next. Only `handle_terminal_output` holds a lock over an
`await`, that of the buffer while it reads the exit status; all the others are
taken and let go within a step.
-/

namespace Ccgonext.Terminals
open Lib Lib.Runs TerminalOutput

structure ExitStatus where
  exitCode : Option ℕ
  signal : Option String
  deriving DecidableEq, Repr

/-- What a drain task has to hand on is any text; which, `drain_terminal_stream` says. -/
inductive DrainPc
  | reading
  | appending (chunk : List Char)
  | finished
  deriving DecidableEq, Repr

inductive SupervisorPc
  | waiting
  | killing
  | joining (joined : ℕ) (status : ExitStatus)
  | storing (status : ExitStatus)
  | notifying
  | done
  deriving DecidableEq, Repr

structure OutputResponse where
  output : List Char
  truncated : Bool
  exitStatus : Option ExitStatus
  deriving DecidableEq, Repr

inductive OutputPc
  | locking
  | reading
  | copying (exitStatus : Option ExitStatus)
  | returned (response : OutputResponse)
  | notFound
  deriving DecidableEq, Repr

/-- `woken` is whether `notify_waiters` was called since the call enabled its
`Notified`. -/
inductive WaitPc
  | enabling
  | checking (woken : Bool)
  | waiting (woken : Bool)
  | returned (exitStatus : ExitStatus)
  | notFound
  deriving DecidableEq, Repr

def OutputPc.holdsBuffer : OutputPc → Bool
  | .reading | .copying _ => true
  | _ => false

def WaitPc.wake : WaitPc → WaitPc
  | .checking _ => .checking true
  | .waiting _ => .waiting true
  | pc => pc

structure Terminal where
  outputLimit : Option ℕ
  buffer : TerminalBuffer
  exitStatus : Option ExitStatus
  killTx : Bool
  killSent : Bool
  registered : Bool
  drains : List DrainPc
  supervisor : SupervisorPc
  outputs : List OutputPc
  waits : List WaitPc
  deriving DecidableEq, Repr

inductive Action
  | read (k : ℕ) (chunk : List Char)
  | append (k : ℕ)
  | finish (k : ℕ)
  | exit (status : ExitStatus)
  | receiveKill
  | join
  | store
  | notify
  | kill
  | release
  | output
  | outputStep (i : ℕ)
  | wait
  | waitStep (i : ℕ)
  deriving DecidableEq, Repr

namespace Terminal

def new (outputLimit : Option ℕ) (drains : ℕ) : Terminal :=
  ⟨outputLimit, .new, none, true, false, true, List.replicate drains .reading, .waiting, [], []⟩

def sendKill (s : Terminal) : Terminal :=
  { s with killTx := false, killSent := s.killSent || s.killTx }

def outputStep (s : Terminal) : OutputPc → Option OutputPc
  | .locking => some .reading
  | .reading => some (.copying s.exitStatus)
  | .copying exitStatus => some (.returned ⟨s.buffer.output, s.buffer.truncated, exitStatus⟩)
  | .returned _ | .notFound => none

def waitStep (s : Terminal) : WaitPc → Option WaitPc
  | .enabling => some (.checking false)
  | .checking woken =>
    match s.exitStatus with
    | some exitStatus => some (.returned exitStatus)
    | none => some (.waiting woken)
  | .waiting true => some .enabling
  | .waiting false | .returned _ | .notFound => none

def superviseStep (s : Terminal) : SupervisorPc → Option SupervisorPc
  | .joining k status =>
    match s.drains[k]? with
    | some .finished => some (.joining (k + 1) status)
    | some _ => none
    | none => some (.storing status)
  | _ => none

def step (s : Terminal) : Action → Option Terminal
  | .read k chunk =>
    match s.drains[k]? with
    | some .reading => some { s with drains := s.drains.set k (.appending chunk) }
    | _ => none
  | .append k =>
    match s.drains[k]? with
    | some (.appending chunk) =>
      if s.outputs.any OutputPc.holdsBuffer then none
      else some
        { s with
          buffer := appendTerminalOutput s.outputLimit s.buffer chunk
          drains := s.drains.set k .reading }
    | _ => none
  | .finish k =>
    match s.drains[k]? with
    | some .reading => some { s with drains := s.drains.set k .finished }
    | _ => none
  | .exit status =>
    match s.supervisor with
    | .waiting | .killing => some { s with supervisor := .joining 0 status }
    | _ => none
  | .receiveKill =>
    match s.supervisor with
    | .waiting => if s.killSent then some { s with supervisor := .killing } else none
    | _ => none
  | .join => (s.superviseStep s.supervisor).map fun supervisor =>
    { s with supervisor := supervisor }
  | .store =>
    match s.supervisor with
    | .storing status => some { s with exitStatus := some status, supervisor := .notifying }
    | _ => none
  | .notify =>
    match s.supervisor with
    | .notifying => some { s with waits := s.waits.map WaitPc.wake, supervisor := .done }
    | _ => none
  | .kill => some (if s.registered then s.sendKill else s)
  | .release => some (if s.registered then { s.sendKill with registered := false } else s)
  | .output => some
    { s with outputs := s.outputs ++ [if s.registered then .locking else .notFound] }
  | .outputStep i =>
    match s.outputs[i]? with
    | some pc => (s.outputStep pc).map fun pc => { s with outputs := s.outputs.set i pc }
    | none => none
  | .wait => some
    { s with waits := s.waits ++ [if s.registered then .enabling else .notFound] }
  | .waitStep i =>
    match s.waits[i]? with
    | some pc => (s.waitStep pc).map fun pc => { s with waits := s.waits.set i pc }
    | none => none

end Terminal

end Ccgonext.Terminals
