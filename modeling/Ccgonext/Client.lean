import Ccgonext.Lib.Pending
import Ccgonext.Lib.Pool
import Ccgonext.Lib.Runs
import Mathlib.Data.Int.Notation

/-!
# The client of one agent

`AcpClient` of `acp/mod.rs` with its tasks and the calls made on it. A call of
`send_request` is cut at its two loads of `connected`, at `fetch_add`, at every
lock of `pending` and at the send to the writer. It may be dropped where it
awaits. `reader_task` reads and handles a line in one step, since nobody sees
that a line was read; `fail_pending_requests` and the loop of `shutdown` over
the drained senders work under one lock. A task that `shutdown` aborts is
cancelled at one of its awaits. `kill_child` takes the handle and starts the kill
in one step, then waits.

What a line says to the callbacks or the event log is left out, and so is the
text of a line: it is blank, no JSON or a message. `Value` is `serde_json::Value`
and `null` its `Null`. Ids do not wrap.
-/

namespace Ccgonext.Client
open Lib Lib.Pool Lib.Runs

inductive RequestId
  | null
  | number (n : ℤ)
  | str (s : String)
  deriving DecidableEq, Repr

structure JsonRpcError where
  code : ℤ
  message : String
  deriving DecidableEq, Repr

structure IncomingMessage (Value : Type) where
  id : Option RequestId
  method : Option String
  params : Option Value
  result : Option Value
  error : Option JsonRpcError
  deriving DecidableEq, Repr

inductive IncomingKind (Value : Type)
  | request (id : RequestId) (method : String) (params : Value)
  | response (id : RequestId) (result : Option Value) (error : Option JsonRpcError)
  | notification (method : String) (params : Value)
  | invalid
  deriving DecidableEq, Repr

def IncomingMessage.classify {Value : Type} (null : Value) (m : IncomingMessage Value) :
    IncomingKind Value :=
  match m.id with
  | some id =>
    match m.method with
    | some method => .request id method (m.params.getD null)
    | none => .response id m.result m.error
  | none =>
    match m.method with
    | some method => .notification method (m.params.getD null)
    | none => .invalid

inductive Line (Value : Type)
  | blank
  | notJson
  | message (m : IncomingMessage Value)
  deriving DecidableEq, Repr

inductive RequestError
  | connectionClosed
  | notSerialized (message : String)
  | writerClosed
  | responseDropped
  | rpc (error : JsonRpcError)
  | agentClosed (agent : String)
  | clientShutdown
  deriving DecidableEq, Repr

def RequestError.text : RequestError → String
  | .connectionClosed => "ACP agent connection closed"
  | .notSerialized message => message
  | .writerClosed => "Writer channel closed"
  | .responseDropped => "Response channel dropped"
  | .rpc error => "RPC error " ++ toString error.code ++ ": " ++ error.message
  | .agentClosed agent => "ACP agent connection closed for " ++ agent
  | .clientShutdown => "ACP client shutdown"

inductive ResponseResult (Value : Type)
  | ok (value : Value)
  | err (error : RequestError)
  deriving DecidableEq, Repr

def ResponseResult.fromAgent {Value : Type} : ResponseResult Value → Bool
  | .ok _ | .err (.rpc _) => true
  | .err _ => false

/-- What the reader answers with, and whom: the id must be a number. -/
def Line.response {Value : Type} (null : Value) : Line Value → Option (ℤ × ResponseResult Value)
  | .message m =>
    match m.classify null with
    | .response (.number id) result error =>
      match error with
      | some error => some (id, .err (.rpc error))
      | none => some (id, .ok (result.getD null))
    | _ => none
  | _ => none

inductive WriterMsg
  | line (text : String)
  | shutdown
  deriving DecidableEq, Repr

def writerCapacity : ℕ := 64

inductive CallPc (Value : Type)
  | check
  | fetchAdd
  | serialize
  | insert (line : String)
  | recheck (line : String)
  | removeClosed
  | sendLine (line : String)
  | removeUnsent
  | awaitResponse
  | returned (result : ResponseResult Value)
  | dropped (place : CallPc Value)
  deriving DecidableEq, Repr

structure RequestCall (Value : Type) where
  id : Option ℤ
  pc : CallPc Value
  deriving DecidableEq, Repr

inductive TaskName
  | writer
  | reader
  | stderr
  | wait
  deriving DecidableEq, Repr

inductive ReaderPc
  | reading
  | storeClosed
  | takeChild
  | waitChild
  | failPending
  | done
  | cancelled
  deriving DecidableEq, Repr

inductive WriterPc
  | recv
  | write (text : String)
  | closeStdin
  | storeClosed (cleanup : Bool)
  | takeChild
  | waitChild
  | done
  | cancelled
  deriving DecidableEq, Repr

inductive WaitPc
  | tryWait
  | sleep
  | storeClosed
  | takeChild
  | waitChild
  | done
  | cancelled
  deriving DecidableEq, Repr

inductive StderrPc
  | reading
  | done
  | cancelled
  deriving DecidableEq, Repr

/-- `slot` holds the child handle, `killed` says that its kill was started. -/
structure AcpClient (Value : Type) where
  agent : String
  pending : Pending ℤ (ResponseResult Value)
  nextId : ℤ
  connected : Bool
  queue : List WriterMsg
  slot : Bool
  killed : Bool
  handles : List TaskName
  aborted : List TaskName
  reader : ReaderPc
  writer : WriterPc
  wait : WaitPc
  stderr : StderrPc
  deriving DecidableEq, Repr

namespace AcpClient
variable {Value : Type} (s : AcpClient Value)

def spawn (agent : String) : AcpClient Value :=
  ⟨agent, .new, 1, true, [], true, false, [.writer, .reader, .stderr, .wait], [], .reading, .recv,
    .tryWait, .reading⟩

def failPending (error : RequestError) : AcpClient Value :=
  { s with pending := s.pending.drain (.err error) }

/-- The first step of `kill_child`. -/
def killChild : AcpClient Value := { s with slot := false, killed := s.killed || s.slot }

/-- The writer's task owns the receiver of the channel. -/
def writerOpen : Bool := s.writer ≠ .done && s.writer ≠ .cancelled

def finished : TaskName → Bool
  | .writer => s.writer = .done || s.writer = .cancelled
  | .reader => s.reader = .done || s.reader = .cancelled
  | .stderr => s.stderr = .done || s.stderr = .cancelled
  | .wait => s.wait = .done || s.wait = .cancelled

def atAwait : TaskName → Bool
  | .writer =>
    match s.writer with
    | .storeClosed _ | .done | .cancelled => false
    | _ => true
  | .reader =>
    match s.reader with
    | .storeClosed | .done | .cancelled => false
    | _ => true
  | .stderr => s.stderr = .reading
  | .wait =>
    match s.wait with
    | .storeClosed | .done | .cancelled => false
    | _ => true

def cancel : TaskName → AcpClient Value
  | .writer => { s with writer := .cancelled }
  | .reader => { s with reader := .cancelled }
  | .stderr => { s with stderr := .cancelled }
  | .wait => { s with wait := .cancelled }

def readerStep : Option (AcpClient Value) :=
  match s.reader with
  | .reading => some { s with reader := .storeClosed }
  | .storeClosed => some { s with connected := false, reader := .takeChild }
  | .takeChild => some
    { s.killChild with reader := if s.slot then .waitChild else .failPending }
  | .waitChild => some { s with reader := .failPending }
  | .failPending => some { s.failPending (.agentClosed s.agent) with reader := .done }
  | .done | .cancelled => none

/-- `written` is whether the agent's stdin takes the line. -/
def writerStep (written : Bool) : Option (AcpClient Value) :=
  match s.writer with
  | .recv =>
    match s.queue with
    | [] => none
    | .line text :: queue => some { s with queue := queue, writer := .write text }
    | .shutdown :: queue => some { s with queue := queue, writer := .closeStdin }
  | .write _ => some { s with writer := if written then .recv else .storeClosed true }
  | .closeStdin => some { s with writer := .storeClosed false }
  | .storeClosed cleanup => some
    { s with connected := false, writer := if cleanup then .takeChild else .done }
  | .takeChild => some { s.killChild with writer := if s.slot then .waitChild else .done }
  | .waitChild => some { s with writer := .done }
  | .done | .cancelled => none

/-- `exited` is what `try_wait` finds: an exit or an error, or neither. -/
def waitStep (exited : Bool) : Option (AcpClient Value) :=
  match s.wait with
  | .tryWait => some { s with wait := if s.slot && !exited then .sleep else .storeClosed }
  | .sleep => some { s with wait := .tryWait }
  | .storeClosed => some { s with connected := false, wait := .takeChild }
  | .takeChild => some { s.killChild with wait := if s.slot then .waitChild else .done }
  | .waitChild => some { s with wait := .done }
  | .done | .cancelled => none

/-- Put a message into the writer's channel, which has room. -/
def post (msg : WriterMsg) : Option (AcpClient Value) :=
  if s.writerOpen && decide (s.queue.length < writerCapacity) then
    some { s with queue := s.queue ++ [msg] }
  else none

end AcpClient

inductive TerminatePc
  | store
  | startKill
  | returned
  deriving DecidableEq, Repr

inductive ShutdownPc
  | callbacks
  | store
  | trySend
  | kill
  | waitKill
  | takeHandle (task : TaskName) (taken : List TaskName)
  | abort (taken : List TaskName)
  | join (task : TaskName) (taken : List TaskName)
  | killAgain (taken : List TaskName)
  | waitKillAgain (taken : List TaskName)
  | failPending
  | returned
  | dropped
  deriving DecidableEq, Repr

def ShutdownPc.afterTake (taken : List TaskName) : TaskName → ShutdownPc
  | .writer => .takeHandle .reader taken
  | .reader => .takeHandle .stderr taken
  | .stderr => .takeHandle .wait taken
  | .wait => .abort taken

def ShutdownPc.afterJoin (taken : List TaskName) : TaskName → ShutdownPc
  | .wait => .killAgain taken
  | .writer => .join .reader taken
  | .reader => .join .stderr taken
  | .stderr => .failPending

section Steps
variable {Value : Type}

def terminateStep (s : AcpClient Value) : TerminatePc → Option (AcpClient Value × TerminatePc)
  | .store => some ({ s with connected := false }, .startKill)
  | .startKill => some ({ s with killed := s.killed || s.slot }, .returned)
  | .returned => none

def shutdownStep (s : AcpClient Value) : ShutdownPc → Option (AcpClient Value × ShutdownPc)
  | .callbacks => some (s, .store)
  | .store => some ({ s with connected := false }, .trySend)
  | .trySend => some ((s.post .shutdown).getD s, .kill)
  | .kill => some (s.killChild, if s.slot then .waitKill else .takeHandle .writer [])
  | .waitKill => some (s, .takeHandle .writer [])
  | .takeHandle task taken => some
    ({ s with handles := s.handles.erase task },
      .afterTake (if task ∈ s.handles then taken ++ [task] else taken) task)
  | .abort taken => some ({ s with aborted := s.aborted ++ taken }, .join .wait taken)
  | .join task taken =>
    if task ∉ taken ∨ s.finished task then some (s, .afterJoin taken task) else none
  | .killAgain taken =>
    some (s.killChild, if s.slot then .waitKillAgain taken else .join .writer taken)
  | .waitKillAgain taken => some (s, .join .writer taken)
  | .failPending => some (s.failPending .clientShutdown, .returned)
  | .returned | .dropped => none

/-- One step of the call `i` of `send_request`; `line` is what `to_string` makes
of its message. -/
def callStep (i : ℕ) (s : AcpClient Value) (c : RequestCall Value) (line : Except String String) :
    Option (AcpClient Value × RequestCall Value) :=
  match c.pc, c.id with
  | .check, _ =>
    if s.connected then some (s, { c with pc := .fetchAdd })
    else some (s, { c with pc := .returned (.err .connectionClosed) })
  | .fetchAdd, _ => some ({ s with nextId := s.nextId + 1 }, ⟨some s.nextId, .serialize⟩)
  | .serialize, _ =>
    match line with
    | .ok line => some (s, { c with pc := .insert line })
    | .error message => some (s, { c with pc := .returned (.err (.notSerialized message)) })
  | .insert line, some id =>
    some ({ s with pending := s.pending.insert id i }, { c with pc := .recheck line })
  | .recheck line, _ =>
    if s.connected then some (s, { c with pc := .sendLine line })
    else some (s, { c with pc := .removeClosed })
  | .removeClosed, some id => some
    ({ s with pending := s.pending.resolve id (.err .connectionClosed) },
      { c with pc := .returned (.err .connectionClosed) })
  | .sendLine line, _ =>
    if s.writerOpen then (s.post (.line line)).map fun s => (s, { c with pc := .awaitResponse })
    else some (s, { c with pc := .removeUnsent })
  | .removeUnsent, some id => some
    ({ s with pending := s.pending.remove id }, { c with pc := .returned (.err .writerClosed) })
  | .awaitResponse, _ =>
    match s.pending.poll i with
    | .empty => none
    | .ready result => some (s, { c with pc := .returned result })
    | .closed => some (s, { c with pc := .returned (.err .responseDropped) })
  | _, _ => none

end Steps

structure Sys (Value : Type) where
  client : AcpClient Value
  calls : List (RequestCall Value)
  terminates : List TerminatePc
  shutdowns : List ShutdownPc
  deriving DecidableEq, Repr

inductive Action (Value : Type)
  | call
  | callStep (i : ℕ) (line : Except String String)
  | dropCall (i : ℕ)
  | post (text : String)
  | line (l : Line Value)
  | readerStep
  | writerStep (written : Bool)
  | waitStep (exited : Bool)
  | stderrEnds
  | cancel (task : TaskName)
  | terminate
  | terminateStep (k : ℕ)
  | shutdown
  | shutdownStep (k : ℕ)
  | dropShutdown (k : ℕ)

namespace CallPc
variable {Value : Type}

def finished : CallPc Value → Bool
  | .returned _ | .dropped _ => true
  | _ => false

def atAwait : CallPc Value → Bool
  | .insert _ | .removeClosed | .sendLine _ | .removeUnsent | .awaitResponse => true
  | _ => false

def early : CallPc Value → Bool
  | .check | .fetchAdd | .serialize | .insert _ => true
  | _ => false

def drawing : CallPc Value → Bool
  | .check | .fetchAdd => true
  | _ => false

def numbered : CallPc Value → Bool
  | .check | .fetchAdd | .returned _ | .dropped _ => false
  | _ => true

def waiting : CallPc Value → Bool
  | .recheck _ | .removeClosed | .sendLine _ | .removeUnsent | .awaitResponse => true
  | _ => false

def entered : CallPc Value → Bool
  | .dropped place => place.entered
  | pc => pc.waiting

end CallPc

def ShutdownPc.atAwait : ShutdownPc → Bool
  | .store | .trySend | .abort _ | .returned | .dropped => false
  | _ => true

namespace Sys
variable {Value : Type}

def new (agent : String) : Sys Value := ⟨.spawn agent, [], [], []⟩

/-- The receiver of call `i` is still there: `!tx.is_closed()`. -/
def listening (s : Sys Value) (i : ℕ) : Bool :=
  match s.calls[i]? with
  | some c => !c.pc.finished
  | none => false

def handle (null : Value) (s : Sys Value) (l : Line Value) : AcpClient Value :=
  match l.response null with
  | none => s.client
  | some (id, result) =>
    { s.client with pending := (s.client.pending.retain s.listening).resolve id result }

def step (null : Value) (s : Sys Value) : Action Value → Option (Sys Value)
  | .call => some
    { s with
      client := { s.client with pending := s.client.pending.openChannel }
      calls := s.calls ++ [⟨none, .check⟩] }
  | .callStep i line =>
    match s.calls[i]? with
    | none => none
    | some c =>
      match Client.callStep i s.client c line with
      | none => none
      | some (client, c') => some { s with client := client, calls := s.calls.set i c' }
  | .dropCall i =>
    match s.calls[i]? with
    | none => none
    | some c =>
      if c.pc.atAwait then
        some { s with calls := s.calls.set i { c with pc := .dropped c.pc } }
      else none
  | .post text => (s.client.post (.line text)).map fun client => { s with client := client }
  | .line l =>
    if s.client.reader = .reading then some { s with client := s.handle null l } else none
  | .readerStep => s.client.readerStep.map fun client => { s with client := client }
  | .writerStep written => (s.client.writerStep written).map fun client => { s with client := client }
  | .waitStep exited => (s.client.waitStep exited).map fun client => { s with client := client }
  | .stderrEnds =>
    if s.client.stderr = .reading then
      some { s with client := { s.client with stderr := .done } }
    else none
  | .cancel task =>
    if task ∈ s.client.aborted ∧ s.client.atAwait task then
      some { s with client := s.client.cancel task }
    else none
  | .terminate => some { s with terminates := s.terminates ++ [.store] }
  | .terminateStep k =>
    match s.terminates[k]? with
    | none => none
    | some pc =>
      match Client.terminateStep s.client pc with
      | none => none
      | some (client, pc') =>
        some { s with client := client, terminates := s.terminates.set k pc' }
  | .shutdown => some { s with shutdowns := s.shutdowns ++ [.callbacks] }
  | .shutdownStep k =>
    match s.shutdowns[k]? with
    | none => none
    | some pc =>
      match Client.shutdownStep s.client pc with
      | none => none
      | some (client, pc') => some { s with client := client, shutdowns := s.shutdowns.set k pc' }
  | .dropShutdown k =>
    match s.shutdowns[k]? with
    | none => none
    | some pc =>
      if pc.atAwait then some { s with shutdowns := s.shutdowns.set k .dropped } else none

end Sys

section Effects
variable {Value : Type} {null : Value} {s s' : Sys Value} {i k : ℕ}

inductive Effect (null : Value) (s : Sys Value) : Action Value → Sys Value → Prop
  | quiet (a : Action Value) {s' : Sys Value} (hcalls : s'.calls = s.calls)
      (hpending : s'.client.pending = s.client.pending)
      (hnext : s'.client.nextId = s.client.nextId) : Effect null s a s'
  | call : Effect null s .call
      { s with
        client := { s.client with pending := s.client.pending.openChannel }
        calls := s.calls ++ [⟨none, .check⟩] }
  | own {i : ℕ} {line : Except String String} {c c' : RequestCall Value}
      {client : AcpClient Value} (hc : s.calls[i]? = some c)
      (hs : callStep i s.client c line = some (client, c')) :
      Effect null s (.callStep i line) { s with client := client, calls := s.calls.set i c' }
  | dropped {i : ℕ} {c : RequestCall Value} (hc : s.calls[i]? = some c)
      (hat : c.pc.atAwait = true) :
      Effect null s (.dropCall i) { s with calls := s.calls.set i { c with pc := .dropped c.pc } }
  | line (l : Line Value) :
      Effect null s (.line l) { s with client := s.handle null l }
  | drained (a : Action Value) {s' : Sys Value} {error : RequestError}
      (hcalls : s'.calls = s.calls) (hnext : s'.client.nextId = s.client.nextId)
      (hpending : s'.client.pending = s.client.pending.drain (.err error))
      (herror : (ResponseResult.err error : ResponseResult Value).fromAgent = false) :
      Effect null s a s'

theorem AcpClient.post_quiet {c c' : AcpClient Value} {msg : WriterMsg}
    (h : c.post msg = some c') :
    c'.pending = c.pending ∧ c'.nextId = c.nextId ∧ c'.connected = c.connected ∧
      c'.reader = c.reader := by
  simp only [post] at h
  split at h <;> cases h
  exact ⟨rfl, rfl, rfl, rfl⟩

def Tends (c c' : AcpClient Value) : Prop :=
  c'.nextId = c.nextId ∧ (c'.pending = c.pending ∨
    ∃ error : RequestError, (ResponseResult.err error : ResponseResult Value).fromAgent = false ∧
      c'.pending = c.pending.drain (.err error))

theorem AcpClient.readerStep_tends {c c' : AcpClient Value} (h : c.readerStep = some c') :
    Tends c c' := by
  cases hr : c.reader <;> simp only [readerStep, hr] at h
  case failPending =>
    cases h
    exact ⟨rfl, .inr ⟨_, rfl, rfl⟩⟩
  all_goals
    cases h
    try exact ⟨rfl, .inl rfl⟩

theorem AcpClient.writerStep_tends {c c' : AcpClient Value} {written : Bool}
    (h : c.writerStep written = some c') : Tends c c' := by
  simp only [writerStep] at h
  repeat' split at h
  all_goals
    cases h
    try exact ⟨rfl, .inl rfl⟩

theorem AcpClient.waitStep_tends {c c' : AcpClient Value} {exited : Bool}
    (h : c.waitStep exited = some c') : Tends c c' := by
  simp only [waitStep] at h
  split at h <;> cases h <;> exact ⟨rfl, .inl rfl⟩

theorem terminateStep_tends {c c' : AcpClient Value} {pc pc' : TerminatePc}
    (h : terminateStep c pc = some (c', pc')) : Tends c c' := by
  cases pc <;> cases h <;> exact ⟨rfl, .inl rfl⟩

theorem shutdownStep_tends {c c' : AcpClient Value} {pc pc' : ShutdownPc}
    (h : shutdownStep c pc = some (c', pc')) : Tends c c' := by
  cases pc <;> simp only [shutdownStep] at h
  case trySend =>
    cases h
    cases hp : c.post .shutdown with
    | none => exact ⟨rfl, .inl rfl⟩
    | some d =>
      obtain ⟨hpending, hnext, -⟩ := AcpClient.post_quiet hp
      exact ⟨hnext, .inl hpending⟩
  case join =>
    split at h <;> cases h
    exact ⟨rfl, .inl rfl⟩
  case failPending =>
    cases h
    exact ⟨rfl, .inr ⟨_, rfl, rfl⟩⟩
  all_goals
    cases h
    try exact ⟨rfl, .inl rfl⟩

theorem Tends.effect {a : Action Value} (hcalls : s'.calls = s.calls)
    (h : Tends s.client s'.client) : Effect null s a s' := by
  obtain ⟨hnext, hpending | ⟨error, herror, hpending⟩⟩ := h
  · exact .quiet a hcalls hpending hnext
  · exact .drained a hcalls hnext hpending herror

inductive TaskStep (c : AcpClient Value) : Action Value → AcpClient Value → Prop
  | post {text : String} {c' : AcpClient Value} (h : c.post (.line text) = some c') :
      TaskStep c (.post text) c'
  | reader {c' : AcpClient Value} (h : c.readerStep = some c') : TaskStep c .readerStep c'
  | writer {written : Bool} {c' : AcpClient Value} (h : c.writerStep written = some c') :
      TaskStep c (.writerStep written) c'
  | wait {exited : Bool} {c' : AcpClient Value} (h : c.waitStep exited = some c') :
      TaskStep c (.waitStep exited) c'
  | stderrEnds (hreading : c.stderr = .reading) : TaskStep c .stderrEnds { c with stderr := .done }
  | cancel {task : TaskName} (haborted : task ∈ c.aborted) (hat : c.atAwait task = true) :
      TaskStep c (.cancel task) (c.cancel task)

inductive Takes (null : Value) (s : Sys Value) : Action Value → Sys Value → Prop
  | task {a : Action Value} {client : AcpClient Value} (h : TaskStep s.client a client) :
      Takes null s a { s with client := client }
  | call : Takes null s .call
      { s with
        client := { s.client with pending := s.client.pending.openChannel }
        calls := s.calls ++ [⟨none, .check⟩] }
  | callStep {i : ℕ} {line : Except String String} {c c' : RequestCall Value}
      {client : AcpClient Value} (hc : s.calls[i]? = some c)
      (hs : callStep i s.client c line = some (client, c')) :
      Takes null s (.callStep i line) { s with client := client, calls := s.calls.set i c' }
  | dropCall {i : ℕ} {c : RequestCall Value} (hc : s.calls[i]? = some c)
      (hat : c.pc.atAwait = true) :
      Takes null s (.dropCall i) { s with calls := s.calls.set i { c with pc := .dropped c.pc } }
  | line (l : Line Value) (hreading : s.client.reader = .reading) :
      Takes null s (.line l) { s with client := s.handle null l }
  | terminate : Takes null s .terminate { s with terminates := s.terminates ++ [.store] }
  | terminateStep {k : ℕ} {pc pc' : TerminatePc} {client : AcpClient Value}
      (hk : s.terminates[k]? = some pc) (hs : terminateStep s.client pc = some (client, pc')) :
      Takes null s (.terminateStep k)
        { s with client := client, terminates := s.terminates.set k pc' }
  | shutdown : Takes null s .shutdown { s with shutdowns := s.shutdowns ++ [.callbacks] }
  | shutdownStep {k : ℕ} {pc pc' : ShutdownPc} {client : AcpClient Value}
      (hk : s.shutdowns[k]? = some pc) (hs : shutdownStep s.client pc = some (client, pc')) :
      Takes null s (.shutdownStep k) { s with client := client, shutdowns := s.shutdowns.set k pc' }
  | dropShutdown {k : ℕ} {pc : ShutdownPc} (hk : s.shutdowns[k]? = some pc)
      (hat : pc.atAwait = true) :
      Takes null s (.dropShutdown k) { s with shutdowns := s.shutdowns.set k .dropped }

theorem step_takes {a : Action Value} (h : s.step null a = some s') : Takes null s a s' := by
  cases a <;> simp only [Sys.step] at h
  case call =>
    cases h
    exact .call
  case callStep i line =>
    split at h
    · cases h
    · next c hc =>
      split at h
      · cases h
      · next client c' hs =>
        cases h
        exact .callStep hc hs
  case dropCall i =>
    split at h
    · cases h
    · next c hc =>
      split at h
      · next hat =>
        cases h
        exact .dropCall hc hat
      · cases h
  case line l =>
    split at h
    · next hreading =>
      cases h
      exact .line l hreading
    · cases h
  case post text =>
    obtain ⟨client, hs, rfl⟩ := Option.map_eq_some_iff.mp h
    exact .task (.post hs)
  case readerStep =>
    obtain ⟨client, hs, rfl⟩ := Option.map_eq_some_iff.mp h
    exact .task (.reader hs)
  case writerStep written =>
    obtain ⟨client, hs, rfl⟩ := Option.map_eq_some_iff.mp h
    exact .task (.writer hs)
  case waitStep exited =>
    obtain ⟨client, hs, rfl⟩ := Option.map_eq_some_iff.mp h
    exact .task (.wait hs)
  case stderrEnds =>
    split at h
    · next hreading =>
      cases h
      exact .task (.stderrEnds hreading)
    · cases h
  case cancel task =>
    split at h
    · next hcancel =>
      cases h
      exact .task (.cancel hcancel.1 hcancel.2)
    · cases h
  case terminate =>
    cases h
    exact .terminate
  case terminateStep k =>
    split at h
    · cases h
    · next pc hk =>
      split at h
      · cases h
      · next client pc' hs =>
        cases h
        exact .terminateStep hk hs
  case shutdown =>
    cases h
    exact .shutdown
  case shutdownStep k =>
    split at h
    · cases h
    · next pc hk =>
      split at h
      · cases h
      · next client pc' hs =>
        cases h
        exact .shutdownStep hk hs
  case dropShutdown k =>
    split at h
    · cases h
    · next pc hk =>
      split at h
      · next hat =>
        cases h
        exact .dropShutdown hk hat
      · cases h

theorem Sys.step_line {l : Line Value} (h : s.step null (.line l) = some s') :
    s.client.reader = .reading ∧ s' = { s with client := s.handle null l } := by
  cases step_takes h with
  | task htask => cases htask
  | line _ hreading => exact ⟨hreading, rfl⟩

theorem Sys.step_callStep {line : Except String String}
    (h : s.step null (.callStep i line) = some s') :
    ∃ c client c', s.calls[i]? = some c ∧ callStep i s.client c line = some (client, c') ∧
      s' = { s with client := client, calls := s.calls.set i c' } := by
  cases step_takes h with
  | task htask => cases htask
  | callStep hc hs => exact ⟨_, _, _, hc, hs, rfl⟩

theorem TaskStep.tends {c c' : AcpClient Value} {a : Action Value} (h : TaskStep c a c') :
    Tends c c' := by
  cases h with
  | post hpost =>
    obtain ⟨hpending, hnext, -⟩ := AcpClient.post_quiet hpost
    exact ⟨hnext, .inl hpending⟩
  | reader hs => exact AcpClient.readerStep_tends hs
  | writer hs => exact AcpClient.writerStep_tends hs
  | wait hs => exact AcpClient.waitStep_tends hs
  | stderrEnds => exact ⟨rfl, .inl rfl⟩
  | @cancel task => cases task <;> exact ⟨rfl, .inl rfl⟩

theorem step_effect {a : Action Value} (h : s.step null a = some s') : Effect null s a s' := by
  cases step_takes h with
  | task htask => exact htask.tends.effect rfl
  | call => exact .call
  | callStep hc hs => exact .own hc hs
  | dropCall hc hat => exact .dropped hc hat
  | line l => exact .line l
  | terminate | shutdown | dropShutdown => exact .quiet _ rfl rfl rfl
  | terminateStep _ hs => exact (terminateStep_tends hs).effect rfl
  | shutdownStep _ hs => exact (shutdownStep_tends hs).effect rfl

/-- How a step moves its own call: on without touching the table, with a fresh
id, into the table, out of it, or to its end. -/
inductive CallMove (i : ℕ) (s : AcpClient Value) (c : RequestCall Value) :
    AcpClient Value → RequestCall Value → Prop
  | on {client : AcpClient Value} {pc : CallPc Value} (hpending : client.pending = s.pending)
      (hnext : client.nextId = s.nextId) (hearly : pc.early = true → c.pc.early = true)
      (hdrawing : pc.drawing = true → c.pc.drawing = true)
      (hnumbered : pc.numbered = true → c.pc.numbered = true) (hwaiting : pc.waiting = c.pc.waiting)
      (hentered : pc.entered = c.pc.entered) (hown : ∀ r, pc = .returned r → r.fromAgent = false) :
      CallMove i s c client { c with pc := pc }
  | drew (hpc : c.pc = .fetchAdd) :
      CallMove i s c { s with nextId := s.nextId + 1 } ⟨some s.nextId, .serialize⟩
  | inserted {id : ℤ} {line : String} (hpc : c.pc = .insert line) (hid : c.id = some id) :
      CallMove i s c { s with pending := s.pending.insert id i } { c with pc := .recheck line }
  | failed {id : ℤ} (hpc : c.pc = .removeClosed) (hid : c.id = some id) :
      CallMove i s c { s with pending := s.pending.resolve id (.err .connectionClosed) }
        { c with pc := .returned (.err .connectionClosed) }
  | removed {id : ℤ} (hpc : c.pc = .removeUnsent) (hid : c.id = some id) :
      CallMove i s c { s with pending := s.pending.remove id }
        { c with pc := .returned (.err .writerClosed) }
  | received {r : ResponseResult Value} (hpc : c.pc = .awaitResponse)
      (hr : s.pending.Answered i r) : CallMove i s c s { c with pc := .returned r }
  | orphaned (hpc : c.pc = .awaitResponse) (hno : ∀ id, (id, i) ∉ s.pending.entries) :
      CallMove i s c s { c with pc := .returned (.err .responseDropped) }

theorem callStep_move {c c' : AcpClient Value} {q q' : RequestCall Value}
    {line : Except String String} (h : callStep i c q line = some (c', q')) :
    CallMove i c q c' q' := by
  obtain ⟨id, pc⟩ := q
  cases pc <;> cases id <;> simp only [callStep] at h
  case fetchAdd.none | fetchAdd.some =>
    cases h
    exact .drew rfl
  case insert.some =>
    cases h
    exact .inserted rfl rfl
  case removeClosed.some =>
    cases h
    exact .failed rfl rfl
  case removeUnsent.some =>
    cases h
    exact .removed rfl rfl
  case sendLine.none | sendLine.some =>
    split at h
    · obtain ⟨d, hp, hd⟩ := Option.map_eq_some_iff.mp h
      cases hd
      obtain ⟨hpending, hnext, -⟩ := AcpClient.post_quiet hp
      exact .on hpending hnext nofun nofun id rfl rfl nofun
    · cases h
      exact .on rfl rfl nofun nofun id rfl rfl nofun
  case awaitResponse.none | awaitResponse.some =>
    split at h
    · cases h
    · next r hr =>
      cases h
      exact .received rfl (Pending.poll_ready.mp hr)
    · next hclosed =>
      cases h
      exact .orphaned rfl (Pending.poll_closed.mp hclosed).2
  case check.none | check.some | serialize.none | serialize.some | recheck.none | recheck.some =>
    split at h <;> cases h
    all_goals
      refine .on rfl rfl ?_ ?_ ?_ rfl rfl ?_
      · intro he
        first
          | rfl
          | cases he
      · intro hd
        first
          | rfl
          | cases hd
      · intro hn
        first
          | rfl
          | cases hn
      · intro r hr
        cases hr
        try rfl
  all_goals cases h

theorem callStep_unfinished {c c' : AcpClient Value} {q q' : RequestCall Value}
    {line : Except String String} (h : callStep i c q line = some (c', q')) :
    q.pc.finished = false := by
  obtain ⟨id, pc⟩ := q
  cases pc
  case returned | dropped => cases id <;> cases h
  all_goals rfl

inductive CallChange (i : ℕ) (s : AcpClient Value) (c : RequestCall Value) :
    Action Value → RequestCall Value → Prop
  | kept (a : Action Value) : CallChange i s c a c
  | own {line : Except String String} {client : AcpClient Value} {c' : RequestCall Value}
      (hs : callStep i s c line = some (client, c')) : CallChange i s c (.callStep i line) c'
  | dropped (hat : c.pc.atAwait = true) :
      CallChange i s c (.dropCall i) { c with pc := .dropped c.pc }

theorem step_call {a : Action Value} {c : RequestCall Value} (h : s.step null a = some s')
    (hc : s.calls[i]? = some c) : ∃ c', s'.calls[i]? = some c' ∧ CallChange i s.client c a c' := by
  have hlt : i < s.calls.length := (List.getElem?_eq_some_iff.mp hc).1
  cases step_effect h with
  | quiet _ hcalls => exact ⟨c, by rw [hcalls, hc], .kept a⟩
  | call => exact ⟨c, by rw [List.getElem?_append_left hlt, hc], .kept _⟩
  | @own j line d d' client hd hs =>
    by_cases hji : j = i
    · subst hji
      rw [hc] at hd
      cases hd
      exact ⟨d', List.getElem?_set_self hlt, .own hs⟩
    · exact ⟨c, by rw [List.getElem?_set_ne hji, hc], .kept _⟩
  | @dropped j d hd hat =>
    by_cases hji : j = i
    · subst hji
      rw [hc] at hd
      cases hd
      exact ⟨_, List.getElem?_set_self hlt, .dropped hat⟩
    · exact ⟨c, by rw [List.getElem?_set_ne hji, hc], .kept _⟩
  | line l => exact ⟨c, hc, .kept _⟩
  | drained _ hcalls => exact ⟨c, by rw [hcalls, hc], .kept a⟩

end Effects

end Ccgonext.Client
