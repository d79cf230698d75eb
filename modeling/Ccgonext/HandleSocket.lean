import Ccgonext.WebSocket
import Ccgonext.JsonRpc
import Ccgonext.Lib.Mpsc
import Ccgonext.Lib.Runs
import Mathlib.Algebra.GroupWithZero.Nat

/-!
# A websocket connection with all its tasks

`handle_socket` of `web/websocket.rs` for a client that sends what it likes. The
receive task decodes the text frames and hands the commands to the action task
through a bounded queue; the action task does one `Subscribe` after the other,
each as in `WebSocket.Socket`, and passes answers on to the sessions. When one
of the three tasks has ended `handle_socket` returns: it drops its own handle of
the queue and leaves the other tasks running.

What the socket and the session manager answer is read from the action. `received`,
`replays` and `answers` record the commands decoded, the reads of the log and the
calls of `respond_to_permission`.
-/

namespace Ccgonext.HandleSocket
open Lib Mpsc Events EventOrder JsonRpc WebSocket

inductive ClientMessage
  | subscribe (fromSeq : ℕ)
  | prompt (sessionId text : String)
  | cancel (sessionId : String)
  | permissionResponse (sessionId id : String) (granted : Bool)
  deriving DecidableEq, Repr

/-- A number that `serde_json` reads as a `u64`: digits alone, and not too large. -/
def asU64 : Json → Option ℕ
  | .number text =>
    let digits := text.toList
    let n := Nat.ofDigitChars 10 digits 0
    if !digits.isEmpty && digits.all Char.isDigit && n < 2 ^ 64 then some n else none
  | _ => none

def asBool : Json → Option Bool
  | .bool b => some b
  | _ => none

def ClientMessage.ofFields (tag : String) (fields : List (String × Json)) :
    Option ClientMessage :=
  match tag with
  | "subscribe" => do
    match ← optionalField fields "from_seq" with
    | none => return .subscribe 0
    | some fromSeq => return .subscribe (← asU64 fromSeq)
  | "prompt" => do
    let sessionId ← (← field fields "session_id").asString
    let text ← (← field fields "text").asString
    return .prompt sessionId text
  | "cancel" => do
    let sessionId ← (← field fields "session_id").asString
    return .cancel sessionId
  | "permission_response" => do
    let sessionId ← (← field fields "session_id").asString
    let id ← (← field fields "id").asString
    let granted ← asBool (← field fields "granted")
    return .permissionResponse sessionId id granted
  | _ => none

/-- An internally tagged enum takes an array as well, the tag first. -/
def ClientMessage.ofItems (tag : String) (items : List Json) : Option ClientMessage :=
  match tag, items with
  | "subscribe", [] => some (.subscribe 0)
  | "subscribe", [fromSeq] => (asU64 fromSeq).map .subscribe
  | "prompt", [.string sessionId, .string text] => some (.prompt sessionId text)
  | "cancel", [.string sessionId] => some (.cancel sessionId)
  | "permission_response", [.string sessionId, .string id, .bool granted] =>
    some (.permissionResponse sessionId id granted)
  | _, _ => none

def ClientMessage.deserialize : Json → Option ClientMessage
  | .object fields =>
    match field fields "type" with
    | some (.string tag) => ofFields tag fields
    | _ => none
  | .array (.string tag :: items) => ofItems tag items
  | _ => none

/-- What `receiver.next()` gives: `other` is a ping, a pong or a binary message,
`failed` an error and `finished` the end of the stream. -/
inductive Frame
  | text (text : List Char)
  | close
  | other
  | failed
  | finished
  deriving DecidableEq, Repr

def commandOf (parse : List Char → Option Json) : Frame → Option ClientMessage
  | .text text => (parse text).bind ClientMessage.deserialize
  | _ => none

inductive RecvPc
  | next
  | send (cmd : ClientMessage)
  | ended
  deriving DecidableEq, Repr

structure PermissionResponse where
  sessionId : String
  id : String
  granted : Bool
  deriving DecidableEq, Repr

inductive Answering
  | getById (r : PermissionResponse)
  | respond (r : PermissionResponse)
  deriving DecidableEq, Repr

/-- One call of `replay_from`: the bound it was given, the `min_seq` it loaded and
the log it read. -/
structure Replay where
  fromSeq : ℕ
  min : ℕ
  log : EventLog
  deriving DecidableEq, Repr

def Replay.result (r : Replay) : ReplayResult := r.log.replayFrom r.min r.fromSeq

structure Connection where
  socket : Socket
  actions : Queue ClientMessage
  recvPc : RecvPc
  answering : Option Answering
  returned : Bool
  received : List ClientMessage
  replays : List Replay
  answers : List PermissionResponse
  deriving DecidableEq, Repr

/-- `handle_socket` up to its `select!`: two handles of the queue, one of which
the receive task has. -/
def connect (h : History) : Connection where
  socket := WebSocket.connect h 0
  actions := .new 32 2
  recvPc := .next
  answering := none
  returned := false
  received := []
  replays := []
  answers := []

inductive Action
  | log (a : LogAction)
  | sendTask (sent : Bool)
  | frame (f : Frame)
  | recvTask
  | actionTask (sent found : Bool)
  | finish
  deriving DecidableEq, Repr

namespace Connection

def endRecv (c : Connection) : Connection :=
  { c with recvPc := .ended, actions := c.actions.dropSender }

def frameStep (parse : List Char → Option Json) (c : Connection) (f : Frame) :
    Option Connection :=
  match c.recvPc with
  | .next =>
    match f with
    | .text text =>
      match commandOf parse (.text text) with
      | some cmd => some { c with recvPc := .send cmd, received := c.received ++ [cmd] }
      | none => some c
    | .other => some c
    | .close | .failed | .finished => some c.endRecv
  | _ => none

def recvStep (c : Connection) : Option Connection :=
  match c.recvPc with
  | .send cmd =>
    match c.actions.send cmd with
    | .queued actions => some { c with actions := actions, recvPc := .next }
    | .full => none
    | .closed => some c.endRecv
  | _ => none

def idle (c : Connection) : Bool :=
  c.answering.isNone && (c.socket.actionPc = .recv || c.socket.actionPc = .done)

def handle (c : Connection) : ClientMessage → Connection
  | .subscribe fromSeq =>
    { c with socket := { c.socket with fromSeq := fromSeq, actionPc := .loadMin } }
  | .permissionResponse sessionId id granted =>
    { c with answering := some (.getById ⟨sessionId, id, granted⟩) }
  | .prompt .. | .cancel .. => c

def endAction (c : Connection) : Connection :=
  { c with
    socket := { c.socket with actionPc := .ended }
    actions := c.actions.dropReader }

def answerStep (c : Connection) (found : Bool) : Answering → Connection
  | .getById r => { c with answering := if found then some (.respond r) else none }
  | .respond r => { c with answering := none, answers := c.answers ++ [r] }

def reads (c : Connection) : List Replay :=
  match c.socket.actionPc with
  | .read min => [⟨c.socket.fromSeq, min, c.socket.hist.log⟩]
  | _ => []

/-- A `Subscribe` goes on; a failed send ends the task, which drops the queue. -/
def replayStep (c : Connection) (sent : Bool) : Option Connection :=
  (c.socket.actionStep sent).map fun socket =>
    { c with
      socket := socket
      replays := c.replays ++ c.reads
      actions := if socket.actionPc = .ended then c.actions.dropReader else c.actions }

def actionStep (c : Connection) (sent found : Bool) : Option Connection :=
  match c.answering with
  | some answering => some (c.answerStep found answering)
  | none =>
    if c.idle then
      match c.actions.recv with
      | .value cmd actions => some ({ c with actions := actions }.handle cmd)
      | .empty => none
      | .disconnected => some c.endAction
    else c.replayStep sent

def anyEnded (c : Connection) : Bool :=
  c.socket.sendPc = .ended || c.recvPc = .ended || c.socket.actionPc = .ended

def finish (c : Connection) : Option Connection :=
  if c.anyEnded && !c.returned then
    some { c with returned := true, actions := c.actions.dropSender }
  else none

def step (parse : List Char → Option Json) (c : Connection) : Action → Option Connection
  | .log a => (c.socket.step (.log a)).map fun socket => { c with socket := socket }
  | .sendTask sent => (c.socket.sendStep sent).map fun socket => { c with socket := socket }
  | .frame f => c.frameStep parse f
  | .recvTask => c.recvStep
  | .actionTask sent found => c.actionStep sent found
  | .finish => c.finish

end Connection

section Cases
variable {parse : List Char → Option Json} {c c' : Connection} {a : Action}

inductive Moved (parse : List Char → Option Json) (c : Connection) : Action → Connection → Prop
  | log (a : LogAction) (w : Socket) (h : c.socket.step (.log a) = some w) :
    Moved parse c (.log a) { c with socket := w }
  | sent (sent : Bool) (w : Socket) (h : c.socket.sendStep sent = some w) :
    Moved parse c (.sendTask sent) { c with socket := w }
  | skipped (f : Frame) (h : commandOf parse f = none) : Moved parse c (.frame f) c
  | received (f : Frame) (cmd : ClientMessage) (hpc : c.recvPc = .next)
      (h : commandOf parse f = some cmd) :
    Moved parse c (.frame f) { c with recvPc := .send cmd, received := c.received ++ [cmd] }
  | gone (f : Frame) (hpc : c.recvPc = .next) (h : commandOf parse f = none) :
    Moved parse c (.frame f) c.endRecv
  | queued (cmd : ClientMessage) (actions : Queue ClientMessage) (hpc : c.recvPc = .send cmd)
      (h : c.actions.send cmd = .queued actions) :
    Moved parse c .recvTask { c with actions := actions, recvPc := .next }
  | refused (cmd : ClientMessage) (hpc : c.recvPc = .send cmd)
      (h : c.actions.send cmd = .closed) : Moved parse c .recvTask c.endRecv
  | answered (sent found : Bool) (answering : Answering) (h : c.answering = some answering) :
    Moved parse c (.actionTask sent found) (c.answerStep found answering)
  | took (sent found : Bool) (cmd : ClientMessage) (actions : Queue ClientMessage)
      (hans : c.answering = none) (hidle : c.idle = true)
      (h : c.actions.recv = .value cmd actions) :
    Moved parse c (.actionTask sent found) ({ c with actions := actions }.handle cmd)
  | drained (sent found : Bool) (hans : c.answering = none) (hidle : c.idle = true)
      (h : c.actions.recv = .disconnected) : Moved parse c (.actionTask sent found) c.endAction
  | replayed (sent found : Bool) (w : Socket) (hans : c.answering = none)
      (hidle : c.idle = false) (h : c.socket.actionStep sent = some w) :
    Moved parse c (.actionTask sent found)
      { c with
        socket := w
        replays := c.replays ++ c.reads
        actions := if w.actionPc = .ended then c.actions.dropReader else c.actions }
  | finished (hend : c.anyEnded = true) (h : c.returned = false) :
    Moved parse c .finish { c with returned := true, actions := c.actions.dropSender }

theorem frameStep_moved {f : Frame} (h : c.frameStep parse f = some c') :
    Moved parse c (.frame f) c' := by
  unfold Connection.frameStep at h
  split at h
  · next hpc =>
    split at h
    · next text =>
      split at h
      · next cmd hcmd =>
        cases h
        exact .received _ cmd hpc hcmd
      · next hcmd =>
        cases h
        exact .skipped _ hcmd
    · cases h
      exact .skipped _ rfl
    · cases h
      exact .gone _ hpc rfl
    · cases h
      exact .gone _ hpc rfl
    · cases h
      exact .gone _ hpc rfl
  · cases h

theorem recvStep_moved (h : c.recvStep = some c') : Moved parse c .recvTask c' := by
  unfold Connection.recvStep at h
  split at h
  · next cmd hpc =>
    split at h
    · next actions hsend =>
      cases h
      exact .queued cmd actions hpc hsend
    · cases h
    · next hsend =>
      cases h
      exact .refused cmd hpc hsend
  · cases h

theorem actionStep_moved {sent found : Bool} (h : c.actionStep sent found = some c') :
    Moved parse c (.actionTask sent found) c' := by
  unfold Connection.actionStep at h
  split at h
  · next answering hans =>
    cases h
    exact .answered sent found answering hans
  · next hans =>
    split at h
    · next hidle =>
      split at h
      · next cmd actions hrecv =>
        cases h
        exact .took sent found cmd actions hans hidle hrecv
      · cases h
      · next hrecv =>
        cases h
        exact .drained sent found hans hidle hrecv
    · next hidle =>
      simp only [Connection.replayStep, Option.map_eq_some_iff] at h
      obtain ⟨w, hw, rfl⟩ := h
      exact .replayed sent found w hans (eq_false_of_ne_true hidle) hw

theorem step_moved (h : c.step parse a = some c') : Moved parse c a c' := by
  cases a with
  | log a =>
    simp only [Connection.step, Option.map_eq_some_iff] at h
    obtain ⟨w, hw, rfl⟩ := h
    exact .log a w hw
  | sendTask sent =>
    simp only [Connection.step, Option.map_eq_some_iff] at h
    obtain ⟨w, hw, rfl⟩ := h
    exact .sent sent w hw
  | frame f => exact frameStep_moved h
  | recvTask => exact recvStep_moved h
  | actionTask sent found => exact actionStep_moved h
  | finish =>
    simp only [Connection.step, Connection.finish] at h
    split at h
    · next hend =>
      cases h
      simp only [Bool.and_eq_true, Bool.not_eq_true'] at hend
      exact .finished hend.1 hend.2
    · cases h

end Cases

def commands (parse : List Char → Option Json) : List Action → List ClientMessage
  | [] => []
  | .frame f :: acts => (commandOf parse f).toList ++ commands parse acts
  | _ :: acts => commands parse acts

end Ccgonext.HandleSocket
