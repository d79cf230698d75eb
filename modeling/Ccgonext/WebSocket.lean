import Ccgonext.SerialLog

/-!
# One websocket connection

`handle_socket` of `web/websocket.rs` for a client that sends one `Subscribe`.
The send task waits until the replay has started and then forwards what its
receiver of the log's channel hands it; the action task replays the log first.
They share the socket behind a mutex, `replay_seq`, `replay_started` and a
`Notify`. A future made by `notified` ends with the first call of
`notify_waiters` after it was made, so it is the number of calls made before.

The result of a socket send is read from the action. `retained` and `mark` are
what the log held, and how much had been pushed to it, when `replay_from` read
it, and `replay` is what it returned.
-/

namespace Ccgonext.WebSocket
open Lib Broadcast Events EventOrder

inductive Message
  | event (event : SessionEvent)
  | replayGap (oldestAvailableSeq requestedSeq : ℕ)
  deriving DecidableEq, Repr

def eventsOf : List Message → List SessionEvent
  | [] => []
  | .event event :: messages => event :: eventsOf messages
  | .replayGap .. :: messages => eventsOf messages

theorem eventsOf_append (l l' : List Message) :
    eventsOf (l ++ l') = eventsOf l ++ eventsOf l' := by
  induction l with
  | nil => rfl
  | cons message l ih =>
    cases message with
    | event event => simp only [List.cons_append, eventsOf, ih]
    | replayGap oldest requested => simp only [List.cons_append, eventsOf, ih]

inductive Task
  | sendTask
  | actionTask
  deriving DecidableEq, Repr

inductive SendPc
  | notified
  | check (seen : ℕ)
  | await (seen : ℕ)
  | recv
  | load (event : SessionEvent)
  | store (event : SessionEvent)
  | lock (event : SessionEvent)
  | send (event : SessionEvent)
  | ended
  deriving DecidableEq, Repr

inductive ActionPc
  | recv
  | loadMin
  | read (min : ℕ)
  | lock (replay : ReplayResult)
  | gap (oldest : ℕ) (events : List SessionEvent)
  | send (events : List SessionEvent) (maxReplayedSeq : ℕ)
  | storeSeq (maxReplayedSeq : ℕ)
  | storeStarted
  | notify
  | unlock
  | done
  | ended
  deriving DecidableEq, Repr

def lastSeq (events : List SessionEvent) : ℕ := (events.getLast?.map (·.seq)).getD 0

def ActionPc.locked : ReplayResult → ActionPc
  | .complete events => .send events (lastSeq events)
  | .partly events oldest => .gap oldest events

structure Socket where
  hist : History
  rx : ℕ
  fromSeq : ℕ
  sendPc : SendPc
  actionPc : ActionPc
  sender : Option Task
  replaySeq : ℕ
  replayStarted : Bool
  notifies : ℕ
  messages : List Message
  retained : List SessionEvent
  mark : ℕ
  replay : List SessionEvent
  deriving DecidableEq, Repr

def connect (h : History) (fromSeq : ℕ) : Socket where
  hist := { h with sys := { h.sys with channel := h.sys.channel.subscribe } }
  rx := h.sys.channel.receivers.length
  fromSeq := fromSeq
  sendPc := .notified
  actionPc := .recv
  sender := none
  replaySeq := 0
  replayStarted := false
  notifies := 0
  messages := []
  retained := []
  mark := 0
  replay := []

inductive Action
  | log (a : LogAction)
  | sendTask (sent : Bool)
  | actionTask (sent : Bool)
  deriving DecidableEq, Repr

namespace Socket

def sent (w : Socket) : List SessionEvent := eventsOf w.messages

def recvStep (w : Socket) : Option Socket :=
  match w.hist.receiver w.rx, w.hist.step (.recv w.rx) with
  | some r, some hist =>
    match r.recv.1 with
    | .value event => some { w with hist := hist, sendPc := .load event }
    | .lagged _ => some { w with hist := hist }
    | .empty => none
  | _, _ => none

def sendStep (w : Socket) (sent : Bool) : Option Socket :=
  match w.sendPc with
  | .notified => some { w with sendPc := .check w.notifies }
  | .check seen => some { w with sendPc := if w.replayStarted then .recv else .await seen }
  | .await seen => if seen < w.notifies then some { w with sendPc := .notified } else none
  | .recv => w.recvStep
  | .load event =>
    some { w with sendPc := if event.seq ≤ w.replaySeq then .recv else .store event }
  | .store event => some { w with replaySeq := event.seq, sendPc := .lock event }
  | .lock event =>
    match w.sender with
    | none => some { w with sender := some .sendTask, sendPc := .send event }
    | some _ => none
  | .send event =>
    if sent then
      some { w with messages := w.messages ++ [.event event], sender := none, sendPc := .recv }
    else some { w with sender := none, sendPc := .ended }
  | .ended => none

def actionStep (w : Socket) (sent : Bool) : Option Socket :=
  match w.actionPc with
  | .recv => some { w with actionPc := .loadMin }
  | .loadMin => some { w with actionPc := .read w.hist.log.minSeq }
  | .read min =>
    let replay := w.hist.log.replayFrom min w.fromSeq
    some
      { w with
        actionPc := .lock replay
        retained := w.hist.log.events
        mark := w.hist.pushed.length
        replay := replay.events }
  | .lock replay =>
    match w.sender with
    | none => some { w with sender := some .actionTask, actionPc := .locked replay }
    | some _ => none
  | .gap oldest events =>
    let gap := if sent then [.replayGap oldest w.fromSeq] else []
    some { w with messages := w.messages ++ gap, actionPc := .send events (lastSeq events) }
  | .send [] maxReplayedSeq => some { w with actionPc := .storeSeq maxReplayedSeq }
  | .send (event :: events) maxReplayedSeq =>
    if sent then
      some
        { w with
          messages := w.messages ++ [.event event]
          actionPc := .send events maxReplayedSeq }
    else some { w with sender := none, actionPc := .ended }
  | .storeSeq maxReplayedSeq =>
    some { w with replaySeq := maxReplayedSeq, actionPc := .storeStarted }
  | .storeStarted => some { w with replayStarted := true, actionPc := .notify }
  | .notify => some { w with notifies := w.notifies + 1, actionPc := .unlock }
  | .unlock => some { w with sender := none, actionPc := .done }
  | .done => none
  | .ended => none

def step (w : Socket) : Action → Option Socket
  | .log a =>
    if a = .recv w.rx then none
    else (w.hist.step a).map fun hist => { w with hist := hist }
  | .sendTask sent => w.sendStep sent
  | .actionTask sent => w.actionStep sent

/-- Appends run one at a time, the receiver keeps up and the socket works. -/
def Calm (w : Socket) : Action → Prop
  | .log a => w.hist.OneAtATime a ∧ w.hist.KeepsUp w.rx a
  | .sendTask sent | .actionTask sent => sent = true

instance (w : Socket) (a : Action) : Decidable (w.Calm a) := by
  rcases a <;> dsimp only [Calm] <;> infer_instance

def Consumed (w : Socket) : Prop :=
  w.sendPc = .recv ∧ (w.hist.receiver w.rx).all fun r => r.queue = []

instance (w : Socket) : Decidable w.Consumed := inferInstanceAs (Decidable (_ ∧ _))

/-- What the log held at the replay, and what was pushed and broadcast after it. -/
def Owed (w : Socket) (e : SessionEvent) : Prop :=
  e ∈ w.retained ∨ e ∈ w.hist.pushed.drop w.mark ∧ ⟨e, .done⟩ ∈ w.hist.sys.appends

end Socket

end Ccgonext.WebSocket
