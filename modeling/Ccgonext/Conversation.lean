import Ccgonext.Session
import Ccgonext.History
import Ccgonext.Updates
import Mathlib.Logic.Function.Basic

/-!
# A session, its readers and the shared log

The calls on one session, the reader task of every client it has spawned and
the log they share with the rest of the program. A call of `append` is one
action that draws the number, one that pushes and one that broadcasts; the task
that makes it goes on when it is done. The reader of a client runs until it is
at the end of the output or is aborted, `exited`; `client.shutdown` awaits that.
`other` stands for the other sessions and for the callback handlers. Chunks of
this session come from its readers alone.

`writers` names the task that made each append, and a `Turn` what an ask read
and when: `mark` and `responded` count the pushes before the load of `start_seq`
and before the response, `history` is what was pushed before `replay_from` took
the lock.
-/

namespace Ccgonext.Conversation
open Lib Events Session Updates

inductive Writer
  | ask (i : ℕ)
  | shutdown (j : ℕ)
  | reader (client : ClientId)
  | other
  deriving DecidableEq, Repr

structure Turn where
  start : ℕ
  mark : ℕ
  client : ClientId
  responded : Option ℕ
  min : ℕ
  history : List SessionEvent
  collected : List SessionEvent
  deriving DecidableEq, Repr

def Turn.new : Turn := ⟨0, 0, 0, none, 0, [], []⟩

structure World where
  id : String
  agent : String
  sys : Sys
  hist : History
  writers : List Writer
  exited : List ClientId
  turns : ℕ → Turn

def World.new (id agent : String) (maxEntries now : ℕ) : World :=
  ⟨id, agent, .new now, .new maxEntries, [], [], fun _ => .new⟩

def isChunk (id : String) (e : SessionEvent) : Bool :=
  e.sessionId = id ∧ e.payload.chunkText.isSome

theorem isChunk_iff {id : String} {e : SessionEvent} :
    isChunk id e = true ↔ e.sessionId = id ∧ e.payload.chunkText.isSome = true := by
  simp only [isChunk, decide_eq_true_eq]

def textOf (events : List SessionEvent) : String :=
  String.join (events.filterMap (·.payload.chunkText))

def collectMessageText (id : String) (replay : ReplayResult) : String :=
  textOf (replay.events.filter (·.sessionId = id))

theorem collectMessageText_eq (id : String) (replay : ReplayResult) :
    collectMessageText id replay = textOf (replay.events.filter (isChunk id)) := by
  simp only [collectMessageText, textOf]
  congr 1
  induction replay.events with
  | nil => rfl
  | cons e es ih =>
    by_cases hid : e.sessionId = id
    · cases ht : e.payload.chunkText with
      | none => simp [isChunk, hid, ht, ih]
      | some text => simp [isChunk, hid, ht, ih]
    · simp [isChunk, hid, ih]

inductive Action
  | session (a : Session.Action)
  | update (client : ClientId) (update : SessionUpdate)
  | respond (i : ℕ)
  | exit (client : ClientId)
  | other (sessionId agent : String) (payload : EventPayload)
  | push (k : ℕ)
  | send (k : ℕ)
  deriving DecidableEq, Repr

namespace World

def idle (w : World) (writer : Writer) : Bool :=
  (w.writers.zip w.hist.sys.appends).all fun (author, call) =>
    author ≠ writer ∨ call.stage = .done

def reading (w : World) (client : ClientId) : Bool :=
  client < w.sys.session.spawned ∧ client ∉ w.exited ∧ w.idle (.reader client)

def draw (w : World) (writer : Writer) (sessionId agent : String) (payload : EventPayload) :
    Option World :=
  match w.hist.step (.draw sessionId agent payload) with
  | none => none
  | some hist => some { w with hist := hist, writers := w.writers ++ [writer] }

def emit (w : World) (writer : Writer) (payloads : List EventPayload) : Option World :=
  match payloads with
  | [] => some w
  | payload :: _ => w.draw writer w.id w.agent payload

def appended (w : World) (sys : Sys) : List EventPayload :=
  sys.session.events.drop w.sys.session.events.length

/-- What the readers and the log let the next step of ask `i` find. -/
def agrees (w : World) (i : ℕ) : AskPc → Outcome → Bool
  | .abandon client _, _ => client ∈ w.exited
  | .startSeq, .loaded seq => seq = w.hist.log.nextSeq
  | .awaitPrompt .., .answered _ => (w.turns i).responded.isSome
  | .loadMin _, .loaded min => min = w.hist.log.minSeq
  | .collect start min, .collected text =>
    text = collectMessageText w.id (w.hist.log.replayFrom min start)
  | _, _ => true

def nextTurn (w : World) (turn : Turn) : AskPc → Turn
  | .startSeq => { turn with start := w.hist.log.nextSeq, mark := w.hist.pushed.length }
  | .prompt _ client _ => { turn with client := client, responded := none }
  | .collect start min =>
    { turn with
      min := min
      history := w.hist.pushed
      collected := (w.hist.log.replayFrom min start).events.filter (isChunk w.id) }
  | _ => turn

def askStep (w : World) (i : ℕ) (o : Outcome) : Option World :=
  match w.sys.asks[i]?, w.sys.step (.askStep i o) with
  | some pc, some sys =>
    if w.idle (.ask i) ∧ w.agrees i pc o then
      let turns := Function.update w.turns i (w.nextTurn (w.turns i) pc)
      { w with sys := sys, turns := turns }.emit (.ask i) (w.appended sys)
    else none
  | _, _ => none

/-- `client.shutdown` returns when the reader has ended. -/
def ended (w : World) : ShutdownPc → Bool
  | .shutdownClient client => client ∈ w.exited
  | _ => true

def shutdownStep (w : World) (j : ℕ) : Option World :=
  match w.sys.shutdowns[j]?, w.sys.step (.shutdownStep j) with
  | some pc, some sys =>
    if w.idle (.shutdown j) ∧ w.ended pc then
      { w with sys := sys }.emit (.shutdown j) (w.appended sys)
    else none
  | _, _ => none

def step (w : World) : Action → Option World
  | .session (.askStep i o) => w.askStep i o
  | .session (.shutdownStep j) => w.shutdownStep j
  | .session (.drop i) =>
    if w.idle (.ask i) then (w.sys.step (.drop i)).map fun sys => { w with sys := sys } else none
  | .session .ask => (w.sys.step .ask).map fun sys => { w with sys := sys }
  | .session .shutdown => (w.sys.step .shutdown).map fun sys => { w with sys := sys }
  | .update client update =>
    if w.reading client then
      w.emit (.reader client) (handleSessionUpdate update).toList
    else none
  | .respond i =>
    match w.sys.asks[i]? with
    | some (.awaitPrompt _ client) =>
      if w.reading client ∧ (w.turns i).responded = none then
        some
          { w with
            turns := Function.update w.turns i
              { w.turns i with responded := some w.hist.pushed.length } }
      else none
    | _ => none
  | .exit client =>
    if w.reading client then some { w with exited := client :: w.exited } else none
  | .other sessionId agent payload =>
    if sessionId = w.id ∧ payload.chunkText.isSome then none
    else w.draw .other sessionId agent payload
  | .push k => (w.hist.step (.push k)).map fun hist => { w with hist := hist }
  | .send k => (w.hist.step (.send k)).map fun hist => { w with hist := hist }

end World

end Ccgonext.Conversation
