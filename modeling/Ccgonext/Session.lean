import Ccgonext.State
import Ccgonext.Events
import Ccgonext.Lib.CriticalSection

/-!
# One agent session

`AcpSession` of `session/mod.rs`. `ask` and `shutdown` are cut into atomic
steps, one for each lock they take and one for each call of the client; `AskPc`
and `ShutdownPc` name the step that comes next and carry the local variables
that are still needed. A step that the session does not decide (what the agent
answers, whether the client is still connected, what the clock or the log say)
reads its result from an `Outcome`.

The calls `ensure_running`, `set_states`, `mark_dead`, `client_disconnected` and
`collect_message_text` are laid out inside `ask`. A `Next` is one call of
`set_states`: the states it sets, in the three steps `setProcess`, `setTurn` and
`emit`, and where `ask` goes on. `touch` reads the clock before it waits for its
lock. A client is named by the number of clients spawned before it. `events` is
what the session's own calls have appended to the log, each append one step.
-/

namespace Ccgonext.Session
open Lib Lib.CriticalSection Events

abbrev ClientId := ℕ

inductive AskError
  | busy (turn : TurnState)
  | cannotStart (process : ProcessState)
  | client (message : String)
  | noClient
  | noAcpSession
  | timedOut
  deriving DecidableEq, Repr

def AskError.text : AskError → String
  | .busy turn => "Agent busy (turn state: " ++ turn.toText ++ ")"
  | .cannotStart process => "Cannot start agent in state " ++ process.toText
  | .client message => message
  | .noClient => "No client"
  | .noAcpSession => "No ACP session"
  | .timedOut => "Request timed out"

inductive AskResult
  | ok (text : String)
  | err (error : AskError)
  deriving DecidableEq, Repr

structure AcpSession where
  processState : ProcessState
  turnState : TurnState
  client : Option ClientId
  acpSessionId : Option String
  childRootPid : Option ℕ
  lastActivity : ℕ
  turnGuard : Option ℕ
  spawned : ℕ
  events : List EventPayload
  deriving DecidableEq, Repr

def AcpSession.new (now : ℕ) : AcpSession :=
  ⟨.stopped, .idle, none, none, none, now, none, 0, []⟩

def AcpSession.append (s : AcpSession) (payload : EventPayload) : AcpSession :=
  { s with events := s.events ++ [payload] }

def stateChange (process : ProcessState) (turn : TurnState) : EventPayload :=
  .stateChange process.toText turn.toText

inductive Outcome
  | go
  | now (time : ℕ)
  | spawned (rootPid : Option ℕ)
  | initialized
  | opened (sessionId : String)
  | failed (message : String)
  | answered (stopReason : String)
  | rejected (message : String)
  | timedOut
  | connected (isConnected : Bool)
  | loaded (seq : ℕ)
  | collected (text : String)
  deriving DecidableEq, Repr

/-- The calls of `set_states` in `ask`, by what follows them. -/
inductive Next
  | spawn
  | fail (error : AskError)
  | prompting
  | startSeq
  | touch (start : ℕ) (stopReason : String)
  | touchFailed (error : AskError)
  | terminate (client : Option ClientId) (error : AskError)
  deriving DecidableEq, Repr

def Next.process : Next → ProcessState
  | .spawn => .starting
  | .prompting | .startSeq | .touch .. | .touchFailed _ => .running
  | .fail _ | .terminate .. => .dead

def Next.turn : Next → TurnState
  | .startSeq => .prompting
  | .spawn | .fail _ | .prompting | .touch .. | .touchFailed _ | .terminate .. => .idle

inductive AskPc
  | tryLock
  | busy
  | canPrompt
  | touchFirst
  | storeFirst (time : ℕ)
  | ensureRunning
  | setProcess (next : Next)
  | setTurn (next : Next)
  | emit (next : Next)
  | spawn
  | trackPid (client : ClientId) (rootPid : Option ℕ)
  | initializeClient (client : ClientId)
  | newSession (client : ClientId)
  | abandon (client : ClientId) (error : AskError)
  | untrackPid (error : AskError)
  | storeSessionId (client : ClientId) (sessionId : String)
  | storeClient (client : ClientId)
  | startSeq
  | readClient (start : ℕ)
  | readSessionId (start : ℕ) (client : ClientId)
  | prompt (start : ℕ) (client : ClientId) (sessionId : String)
  | awaitPrompt (start : ℕ) (client : ClientId)
  | checkConnected (error : AskError)
  | takeClient (error : AskError)
  | clearSessionId (client : Option ClientId) (error : AskError)
  | clearPid (client : Option ClientId) (error : AskError)
  | terminate (client : Option ClientId) (error : AskError)
  | detach (client : ClientId) (error : AskError)
  | touch (start : ℕ) (stopReason : String)
  | storeTouch (start : ℕ) (stopReason : String) (time : ℕ)
  | turnComplete (start : ℕ) (stopReason : String)
  | loadMin (start : ℕ)
  | collect (start min : ℕ)
  | touchFailed (error : AskError)
  | storeFailed (error : AskError) (time : ℕ)
  | returning (result : AskResult)
  | returned (result : AskResult)
  | dropped
  deriving DecidableEq, Repr

def Next.pc : Next → AskPc
  | .spawn => .spawn
  | .fail error => .returning (.err error)
  | .prompting => .setProcess .startSeq
  | .startSeq => .startSeq
  | .touch start stopReason => .touch start stopReason
  | .touchFailed error => .touchFailed error
  | .terminate client error => .terminate client error

namespace AskPc

def inside : AskPc → Bool
  | .tryLock | .busy | .returned _ | .dropped => false
  | _ => true

def inProgress : AskPc → Bool
  | .returned _ | .dropped => false
  | _ => true

/-- The next step waits in an `.await`, where the future may be dropped. The
clock, `next_seq`, `replay_from`, `tokio::spawn` and the return do not wait. -/
def atAwait : AskPc → Bool
  | .tryLock | .touchFirst | .startSeq | .detach .. | .touch .. | .collect .. | .touchFailed _ =>
    false
  | .returning _ | .returned _ | .dropped => false
  | _ => true

end AskPc

def askStep (i : ℕ) (s : AcpSession) : AskPc → Outcome → Option (AcpSession × AskPc)
  | .tryLock, _ =>
    match s.turnGuard with
    | none => some ({ s with turnGuard := some i }, .canPrompt)
    | some _ => some (s, .busy)
  | .busy, _ => some (s, .returned (.err (.busy s.turnState)))
  | .canPrompt, _ =>
    if s.turnState.canPrompt then some (s, .touchFirst)
    else some (s, .returning (.err (.busy s.turnState)))
  | .touchFirst, o =>
    match o with
    | .now time => some (s, .storeFirst time)
    | _ => none
  | .storeFirst time, _ => some ({ s with lastActivity := time }, .ensureRunning)
  | .ensureRunning, _ =>
    if s.processState = .running then some (s, .setProcess .startSeq)
    else if s.processState.canStart then some (s, .setProcess .spawn)
    else some (s, .returning (.err (.cannotStart s.processState)))
  | .setProcess next, _ => some ({ s with processState := next.process }, .setTurn next)
  | .setTurn next, _ => some ({ s with turnState := next.turn }, .emit next)
  | .emit next, _ => some (s.append (stateChange next.process next.turn), next.pc)
  | .spawn, o =>
    match o with
    | .spawned rootPid => some ({ s with spawned := s.spawned + 1 }, .trackPid s.spawned rootPid)
    | .failed message => some (s, .setProcess (.fail (.client message)))
    | _ => none
  | .trackPid client rootPid, _ => some ({ s with childRootPid := rootPid }, .initializeClient client)
  | .initializeClient client, o =>
    match o with
    | .initialized => some (s, .newSession client)
    | .failed message => some (s, .abandon client (.client message))
    | _ => none
  | .newSession client, o =>
    match o with
    | .opened sessionId => some (s, .storeSessionId client sessionId)
    | .failed message => some (s, .abandon client (.client message))
    | _ => none
  | .abandon _ error, _ => some (s, .untrackPid error)
  | .untrackPid error, _ =>
    some ({ s with childRootPid := none }, .setProcess (.fail error))
  | .storeSessionId client sessionId, _ =>
    some ({ s with acpSessionId := some sessionId }, .storeClient client)
  | .storeClient client, _ =>
    some ({ s with client := some client }, .setProcess .prompting)
  | .startSeq, o =>
    match o with
    | .loaded seq => some (s, .readClient seq)
    | _ => none
  | .readClient start, _ =>
    match s.client with
    | some client => some (s, .readSessionId start client)
    | none => some (s, .returning (.err .noClient))
  | .readSessionId start client, _ =>
    match s.acpSessionId with
    | some sessionId => some (s, .prompt start client sessionId)
    | none => some (s, .returning (.err .noAcpSession))
  | .prompt start client _, _ => some (s, .awaitPrompt start client)
  | .awaitPrompt start _, o =>
    match o with
    | .answered stopReason => some (s, .setProcess (.touch start stopReason))
    | .rejected message => some (s, .checkConnected (.client message))
    | .timedOut => some (s, .takeClient .timedOut)
    | _ => none
  | .checkConnected error, o =>
    match s.client, o with
    | some _, .connected true => some (s, .setProcess (.touchFailed error))
    | some _, .connected false => some (s, .takeClient error)
    | some _, _ => none
    | none, _ => some (s, .takeClient error)
  | .takeClient error, _ => some ({ s with client := none }, .clearSessionId s.client error)
  | .clearSessionId client error, _ =>
    some ({ s with acpSessionId := none }, .clearPid client error)
  | .clearPid client error, _ =>
    some ({ s with childRootPid := none }, .setProcess (.terminate client error))
  | .terminate client error, _ =>
    match client with
    | some client => some (s, .detach client error)
    | none => some (s, .returning (.err error))
  | .detach _ error, _ => some (s, .returning (.err error))
  | .touch start stopReason, o =>
    match o with
    | .now time => some (s, .storeTouch start stopReason time)
    | _ => none
  | .storeTouch start stopReason time, _ =>
    some ({ s with lastActivity := time }, .turnComplete start stopReason)
  | .turnComplete start stopReason, _ =>
    some (s.append (.turnComplete stopReason), .loadMin start)
  | .loadMin start, o =>
    match o with
    | .loaded min => some (s, .collect start min)
    | _ => none
  | .collect _ _, o =>
    match o with
    | .collected text => some (s, .returning (.ok text))
    | _ => none
  | .touchFailed error, o =>
    match o with
    | .now time => some (s, .storeFailed error time)
    | _ => none
  | .storeFailed error time, _ =>
    some ({ s with lastActivity := time }, .returning (.err error))
  | .returning result, _ => some ({ s with turnGuard := none }, .returned result)
  | .returned _, _ => none
  | .dropped, _ => none

inductive ShutdownPc
  | readPid
  | takeClient
  | shutdownClient (client : ClientId)
  | clearPid
  | clearSessionId
  | setProcess
  | setTurn
  | emit
  | returned
  deriving DecidableEq, Repr

namespace ShutdownPc

def inProgress : ShutdownPc → Bool
  | .returned => false
  | _ => true

def beforeTake : ShutdownPc → Bool
  | .readPid | .takeClient => true
  | _ => false

def beforeProcess : ShutdownPc → Bool
  | .setTurn | .emit | .returned => false
  | _ => true

def beforeTurn : ShutdownPc → Bool
  | .emit | .returned => false
  | _ => true

end ShutdownPc

def shutdownStep (s : AcpSession) : ShutdownPc → Option (AcpSession × ShutdownPc)
  | .readPid => some (s, .takeClient)
  | .takeClient =>
    match s.client with
    | some client => some ({ s with client := none }, .shutdownClient client)
    | none => some (s, .clearPid)
  | .shutdownClient _ => some (s, .clearPid)
  | .clearPid => some ({ s with childRootPid := none }, .clearSessionId)
  | .clearSessionId => some ({ s with acpSessionId := none }, .setProcess)
  | .setProcess => some ({ s with processState := .dead }, .setTurn)
  | .setTurn => some ({ s with turnState := .idle }, .emit)
  | .emit => some (s.append (stateChange .dead .idle), .returned)
  | .returned => none

structure Sys where
  session : AcpSession
  asks : List AskPc
  shutdowns : List ShutdownPc
  deriving DecidableEq, Repr

def Sys.new (now : ℕ) : Sys := ⟨.new now, [], []⟩

inductive Action
  | ask
  | askStep (i : ℕ) (o : Outcome)
  | drop (i : ℕ)
  | shutdown
  | shutdownStep (j : ℕ)
  deriving DecidableEq, Repr

def AcpSession.release (s : AcpSession) (i : ℕ) : AcpSession :=
  if s.turnGuard = some i then { s with turnGuard := none } else s

def Sys.step (s : Sys) : Action → Option Sys
  | .ask => some { s with asks := s.asks ++ [.tryLock] }
  | .askStep i o =>
    match s.asks[i]? with
    | none => none
    | some pc =>
      match Session.askStep i s.session pc o with
      | none => none
      | some (session, pc') => some { s with session := session, asks := s.asks.set i pc' }
  | .drop i =>
    match s.asks[i]? with
    | none => none
    | some pc =>
      if pc.atAwait then
        some { s with session := s.session.release i, asks := s.asks.set i .dropped }
      else none
  | .shutdown => some { s with shutdowns := s.shutdowns ++ [.readPid] }
  | .shutdownStep j =>
    match s.shutdowns[j]? with
    | none => none
    | some pc =>
      match Session.shutdownStep s.session pc with
      | none => none
      | some (session, pc') => some { s with session := session, shutdowns := s.shutdowns.set j pc' }

namespace Sys

theorem step_askStep {s s' : Sys} {i : ℕ} {o : Outcome} (h : s.step (.askStep i o) = some s') :
    ∃ pc session pc', s.asks[i]? = some pc ∧
      Session.askStep i s.session pc o = some (session, pc') ∧
      s' = { s with session := session, asks := s.asks.set i pc' } := by
  delta step at h
  dsimp only at h
  split at h
  · cases h
  · next pc hpc =>
    split at h
    · cases h
    · next session pc' hstep =>
      exact ⟨pc, session, pc', hpc, hstep, (Option.some.inj h).symm⟩

theorem step_drop {s s' : Sys} {i : ℕ} (h : s.step (.drop i) = some s') :
    ∃ pc, s.asks[i]? = some pc ∧ pc.atAwait = true ∧
      s' = { s with session := s.session.release i, asks := s.asks.set i .dropped } := by
  delta step at h
  dsimp only at h
  split at h
  · cases h
  · next pc hpc =>
    split at h
    · next hat => exact ⟨pc, hpc, hat, (Option.some.inj h).symm⟩
    · cases h

theorem step_shutdownStep {s s' : Sys} {j : ℕ} (h : s.step (.shutdownStep j) = some s') :
    ∃ pc session pc', s.shutdowns[j]? = some pc ∧
      Session.shutdownStep s.session pc = some (session, pc') ∧
      s' = { s with session := session, shutdowns := s.shutdowns.set j pc' } := by
  delta step at h
  dsimp only at h
  split at h
  · cases h
  · next pc hpc =>
    split at h
    · cases h
    · next session pc' hstep =>
      exact ⟨pc, session, pc', hpc, hstep, (Option.some.inj h).symm⟩

end Sys

/-- `turn_guard` is the lock of the asks: taken by `try_lock`, kept until the
return. A call outside changes nothing. -/
theorem askStep_disciplined : Disciplined AcpSession.turnGuard AskPc.inside askStep := by
  constructor
  · intro i s p o s' p' h hin
    cases p <;> simp only [AskPc.inside, reduceCtorEq] at hin <;> simp only [askStep] at h
    case tryLock =>
      split at h
      · next hfree =>
        cases h
        exact .inr ⟨hfree, rfl, rfl⟩
      · cases h
        exact .inl ⟨rfl, rfl⟩
    case busy =>
      cases h
      exact .inl ⟨rfl, rfl⟩
    case returned => cases h
    case dropped => cases h
  · intro i s p o s' p' h hin hi
    cases p
    case tryLock | busy | returned | dropped => cases hin
    case returning =>
      cases h
      exact .inr ⟨rfl, rfl⟩
    case emit next =>
      cases h
      refine .inl ⟨hi, ?_⟩
      cases next <;> rfl
    all_goals
      delta askStep at h
      dsimp only at h
      repeat' split at h
      all_goals first
        | cases h; done
        | (cases h; exact .inl ⟨hi, rfl⟩)

theorem exclusive_release {s : AcpSession} {asks : List AskPc} {i : ℕ} {pc : AskPc}
    (h : Exclusive AcpSession.turnGuard AskPc.inside s asks) (hpc : asks[i]? = some pc) :
    Exclusive AcpSession.turnGuard AskPc.inside (s.release i) (asks.set i .dropped) := by
  unfold AcpSession.release
  split
  · next hheld => exact h.leave hpc ((h.inside_iff hpc).mpr hheld) rfl rfl
  · next hfree =>
    have hout : pc.inside = false := by
      cases hin : pc.inside with
      | false => rfl
      | true => exact absurd ((h.inside_iff hpc).mp hin) hfree
    exact h.stay hpc hout rfl

theorem askStep_enters {i : ℕ} {s s' : AcpSession} {pc pc' : AskPc} {o : Outcome}
    (h : askStep i s pc o = some (s', pc')) (hout : pc.inside = false) (hin : pc'.inside = true) :
    s' = { s with turnGuard := some i } ∧ pc' = .canPrompt := by
  cases pc
  case tryLock =>
    delta askStep at h
    dsimp only at h
    split at h <;> cases h
    · exact ⟨rfl, rfl⟩
    · cases hin
  case busy =>
    cases h
    cases hin
  case returned | dropped => cases h
  all_goals cases hout

theorem askStep_leaves {i : ℕ} {s s' : AcpSession} {pc pc' : AskPc} {o : Outcome}
    (h : askStep i s pc o = some (s', pc')) (hin : pc.inside = true) (hout : pc'.inside = false) :
    ∃ result, pc = .returning result := by
  cases pc
  case returning result => exact ⟨result, rfl⟩
  case tryLock | busy | returned | dropped => cases hin
  case emit next =>
    cases h
    cases next <;> cases hout
  all_goals
    delta askStep at h
    dsimp only at h
    repeat' split at h
    all_goals
      cases h
      try cases hout

theorem askStep_processState {i : ℕ} {s s' : AcpSession} {pc pc' : AskPc} {o : Outcome}
    (h : askStep i s pc o = some (s', pc')) :
    s'.processState = s.processState ∨
      ∃ next, pc = .setProcess next ∧ s'.processState = next.process := by
  cases pc
  case setProcess next =>
    cases h
    exact .inr ⟨next, rfl, rfl⟩
  all_goals
    delta askStep at h
    dsimp only at h
    repeat' split at h
    all_goals
      cases h
      try exact .inl rfl

theorem askStep_client {i : ℕ} {s s' : AcpSession} {pc pc' : AskPc} {o : Outcome}
    (h : askStep i s pc o = some (s', pc')) (hn : s.client = none) :
    s'.client = none ∨ ∃ client, pc = .storeClient client := by
  cases pc
  case storeClient client => exact .inr ⟨client, rfl⟩
  case takeClient =>
    cases h
    exact .inl rfl
  all_goals
    delta askStep at h
    dsimp only at h
    repeat' split at h
    all_goals
      cases h
      try exact .inl hn

theorem askStep_events {i : ℕ} {s s' : AcpSession} {pc pc' : AskPc} {o : Outcome}
    (h : askStep i s pc o = some (s', pc')) :
    s'.events = s.events ∨
      ∃ payload, s'.events = s.events ++ [payload] ∧ payload.chunkText = none := by
  cases pc
  case emit next =>
    cases h
    exact .inr ⟨_, rfl, rfl⟩
  case turnComplete start stopReason =>
    cases h
    exact .inr ⟨_, rfl, rfl⟩
  all_goals
    delta askStep at h
    dsimp only at h
    repeat' split at h
    all_goals
      cases h
      try exact .inl rfl

theorem shutdownStep_events {s s' : AcpSession} {pc pc' : ShutdownPc}
    (h : shutdownStep s pc = some (s', pc')) :
    s'.events = s.events ∨
      ∃ payload, s'.events = s.events ++ [payload] ∧ payload.chunkText = none := by
  cases pc <;> simp only [shutdownStep] at h
  case emit =>
    cases h
    exact .inr ⟨_, rfl, rfl⟩
  case takeClient =>
    split at h <;>
      · cases h
        exact .inl rfl
  all_goals
    cases h
    try exact .inl rfl

theorem shutdownStep_processState {s s' : AcpSession} {pc pc' : ShutdownPc}
    (h : shutdownStep s pc = some (s', pc')) :
    s'.processState = s.processState ∨ s'.processState = .dead := by
  cases pc <;> simp only [shutdownStep] at h
  case takeClient =>
    split at h <;>
      · cases h
        exact .inl rfl
  case setProcess =>
    cases h
    exact .inr rfl
  all_goals
    cases h
    try exact .inl rfl

theorem shutdownStep_turnGuard {s s' : AcpSession} {pc pc' : ShutdownPc}
    (h : shutdownStep s pc = some (s', pc')) : s'.turnGuard = s.turnGuard := by
  cases pc <;> simp only [shutdownStep] at h
  case takeClient =>
    split at h <;>
      · cases h
        rfl
  all_goals
    cases h
    try rfl

theorem shutdownStep_client {s s' : AcpSession} {pc pc' : ShutdownPc}
    (h : shutdownStep s pc = some (s', pc')) (hn : s.client = none) : s'.client = none := by
  cases pc <;> simp only [shutdownStep] at h
  case takeClient =>
    rw [hn] at h
    cases h
    exact hn
  all_goals
    cases h
    try exact hn

end Ccgonext.Session
