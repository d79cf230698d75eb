import Ccgonext.Answer
import Ccgonext.WebUi
import Ccgonext.Lib.Brackets
import Ccgonext.Lib.Pool

/-!
# One card for each turn

The page closes a card on `turn_complete` alone, and only an ask that gets its
answer appends one. An ask that failed after it had begun to prompt leaves its
card open, and what the agent sends for the next one goes into it. The log is
taken in the order of its numbers. `owners` says of every event for which ask
the agent sent it: the one whose prompt its client was working on.
-/

namespace Ccgonext.TurnCards
open Lib Lib.Runs Lib.CriticalSection Lib.Brackets Events Session Updates Conversation Answer WebUi

def prompting : EventPayload → Bool
  | .stateChange _ turn => turn = TurnState.prompting.toText
  | _ => false

def isPermissionEvent : EventPayload → Bool
  | .permissionRequest _ _ _ | .permissionResponse _ _ => true
  | _ => false

def events (w : World) : List SessionEvent := w.hist.sys.appends.map AppendCall.event

def sessionLog (w : World) : List EventPayload :=
  ((events w).filter fun e => e.sessionId = w.id).map SessionEvent.payload

def asking (w : World) (client : ClientId) : Option ℕ :=
  (List.range w.sys.asks.length).find? fun i =>
    match w.sys.asks[i]? with
    | some (.awaitPrompt _ c) => c = client ∧ (w.turns i).responded = none
    | _ => false

def owner (w : World) : Conversation.Action → Option ℕ
  | .update client _ => asking w client
  | _ => none

def beginning (w : World) : Conversation.Action → List ℕ
  | .session (.askStep i _) => if w.sys.asks[i]? = some (.emit .startSeq) then [i] else []
  | _ => []

inductive Phase
  | before
  | prompted
  | completed
  | failed
  | dropped
  deriving DecidableEq, Repr

def nextPhase : Next → Phase
  | .spawn | .fail _ | .prompting | .startSeq => .before
  | .touch .. | .touchFailed _ | .terminate .. => .prompted

def phaseOf : AskPc → Phase
  | .setProcess next | .setTurn next | .emit next => nextPhase next
  | .startSeq | .readClient _ | .readSessionId .. | .prompt .. | .awaitPrompt ..
  | .checkConnected _ | .takeClient _ | .clearSessionId .. | .clearPid .. | .terminate ..
  | .detach .. | .touch .. | .storeTouch .. | .turnComplete .. | .touchFailed _
  | .storeFailed .. => .prompted
  | .loadMin _ | .collect .. | .returning (.ok _) | .returned (.ok _) => .completed
  | .returning (.err _) | .returned (.err _) => .failed
  | .dropped => .dropped
  | _ => .before

def cutting (w : World) : Conversation.Action → List ℕ
  | .session (.drop i) => if (w.sys.asks[i]?).map phaseOf = some .prompted then [i] else []
  | _ => []

/-- The world with what has become of its asks: those that came to prompt, and
those of them whose future was dropped before their `TurnComplete`. -/
structure Watched where
  world : World
  owners : List (Option ℕ)
  begun : List ℕ
  cut : List ℕ

def Watched.new (id agent : String) (maxEntries now : ℕ) : Watched :=
  ⟨.new id agent maxEntries now, [], [], []⟩

def Watched.step (s : Watched) (a : Conversation.Action) : Option Watched :=
  match s.world.step a with
  | none => none
  | some w =>
    let drawn := w.hist.sys.appends.length - s.world.hist.sys.appends.length
    some ⟨w, s.owners ++ List.replicate drawn (owner s.world a), beginning s.world a ++ s.begun,
      cutting s.world a ++ s.cut⟩

def OfSession (id : String) : Conversation.Action → Prop
  | .other sessionId _ payload => sessionId = id → isPermissionEvent payload = true
  | _ => True

instance (id : String) : ∀ a, Decidable (OfSession id a)
  | .other _ _ _ => inferInstanceAs (Decidable (_ → _))
  | .session _ | .update _ _ | .respond _ | .exit _ | .push _ | .send _ => .isTrue trivial

def page (w : World) : Ui := (Ui.new.ingestAll (events w)).1

def shown (w : World) : List DisplayOp := (Ui.new.ingestAll (events w)).2

def CardsApart (s : Watched) : Prop :=
  ∀ (m n i j : ℕ) (op : DisplayOp), s.owners[m]? = some (some i) → s.owners[n]? = some (some j) →
    (shown s.world)[m]? = some op → (shown s.world)[n]? = some op → i = j

def failed : AskPc → Bool
  | .returned (.err _) => true
  | _ => false

/-- No ask comes to prompt after one that came to prompt and returned an error,
or was dropped on the way. -/
def AfterSuccess (s : Watched) (a : Conversation.Action) : Prop :=
  beginning s.world a ≠ [] →
    s.cut = [] ∧ ∀ j ∈ s.begun, ∀ pc ∈ s.world.sys.asks[j]?, failed pc = false

instance (s : Watched) (a : Conversation.Action) : Decidable (AfterSuccess s a) :=
  inferInstanceAs (Decidable (_ → _ ∧ _))

/-- The ask has begun to prompt and has appended no `TurnComplete`. -/
def Unfinished (s : Watched) (i : ℕ) : Prop :=
  i ∈ s.cut ∨ i ∈ s.begun ∧ ∃ pc, s.world.sys.asks[i]? = some pc ∧
    (phaseOf pc = .prompted ∨ phaseOf pc = .failed)

def Fits (begun : List ℕ) (i : ℕ) (pc : AskPc) : Prop :=
  (phaseOf pc = .before → i ∉ begun) ∧ (phaseOf pc = .prompted → i ∈ begun)

structure Placed (s : Watched) : Prop where
  guard : Exclusive AcpSession.turnGuard AskPc.inside s.world.sys.session s.world.sys.asks
  fits : ∀ (i : ℕ) (pc : AskPc), s.world.sys.asks[i]? = some pc → Fits s.begun i pc
  started : ∀ i ∈ s.begun, i < s.world.sys.asks.length
  cut : ∀ i ∈ s.cut, s.world.sys.asks[i]? = some .dropped

structure Turning (s : Watched) : Prop where
  one : ∀ i j, Unfinished s i → Unfinished s j → i = j
  running : ∀ i, Unfinished s i → tally prompting isTurnComplete (sessionLog s.world) = some 0
  rest : (∀ i, ¬ Unfinished s i) → tally prompting isTurnComplete (sessionLog s.world) = none ∨
    tally prompting isTurnComplete (sessionLog s.world) = some 1
  between : OneBetween prompting isTurnComplete (sessionLog s.world)

def view (w : World) : SessionView := (page w).sessionViews w.id

structure Carded (s : Watched) : Prop where
  length : s.owners.length = (events s.world).length
  valid : (view s.world).Valid
  placed : ∀ (m i : ℕ) (op : DisplayOp), s.owners[m]? = some (some i) →
    (shown s.world)[m]? = some op → ∃ card, op = .upsert s.world.id card ∧
      card < (view s.world).items.length ∧
      ((view s.world).currentTurn = some card → Unfinished s i)
  apart : CardsApart s

section Steps
variable {i : ℕ} {s s' : AcpSession} {pc pc' : AskPc} {o : Outcome} {w w' : World}
  {a : Conversation.Action}

def Neutral (payload : EventPayload) : Prop :=
  prompting payload = false ∧ isTurnComplete payload = false

def logged : AskPc → List EventPayload
  | .emit next => [stateChange next.process next.turn]
  | .turnComplete _ stopReason => [.turnComplete stopReason]
  | _ => []

inductive Course : AskPc → AskPc → Prop
  | prompts : Course (.emit .startSeq) .startSeq
  | completes {start : ℕ} {stopReason : String} :
    Course (.turnComplete start stopReason) (.loadMin start)
  | quiet {pc pc' : AskPc} (hlog : ∀ payload ∈ logged pc, Neutral payload)
      (hphase : phaseOf pc' = phaseOf pc ∨ phaseOf pc' = .failed ∧
        (phaseOf pc = .before ∨ phaseOf pc = .prompted)) : Course pc pc'

theorem neutral_stateChange (process : ProcessState) :
    Neutral (stateChange process .idle) := ⟨rfl, rfl⟩

theorem emit_course (next : Next) : Course (.emit next) next.pc := by
  cases next with
  | startSeq => exact .prompts
  | spawn | prompting | touch | touchFailed | terminate =>
    refine .quiet (fun payload hp => ?_) (.inl rfl)
    rw [List.mem_singleton.mp hp]
    exact neutral_stateChange _
  | fail error =>
    refine .quiet (fun payload hp => ?_) (.inr ⟨rfl, .inl rfl⟩)
    rw [List.mem_singleton.mp hp]
    exact neutral_stateChange _

theorem askStep_live (h : askStep i s pc o = some (s', pc')) : pc ≠ .dropped ∧ pc' ≠ .dropped := by
  constructor <;> rintro rfl
  · cases h
  · cases pc
    case emit next => cases next <;> cases h
    all_goals
      simp only [askStep] at h
      repeat' split at h
      all_goals cases h

theorem Course.of_silent (hlog : logged pc = []) (hphase : phaseOf pc' = phaseOf pc ∨
    phaseOf pc' = .failed ∧ (phaseOf pc = .before ∨ phaseOf pc = .prompted)) : Course pc pc' := by
  refine .quiet (fun payload hp => ?_) hphase
  rw [hlog] at hp
  cases hp

theorem askStep_course (h : askStep i s pc o = some (s', pc')) :
    s'.events = s.events ++ logged pc ∧ Course pc pc' := by
  cases pc
  case emit next =>
    cases h
    exact ⟨rfl, emit_course next⟩
  case turnComplete start stopReason =>
    cases h
    exact ⟨rfl, .completes⟩
  case returning result =>
    cases h
    refine ⟨(List.append_nil _).symm, .of_silent rfl (.inl ?_)⟩
    cases result <;> rfl
  all_goals
    simp only [askStep] at h
    repeat' split at h
    all_goals
      cases h
      try exact ⟨(List.append_nil _).symm, .of_silent rfl (.inl rfl)⟩
      try exact ⟨(List.append_nil _).symm, .of_silent rfl (.inr ⟨rfl, .inl rfl⟩)⟩
      try exact ⟨(List.append_nil _).symm, .of_silent rfl (.inr ⟨rfl, .inr rfl⟩)⟩

theorem shutdownStep_appends {pc pc' : ShutdownPc} (h : shutdownStep s pc = some (s', pc')) :
    s'.events = s.events ∨ s'.events = s.events ++ [stateChange .dead .idle] := by
  cases pc <;> simp only [shutdownStep] at h
  case emit =>
    cases h
    exact .inr rfl
  case takeClient =>
    split at h <;>
      · cases h
        exact .inl rfl
  all_goals
    cases h
    try exact .inl rfl

theorem step_draw_events {hist : History} {sessionId agent : String} {payload : EventPayload}
    (hstep : w.hist.step (.draw sessionId agent payload) = some hist) {writers : List Writer} :
    events { w with hist := hist, writers := writers } =
      events w ++ [w.hist.sys.drawn sessionId agent payload] := by
  cases hstep
  simp only [events, List.map_append, List.map_cons, List.map_nil]

theorem draw_events {writer : Writer} {sessionId agent : String} {payload : EventPayload}
    (h : w.draw writer sessionId agent payload = some w') :
    events w' = events w ++ [w.hist.sys.drawn sessionId agent payload] := by
  unfold World.draw at h
  split at h
  · cases h
  · next hist hstep =>
    cases h
    exact step_draw_events hstep

theorem emit_events {writer : Writer} {payloads : List EventPayload} (hlen : payloads.length ≤ 1)
    (h : w.emit writer payloads = some w') :
    events w' = events w ++ payloads.map (w.hist.sys.drawn w.id w.agent) := by
  match payloads, hlen with
  | [], _ =>
    cases h
    exact (List.append_nil _).symm
  | [payload], _ => exact draw_events h

theorem length_logged : (logged pc).length ≤ 1 := by
  cases pc <;> simp [logged]

theorem chunkless_logged {writer : Writer} : ∀ payload ∈ logged pc, payload.chunkText.isSome →
    ∃ client, writer = .reader client := by
  intro payload hp hchunk
  cases pc
  case emit next | turnComplete =>
    rw [List.mem_singleton.mp hp] at hchunk
    cases hchunk
  all_goals cases hp

inductive Happening (w : World) : Conversation.Action → World → Prop
  | ask {i : ℕ} {o : Outcome} {pc pc' : AskPc} {w' : World} (hid : w'.id = w.id)
    (hpc : w.sys.asks[i]? = some pc)
    (hstep : Session.askStep i w.sys.session pc o = some (w'.sys.session, pc'))
    (hasks : w'.sys.asks = w.sys.asks.set i pc')
    (hevents : events w' = events w ++ (logged pc).map (w.hist.sys.drawn w.id w.agent)) :
    Happening w (.session (.askStep i o)) w'
  | drop {i : ℕ} {pc : AskPc} {w' : World} (hid : w'.id = w.id)
    (hpc : w.sys.asks[i]? = some pc) (hat : pc.atAwait = true)
    (hsession : w'.sys.session = w.sys.session.release i)
    (hasks : w'.sys.asks = w.sys.asks.set i .dropped) (hevents : events w' = events w) :
    Happening w (.session (.drop i)) w'
  | aside {a : Conversation.Action} {w' : World} (hid : w'.id = w.id)
    (hasks : w'.sys.asks = w.sys.asks ∨ w'.sys.asks = w.sys.asks ++ [.tryLock])
    (hguard : w'.sys.session.turnGuard = w.sys.session.turnGuard)
    (hbegin : beginning w a = []) (hcut : cutting w a = [])
    (hevents : events w' = events w ∨ ∃ e, events w' = events w ++ [e] ∧
      (e.sessionId = w.id → Neutral e.payload) ∧
      ∀ i, owner w a = some i → e.sessionId = w.id ∧ isTurnScopedEvent e.payload = true) :
    Happening w a w'

theorem askStep_happening (h : w.askStep i o = some w') :
    Happening w (.session (.askStep i o)) w' := by
  obtain ⟨pc, session, pc', hpc, -, -, hstep, hemit⟩ := askStep_emit h
  rw [World.appended, (askStep_course hstep).1, List.drop_left] at hemit
  have hev := emit_events length_logged hemit
  obtain ⟨-, hframe⟩ := emit_logged chunkless_logged hemit
  refine @Happening.ask _ i o pc pc' w' hframe.id hpc ?_ ?_ hev
  · rw [hframe.sys]
    exact hstep
  · rw [hframe.sys]

theorem shutdownStep_happening {j : ℕ} (h : w.shutdownStep j = some w') :
    Happening w (.session (.shutdownStep j)) w' := by
  obtain ⟨pc, session, pc', hstep, hemit⟩ := shutdownStep_emit h
  obtain ⟨-, hid, hasks, hguard, -⟩ := step_shutdownStep h
  refine .aside hid (.inl hasks) hguard rfl rfl ?_
  rw [World.appended] at hemit
  rcases shutdownStep_appends hstep with hsame | hdead
  · rw [hsame, List.drop_length] at hemit
    cases hemit
    exact .inl rfl
  · rw [hdead, List.drop_left] at hemit
    have hev := emit_events le_rfl hemit
    exact .inr ⟨w.hist.sys.drawn w.id w.agent (stateChange .dead .idle), hev,
      fun _ => neutral_stateChange _, nofun⟩

theorem handleSessionUpdate_neutral {update : SessionUpdate} {payload : EventPayload}
    (h : handleSessionUpdate update = some payload) :
    Neutral payload ∧ isTurnScopedEvent payload = true := by
  unfold handleSessionUpdate at h
  repeat' split at h
  all_goals
    cases h
    try exact ⟨⟨rfl, rfl⟩, rfl⟩

theorem permission_neutral {payload : EventPayload} (h : isPermissionEvent payload = true) :
    Neutral payload := by
  cases payload <;> first | exact ⟨rfl, rfl⟩ | cases h

theorem step_happening (ha : OfSession w.id a) (h : w.step a = some w') : Happening w a w' := by
  cases a with
  | session a =>
    cases a with
    | ask =>
      cases h
      exact .aside rfl (.inr rfl) rfl rfl rfl (.inl rfl)
    | askStep i o => exact askStep_happening h
    | drop i =>
      obtain ⟨pc, hpc, hat, rfl⟩ := drop_inv h
      exact .drop rfl hpc hat rfl rfl rfl
    | shutdown =>
      cases h
      exact .aside rfl (.inl rfl) rfl rfl rfl (.inl rfl)
    | shutdownStep j => exact shutdownStep_happening h
  | update client update =>
    obtain ⟨-, ⟨-, rfl⟩ | ⟨payload, hist, hupdate, hstep, rfl⟩⟩ := update_inv h
    · exact .aside rfl (.inl rfl) rfl rfl rfl (.inl rfl)
    · obtain ⟨hneutral, hscoped⟩ := handleSessionUpdate_neutral hupdate
      exact .aside rfl (.inl rfl) rfl rfl rfl
        (.inr ⟨_, step_draw_events hstep, fun _ => hneutral, fun _ _ => ⟨rfl, hscoped⟩⟩)
  | respond j =>
    obtain ⟨start, client, -, rfl⟩ := respond_inv h
    exact .aside rfl (.inl rfl) rfl rfl rfl (.inl rfl)
  | exit client =>
    obtain rfl := exit_inv h
    exact .aside rfl (.inl rfl) rfl rfl rfl (.inl rfl)
  | other sessionId agent payload =>
    obtain ⟨hforeign, hdraw⟩ := other_inv h
    obtain ⟨-, hframe⟩ := draw_logged (fun hid hp => absurd ⟨hid, hp⟩ hforeign) hdraw
    exact .aside hframe.id (.inl (by rw [hframe.sys])) (by rw [hframe.sys]) rfl rfl
      (.inr ⟨_, draw_events hdraw, fun hid => permission_neutral (ha hid),
        by intros; contradiction⟩)
  | push k =>
    obtain ⟨hist, hstep, rfl⟩ := Option.map_eq_some_iff.mp h
    obtain ⟨e, hk, -, hsys⟩ := History.step_push hstep
    exact .aside rfl (.inl rfl) rfl rfl rfl
      (.inl (by simp only [events, hsys, History.map_event_set hk]))
  | send k =>
    obtain ⟨hist, hstep, rfl⟩ := Option.map_eq_some_iff.mp h
    obtain ⟨e, hk, -, hsys⟩ := History.step_send hstep
    exact .aside rfl (.inl rfl) rfl rfl rfl
      (.inl (by simp only [events, hsys, History.map_event_set hk]))

end Steps

section Turns
variable {i j : ℕ} {pc pc' : AskPc} {w w' : World}

theorem sessionLog_append {new : List SessionEvent} (hid : w'.id = w.id)
    (h : events w' = events w ++ new) : sessionLog w' =
      sessionLog w ++ (new.filter fun e => e.sessionId = w.id).map SessionEvent.payload := by
  rw [sessionLog, h, hid, List.filter_append, List.map_append, sessionLog]

theorem mem_beginning {o : Outcome} : j ∈ beginning w (.session (.askStep i o)) ↔
    j = i ∧ w.sys.asks[i]? = some (.emit .startSeq) := by
  by_cases hpc : w.sys.asks[i]? = some (.emit .startSeq) <;> simp [beginning, hpc]

theorem mem_cutting : j ∈ cutting w (.session (.drop i)) ↔
    j = i ∧ (w.sys.asks[i]?).map phaseOf = some .prompted := by
  by_cases hpc : (w.sys.asks[i]?).map phaseOf = some .prompted
  · simp only [cutting, hpc, ↓reduceIte, List.mem_singleton, and_true]
  · simp only [cutting, hpc, ↓reduceIte, List.not_mem_nil, and_false]

theorem inside_of_prompted (h : phaseOf pc = .prompted) : pc.inside = true := by
  cases pc
  case returned result => cases result <;> cases h
  all_goals first | rfl | cases h

theorem inside_of_failed (h : phaseOf pc = .failed) : pc.inside = true ∨ failed pc = true := by
  cases pc
  case returned result =>
    cases result with
    | ok => cases h
    | err => exact .inr rfl
  all_goals first | exact .inl rfl | cases h

theorem atAwait_of_failed (h : phaseOf pc = .failed) : pc.atAwait = false := by
  cases pc
  case returning | returned => rfl
  case setProcess next | setTurn next | emit next => cases next <;> cases h
  all_goals cases h

theorem failed_phase (h : failed pc = true) : phaseOf pc = .failed := by
  cases pc
  case returned result =>
    cases result with
    | ok => cases h
    | err => rfl
  all_goals cases h

theorem Watched.step_inv {s s' : Watched} {a : Conversation.Action} (h : s.step a = some s') :
    s.world.step a = some s'.world ∧ s'.begun = beginning s.world a ++ s.begun ∧
      s'.cut = cutting s.world a ++ s.cut ∧ s'.owners = s.owners ++ List.replicate
        (s'.world.hist.sys.appends.length - s.world.hist.sys.appends.length)
        (owner s.world a) := by
  unfold Watched.step at h
  split at h
  · cases h
  · next hw =>
    cases h
    exact ⟨hw, rfl, rfl, rfl⟩

theorem Course.begins {o : Outcome} (hpc : w.sys.asks[i]? = some pc) (h : Course pc pc') :
    (pc = .emit .startSeq ∧ pc' = .startSeq ∧ beginning w (.session (.askStep i o)) = [i]) ∨
      pc ≠ .emit .startSeq ∧ beginning w (.session (.askStep i o)) = [] := by
  by_cases hstart : pc = .emit .startSeq
  · subst hstart
    have hbegin : beginning w (.session (.askStep i o)) = [i] := by simp [beginning, hpc]
    cases h with
    | prompts => exact .inl ⟨rfl, rfl, hbegin⟩
    | quiet hlog hphase =>
      have hneutral := (hlog _ (List.mem_singleton_self _)).1
      cases hneutral
  · have hne : w.sys.asks[i]? ≠ some (.emit .startSeq) := by
      rw [hpc]
      exact fun h => hstart (Option.some.inj h)
    exact .inr ⟨hstart, by simp [beginning, hne]⟩

theorem Fits.step {o : Outcome} {begun : List ℕ} (hpc : w.sys.asks[i]? = some pc)
    (h : Fits begun i pc) (hcourse : Course pc pc') :
    Fits (beginning w (.session (.askStep i o)) ++ begun) i pc' := by
  rcases hcourse.begins (o := o) hpc with ⟨rfl, rfl, hbegin⟩ | ⟨hne, hbegin⟩
  · rw [hbegin]
    exact ⟨nofun, fun _ => List.mem_cons_self⟩
  · rw [hbegin, List.nil_append]
    cases hcourse with
    | prompts => exact absurd rfl hne
    | completes => exact ⟨nofun, nofun⟩
    | quiet hlog hphase =>
      rcases hphase with hsame | ⟨hfailed, -⟩
      · rw [Fits, hsame]
        exact h
      · rw [Fits, hfailed]
        exact ⟨nofun, nofun⟩

section Placing
variable {s s' : Watched}

theorem Placed.ask {o : Outcome} (hP : Placed s) (hpc : s.world.sys.asks[i]? = some pc)
    (hstep : Session.askStep i s.world.sys.session pc o = some (s'.world.sys.session, pc'))
    (hasks : s'.world.sys.asks = s.world.sys.asks.set i pc')
    (hbegun : s'.begun = beginning s.world (.session (.askStep i o)) ++ s.begun)
    (hcut : s'.cut = s.cut) : Placed s' := by
  refine ⟨?_, ?_, ?_, ?_⟩
  · rw [hasks]
    exact hP.guard.step askStep_disciplined hpc hstep
  · rw [hasks, hbegun]
    refine Pool.indexed_set (fun j r hji hr => ?_)
      ((hP.fits i pc hpc).step hpc (askStep_course hstep).2)
    obtain ⟨hbefore, hprompted⟩ := hP.fits j r hr
    refine ⟨fun hp hj => ?_, fun hp => List.mem_append_right _ (hprompted hp)⟩
    rcases List.mem_append.mp hj with hj | hj
    · exact hji (mem_beginning.mp hj).1
    · exact hbefore hp hj
  · intro j hj
    rw [hasks, List.length_set]
    rw [hbegun] at hj
    rcases List.mem_append.mp hj with hj | hj
    · rw [(mem_beginning.mp hj).1]
      exact (List.getElem?_eq_some_iff.mp hpc).1
    · exact hP.started j hj
  · intro j hj
    rw [hcut] at hj
    have hdropped := hP.cut j hj
    have hij : i ≠ j := by
      rintro rfl
      rw [hpc] at hdropped
      exact (askStep_live hstep).1 (Option.some.inj hdropped)
    rw [hasks, List.getElem?_set_ne hij]
    exact hdropped

theorem Placed.drop (hP : Placed s) (hpc : s.world.sys.asks[i]? = some pc)
    (hsession : s'.world.sys.session = s.world.sys.session.release i)
    (hasks : s'.world.sys.asks = s.world.sys.asks.set i .dropped) (hbegun : s'.begun = s.begun)
    (hcut : s'.cut = cutting s.world (.session (.drop i)) ++ s.cut) : Placed s' := by
  refine ⟨?_, ?_, ?_, ?_⟩
  · rw [hasks, hsession]
    exact exclusive_release hP.guard hpc
  · rw [hasks, hbegun]
    exact Pool.indexed_set (fun j r _ hr => hP.fits j r hr) ⟨nofun, nofun⟩
  · rw [hasks, hbegun, List.length_set]
    exact hP.started
  · intro j hj
    rw [hasks]
    by_cases hij : i = j
    · subst hij
      exact List.getElem?_set_self (List.getElem?_eq_some_iff.mp hpc).1
    · rw [hcut] at hj
      rcases List.mem_append.mp hj with hj | hj
      · exact absurd (mem_cutting.mp hj).1.symm hij
      · rw [List.getElem?_set_ne hij]
        exact hP.cut j hj

theorem Placed.aside (hP : Placed s)
    (hasks : s'.world.sys.asks = s.world.sys.asks ∨
      s'.world.sys.asks = s.world.sys.asks ++ [.tryLock])
    (hguard : s'.world.sys.session.turnGuard = s.world.sys.session.turnGuard)
    (hbegun : s'.begun = s.begun) (hcut : s'.cut = s.cut) : Placed s' := by
  rcases hasks with hsame | hnew
  · refine ⟨fun i => ?_, ?_, ?_, ?_⟩
    · rw [hsame, hguard]
      exact hP.guard i
    · rw [hsame, hbegun]
      exact hP.fits
    · rw [hsame, hbegun]
      exact hP.started
    · rw [hsame, hcut]
      exact hP.cut
  · refine ⟨fun i => ?_, ?_, ?_, ?_⟩
    · rw [hnew, hguard]
      exact hP.guard.spawn rfl i
    · rw [hnew, hbegun]
      refine Pool.indexed_spawn hP.fits ⟨fun _ hj => ?_, nofun⟩
      exact absurd (hP.started _ hj) (lt_irrefl _)
    · intro j hj
      rw [hbegun] at hj
      rw [hnew, List.length_append]
      exact Nat.lt_add_right _ (hP.started j hj)
    · intro j hj
      rw [hcut] at hj
      have hold := hP.cut j hj
      rw [hnew, List.getElem?_append_left (List.getElem?_eq_some_iff.mp hold).1]
      exact hold

theorem Placed.step {a : Conversation.Action} (hP : Placed s)
    (hhap : Happening s.world a s'.world) (h : s.step a = some s') : Placed s' := by
  obtain ⟨-, hbegun, hcut, -⟩ := Watched.step_inv h
  cases hhap with
  | ask hid hpc hstep hasks => exact hP.ask hpc hstep hasks hbegun hcut
  | drop hid hpc hat hsession hasks => exact hP.drop hpc hsession hasks hbegun hcut
  | aside hid hasks hguard hbegin hnocut =>
    rw [hbegin] at hbegun
    rw [hnocut] at hcut
    exact hP.aside hasks hguard hbegun hcut

end Placing

theorem unfinished_congr {s s' : Watched} (hbegun : j ∈ s'.begun ↔ j ∈ s.begun)
    (hcut : j ∈ s'.cut ↔ j ∈ s.cut) (hpc : s'.world.sys.asks[j]? = s.world.sys.asks[j]?) :
    Unfinished s' j ↔ Unfinished s j := by
  simp only [Unfinished, hbegun, hcut, hpc]

theorem Placed.unfinished_iff {s : Watched} (hP : Placed s) (hpc : s.world.sys.asks[i]? = some pc)
    (hlive : pc ≠ .dropped) : Unfinished s i ↔
      i ∈ s.begun ∧ (phaseOf pc = .prompted ∨ phaseOf pc = .failed) := by
  constructor
  · rintro (hcut | ⟨hbegun, pc₁, hpc₁, hphase⟩)
    · have hdropped := hP.cut i hcut
      rw [hpc] at hdropped
      exact absurd (Option.some.inj hdropped) hlive
    · rw [hpc] at hpc₁
      cases hpc₁
      exact ⟨hbegun, hphase⟩
  · rintro ⟨hbegun, hphase⟩
    exact .inr ⟨hbegun, pc, hpc, hphase⟩

inductive Progress (s : Watched) (a : Conversation.Action) (s' : Watched) : Prop
  | quiet (hbegin : beginning s.world a = []) (hopen : ∀ j, Unfinished s' j ↔ Unfinished s j)
    (hevents : events s'.world = events s.world ∨ ∃ e, events s'.world = events s.world ++ [e] ∧
      (e.sessionId = s.world.id → Neutral e.payload) ∧
      ∀ i, owner s.world a = some i → e.sessionId = s.world.id ∧
        isTurnScopedEvent e.payload = true)
  | prompts {i : ℕ} {e : SessionEvent} (hbegin : beginning s.world a = [i])
    (howner : owner s.world a = none)
    (hfailed : ∀ j, Unfinished s j → j ∈ s.cut ∨
      j ∈ s.begun ∧ ∃ pc, s.world.sys.asks[j]? = some pc ∧ failed pc = true)
    (hopen : ∀ j, Unfinished s' j ↔ Unfinished s j ∨ j = i)
    (hevents : events s'.world = events s.world ++ [e]) (hown : e.sessionId = s.world.id)
    (hpayload : prompting e.payload = true)
  | completes {i : ℕ} {e : SessionEvent} (hbegin : beginning s.world a = [])
    (howner : owner s.world a = none) (hi : Unfinished s i)
    (hopen : ∀ j, Unfinished s' j ↔ Unfinished s j ∧ j ≠ i)
    (hevents : events s'.world = events s.world ++ [e]) (hown : e.sessionId = s.world.id)
    (hpayload : isTurnComplete e.payload = true)

theorem Placed.failed_of_inside {s : Watched} (hP : Placed s)
    (hpc : s.world.sys.asks[i]? = some pc) (hin : pc.inside = true) (hij : j ≠ i)
    (hj : Unfinished s j) : j ∈ s.cut ∨
      j ∈ s.begun ∧ ∃ pc, s.world.sys.asks[j]? = some pc ∧ failed pc = true := by
  rcases hj with hcut | ⟨hbegun, pc', hpc', hphase⟩
  · exact .inl hcut
  · have hout : pc'.inside = false := by
      by_contra hin'
      have hheld' := (hP.guard.inside_iff hpc').mp (Bool.not_eq_false _ ▸ hin')
      rw [(hP.guard.inside_iff hpc).mp hin] at hheld'
      exact hij (Option.some.inj hheld').symm
    refine .inr ⟨hbegun, pc', hpc', ?_⟩
    rcases hphase with hp | hp
    · rw [inside_of_prompted hp] at hout
      cases hout
    · rcases inside_of_failed hp with hin' | hfailed
      · rw [hin'] at hout
        cases hout
      · exact hfailed

theorem ask_progress {s s' : Watched} {o : Outcome} (hP : Placed s)
    (h : s.step (.session (.askStep i o)) = some s') (hpc : s.world.sys.asks[i]? = some pc)
    (hcourse : Course pc pc') (hlive : pc ≠ .dropped) (hlive' : pc' ≠ .dropped)
    (hP' : Placed s') (hasks : s'.world.sys.asks = s.world.sys.asks.set i pc')
    (hevents : events s'.world =
      events s.world ++ (logged pc).map (s.world.hist.sys.drawn s.world.id s.world.agent)) :
    Progress s (.session (.askStep i o)) s' := by
  obtain ⟨-, hbegun, hcut, -⟩ := Watched.step_inv h
  have hpc' : s'.world.sys.asks[i]? = some pc' := by
    rw [hasks]
    exact List.getElem?_set_self (List.getElem?_eq_some_iff.mp hpc).1
  have hself := hP.unfinished_iff hpc hlive
  have hself' := hP'.unfinished_iff hpc' hlive'
  have hother : ∀ j, j ≠ i → (Unfinished s' j ↔ Unfinished s j) := by
    intro j hji
    have hnew : j ∉ beginning s.world (.session (.askStep i o)) :=
      fun hj => hji (mem_beginning.mp hj).1
    refine unfinished_congr ?_ ?_ ?_
    · rw [hbegun, List.mem_append, or_iff_right hnew]
    · rw [hcut]
      rfl
    · rw [hasks]
      exact List.getElem?_set_ne (Ne.symm hji)
  obtain ⟨hbefore, hprompted⟩ := hP.fits i pc hpc
  rcases hcourse.begins (o := o) hpc with ⟨rfl, rfl, hbegin⟩ | ⟨hne, hbegin⟩
  · refine .prompts hbegin rfl (fun j hj => ?_) (fun j => ?_) hevents rfl rfl
    · refine hP.failed_of_inside hpc rfl ?_ hj
      rintro rfl
      exact absurd (hself.mp hj).1 (hbefore rfl)
    · by_cases hji : j = i
      · subst hji
        refine ⟨fun _ => .inr rfl, fun _ => hself'.mpr ⟨?_, .inl rfl⟩⟩
        rw [hbegun, hbegin]
        exact List.mem_cons_self
      · rw [hother j hji, or_iff_left hji]
  · rw [hbegin, List.nil_append] at hbegun
    rw [hbegun] at hself'
    cases hcourse with
    | prompts => exact absurd rfl hne
    | completes =>
      refine .completes hbegin rfl (hself.mpr ⟨hprompted rfl, .inl rfl⟩) (fun j => ?_) hevents
        rfl rfl
      by_cases hji : j = i
      · subst hji
        rw [hself']
        simp [phaseOf]
      · rw [hother j hji, and_iff_left hji]
    | quiet hlog hphase =>
      refine .quiet hbegin (fun j => ?_) ?_
      · by_cases hji : j = i
        · subst hji
          rw [hself, hself']
          refine and_congr_right fun hj => ?_
          rcases hphase with hsame | ⟨hfailed, hb | hp⟩
          · rw [hsame]
          · exact absurd hj (hbefore hb)
          · simp [hfailed, hp]
        · exact hother j hji
      · rcases hlogged : logged pc with _ | ⟨payload, rest⟩
        · rw [hlogged] at hevents
          exact .inl (hevents.trans (List.append_nil _))
        · have hrest : rest = [] := by
            have hlen := @length_logged pc
            rw [hlogged] at hlen
            exact List.eq_nil_of_length_eq_zero (by simpa using hlen)
          subst hrest
          rw [hlogged] at hevents hlog
          exact .inr ⟨_, hevents, fun _ => hlog _ (List.mem_singleton_self _), nofun⟩

theorem drop_progress {s s' : Watched} (hP : Placed s) (h : s.step (.session (.drop i)) = some s')
    (hpc : s.world.sys.asks[i]? = some pc) (hat : pc.atAwait = true)
    (hasks : s'.world.sys.asks = s.world.sys.asks.set i .dropped)
    (hevents : events s'.world = events s.world) : Progress s (.session (.drop i)) s' := by
  obtain ⟨-, hbegun, hcut, -⟩ := Watched.step_inv h
  have hlive : pc ≠ .dropped := by
    rintro rfl
    cases hat
  have hpc' : s'.world.sys.asks[i]? = some .dropped := by
    rw [hasks]
    exact List.getElem?_set_self (List.getElem?_eq_some_iff.mp hpc).1
  have hmem : ∀ j, j ∈ s'.begun ↔ j ∈ s.begun := by
    intro j
    rw [hbegun]
    rfl
  refine .quiet rfl (fun j => ?_) (.inl hevents)
  by_cases hji : j = i
  · subst hji
    rw [hP.unfinished_iff hpc hlive]
    constructor
    · rintro (hj | ⟨-, pc₁, hpc₁, hphase⟩)
      · rw [hcut] at hj
        rcases List.mem_append.mp hj with hj | hj
        · have hphase := (mem_cutting.mp hj).2
          rw [hpc] at hphase
          have hp : phaseOf pc = .prompted := Option.some.inj hphase
          exact ⟨(hP.fits j pc hpc).2 hp, .inl hp⟩
        · have hdropped := hP.cut j hj
          rw [hpc] at hdropped
          exact absurd (Option.some.inj hdropped) hlive
      · rw [hpc'] at hpc₁
        cases hpc₁
        simp [phaseOf] at hphase
    · rintro ⟨-, hp | hfailed⟩
      · refine .inl ?_
        rw [hcut]
        exact List.mem_append_left _ (mem_cutting.mpr ⟨rfl, by rw [hpc, Option.map_some, hp]⟩)
      · rw [atAwait_of_failed hfailed] at hat
        cases hat
  · refine unfinished_congr (hmem j) ?_ ?_
    · rw [hcut, List.mem_append, or_iff_right fun hj => hji (mem_cutting.mp hj).1]
    · rw [hasks]
      exact List.getElem?_set_ne (Ne.symm hji)

theorem step_progress {s s' : Watched} {a : Conversation.Action} (hP : Placed s)
    (ha : OfSession s.world.id a) (h : s.step a = some s') :
    s'.world.id = s.world.id ∧ Placed s' ∧ Progress s a s' := by
  obtain ⟨hw, hbegun, hcut, -⟩ := Watched.step_inv h
  have hhap := step_happening ha hw
  have hP' := hP.step hhap h
  cases hhap with
  | @ask i o pc pc' _ hid hpc hstep hasks hevents =>
    obtain ⟨hlive, hlive'⟩ := askStep_live hstep
    exact ⟨hid, hP', ask_progress hP h hpc (askStep_course hstep).2 hlive hlive' hP' hasks hevents⟩
  | @drop i pc _ hid hpc hat hsession hasks hevents =>
    exact ⟨hid, hP', drop_progress hP h hpc hat hasks hevents⟩
  | aside hid hasks hguard hbegin hnocut hevents =>
    rw [hbegin] at hbegun
    rw [hnocut] at hcut
    refine ⟨hid, hP', .quiet hbegin (fun j => ?_) hevents⟩
    rcases hasks with hsame | hnew
    · exact unfinished_congr (by rw [hbegun]; rfl) (by rw [hcut]; rfl) (by rw [hsame])
    · rcases Nat.lt_or_ge j s.world.sys.asks.length with hlt | hge
      · refine unfinished_congr (by rw [hbegun]; rfl) (by rw [hcut]; rfl) ?_
        rw [hnew, List.getElem?_append_left hlt]
      · -- a call that is not there yet has not begun
        constructor
        · rintro (hj | ⟨hj, -⟩)
          · rw [hcut] at hj
            exact .inl hj
          · rw [hbegun] at hj
            exact absurd (hP.started j hj) (Nat.not_lt.mpr hge)
        · rintro (hj | ⟨hj, -⟩)
          · refine .inl ?_
            rw [hcut]
            exact hj
          · exact absurd (hP.started j hj) (Nat.not_lt.mpr hge)

theorem sessionLog_own {e : SessionEvent} (hid : w'.id = w.id)
    (h : events w' = events w ++ [e]) (hown : e.sessionId = w.id) :
    sessionLog w' = sessionLog w ++ [e.payload] := by
  rw [sessionLog_append hid h]
  simp [hown]

theorem sessionLog_quiet (hid : w'.id = w.id)
    (h : events w' = events w ∨ ∃ e, events w' = events w ++ [e] ∧
      (e.sessionId = w.id → Neutral e.payload)) :
    ∃ payloads, sessionLog w' = sessionLog w ++ payloads ∧ ∀ p ∈ payloads, Neutral p := by
  rcases h with hsame | ⟨e, hnew, hneutral⟩
  · exact ⟨[], by rw [sessionLog, sessionLog, hsame, hid, List.append_nil], nofun⟩
  · refine ⟨_, sessionLog_append hid hnew, fun p hp => ?_⟩
    obtain ⟨e', he', rfl⟩ := List.mem_map.mp hp
    obtain ⟨hmem, hown⟩ := List.mem_filter.mp he'
    rw [List.mem_singleton.mp hmem] at hown ⊢
    exact hneutral (of_decide_eq_true hown)

theorem Progress.log {s s' : Watched} {a : Conversation.Action} (h : Progress s a s')
    (hid : s'.world.id = s.world.id) :
    ∃ payloads, sessionLog s'.world = sessionLog s.world ++ payloads := by
  cases h with
  | quiet _ _ hevents =>
    obtain ⟨payloads, hlog, -⟩ := sessionLog_quiet hid
      (hevents.imp_right fun ⟨e, hnew, hneutral, _⟩ => ⟨e, hnew, hneutral⟩)
    exact ⟨payloads, hlog⟩
  | prompts _ _ _ _ hevents hown _ | completes _ _ _ _ hevents hown _ =>
    exact ⟨_, sessionLog_own hid hevents hown⟩

theorem prompting_of_complete {payload : EventPayload} (h : isTurnComplete payload = true) :
    prompting payload = false := by
  cases payload <;> first | rfl | cases h

theorem Turning.step {s s' : Watched} {a : Conversation.Action} (hT : Turning s)
    (hC : AfterSuccess s a) (hid : s'.world.id = s.world.id) (h : Progress s a s') :
    Turning s' := by
  cases h with
  | quiet hbegin hopen hevents =>
    obtain ⟨payloads, hlog, hneutral⟩ := sessionLog_quiet hid
      (hevents.imp_right fun ⟨e, hnew, hneutral, _⟩ => ⟨e, hnew, hneutral⟩)
    have htally := tally_append (l := sessionLog s.world) hneutral
    rw [← hlog] at htally
    refine ⟨fun i j hi hj => hT.one i j ((hopen i).mp hi) ((hopen j).mp hj), ?_, ?_, ?_⟩
    · intro i hi
      rw [htally]
      exact hT.running i ((hopen i).mp hi)
    · intro hno
      rw [htally]
      exact hT.rest fun i hi => hno i ((hopen i).mpr hi)
    · rw [hlog]
      exact oneBetween_append (fun p hp => (hneutral p hp).1) hT.between
  | @prompts i e hbegin howner hfailed hopen hevents hown hpayload =>
    obtain ⟨hcut, hall⟩ := hC (by rw [hbegin]; nofun)
    have hnone : ∀ j, ¬ Unfinished s j := by
      intro j hj
      rcases hfailed j hj with hj | ⟨hbegun, pc, hpc, hf⟩
      · rw [hcut] at hj
        cases hj
      · rw [hall j hbegun pc hpc] at hf
        cases hf
    have hiff : ∀ j, Unfinished s' j ↔ j = i := fun j => by rw [hopen j, or_iff_right (hnone j)]
    have hlog := sessionLog_own hid hevents hown
    have htally : tally prompting isTurnComplete (sessionLog s'.world) = some 0 := by
      rw [hlog, tally_concat]
      simp [note, hpayload]
    refine ⟨fun j k hj hk => ((hiff j).mp hj).trans ((hiff k).mp hk).symm, fun _ _ => htally,
      fun hno => absurd ((hiff i).mpr rfl) (hno i), ?_⟩
    rw [hlog]
    exact oneBetween_concat.mpr ⟨hT.between, fun _ => hT.rest hnone⟩
  | @completes i e hbegin howner hi hopen hevents hown hpayload =>
    have hlog := sessionLog_own hid hevents hown
    have hprompting := prompting_of_complete hpayload
    have htally : tally prompting isTurnComplete (sessionLog s'.world) = some 1 := by
      rw [hlog, tally_concat, hT.running i hi]
      simp [note, hprompting, hpayload]
    have hnone : ∀ j, ¬ Unfinished s' j := by
      intro j hj
      obtain ⟨hold, hji⟩ := (hopen j).mp hj
      exact hji (hT.one j i hold hi)
    refine ⟨fun j k hj => absurd hj (hnone j), fun j hj => absurd hj (hnone j),
      fun _ => .inr htally, ?_⟩
    rw [hlog]
    refine oneBetween_append (fun p hp => ?_) hT.between
    rw [List.mem_singleton.mp hp]
    exact hprompting

theorem Turning.damaged {s s' : Watched} {a : Conversation.Action} (hT : Turning s)
    (hC : ¬ AfterSuccess s a) (hid : s'.world.id = s.world.id) (h : Progress s a s') :
    ¬ OneBetween prompting isTurnComplete (sessionLog s'.world) := by
  unfold AfterSuccess at hC
  rw [Classical.not_imp] at hC
  obtain ⟨hbegins, hfail⟩ := hC
  have hunfinished : ∃ j, Unfinished s j := by
    rw [not_and_or] at hfail
    rcases hfail with hcut | hreturned
    · obtain ⟨j, hj⟩ := List.exists_mem_of_ne_nil _ hcut
      exact ⟨j, .inl hj⟩
    · push Not at hreturned
      obtain ⟨j, hj, pc, hpc, hf⟩ := hreturned
      rw [ne_eq, Bool.not_eq_false] at hf
      exact ⟨j, .inr ⟨hj, pc, hpc, .inr (failed_phase hf)⟩⟩
  cases h with
  | quiet hbegin | completes hbegin => exact absurd hbegin hbegins
  | prompts _ _ _ _ hevents hown hpayload =>
    rw [sessionLog_own hid hevents hown]
    intro hone
    obtain ⟨j, hj⟩ := hunfinished
    have hzero := hT.running j hj
    rcases (oneBetween_concat.mp hone).2 hpayload with ht | ht
    · rw [hzero] at ht
      cases ht
    · rw [hzero] at ht
      cases ht

end Turns

section Cards
variable {i : ℕ} {s s' : Watched} {a : Conversation.Action} {e : SessionEvent} {o : Option ℕ}

theorem asking_prompted {w : World} {client : ClientId} (h : asking w client = some i) :
    ∃ pc, w.sys.asks[i]? = some pc ∧ phaseOf pc = .prompted := by
  have hi := List.find?_some h
  split at hi
  · next start c hpc => exact ⟨_, hpc, rfl⟩
  · cases hi

theorem owner_prompted {w : World} (h : owner w a = some i) :
    ∃ pc, w.sys.asks[i]? = some pc ∧ phaseOf pc = .prompted := by
  cases a
  case update client update => exact asking_prompted h
  all_goals cases h

theorem page_concat {w w' : World} (h : events w' = events w ++ [e]) :
    page w' = ((page w).ingestEvent e).1 := by
  rw [page, h, Ui.ingestAll_concat]
  rfl

theorem shown_concat {w w' : World} (h : events w' = events w ++ [e]) :
    shown w' = shown w ++ [((page w).ingestEvent e).2] := by
  rw [shown, h, Ui.ingestAll_concat]
  rfl

theorem length_shown {w : World} : (shown w).length = (events w).length := Ui.length_ingestAll

theorem Carded.same (hK : Carded s) (hid : s'.world.id = s.world.id)
    (hevents : events s'.world = events s.world) (howners : s'.owners = s.owners)
    (hopen : ∀ j, Unfinished s j → Unfinished s' j) : Carded s' := by
  have hpage : page s'.world = page s.world := by rw [page, page, hevents]
  have hview : view s'.world = view s.world := by rw [view, view, hpage, hid]
  have hshown : shown s'.world = shown s.world := by rw [shown, shown, hevents]
  refine ⟨?_, ?_, ?_, ?_⟩
  · rw [howners, hevents]
    exact hK.length
  · rw [hview]
    exact hK.valid
  · rw [howners, hshown, hview, hid]
    intro m j op hm hop
    obtain ⟨card, heq, hlt, hcur⟩ := hK.placed m j op hm hop
    exact ⟨card, heq, hlt, fun hc => hopen j (hcur hc)⟩
  · unfold CardsApart
    rw [howners, hshown]
    exact hK.apart

section Concat
variable (hK : Carded s) (hevents : events s'.world = events s.world ++ [e])
  (howners : s'.owners = s.owners ++ [o])

include hK hevents howners

theorem Carded.event_cases {m j : ℕ} {op : DisplayOp} (hm : s'.owners[m]? = some (some j))
    (hop : (shown s'.world)[m]? = some op) :
    s.owners[m]? = some (some j) ∧ (shown s.world)[m]? = some op ∨
      o = some j ∧ op = ((page s.world).ingestEvent e).2 := by
  have hlen : (shown s.world).length = s.owners.length := length_shown.trans hK.length.symm
  rw [shown_concat hevents] at hop
  rw [howners] at hm
  rcases Nat.lt_trichotomy m s.owners.length with hlt | heq | hgt
  · rw [List.getElem?_append_left hlt] at hm
    rw [List.getElem?_append_left (by rw [hlen]; exact hlt)] at hop
    exact .inl ⟨hm, hop⟩
  · subst heq
    rw [List.getElem?_concat_length] at hm
    rw [← hlen, List.getElem?_concat_length] at hop
    exact .inr ⟨Option.some.inj hm, (Option.some.inj hop).symm⟩
  · have hnone : (s.owners ++ [o])[m]? = none := by
      rw [List.getElem?_eq_none_iff, List.length_append, List.length_singleton]
      exact hgt
    rw [hnone] at hm
    cases hm

theorem Carded.concat (hT : Turning s) (hid : s'.world.id = s.world.id)
    (hopen : ∀ j, Unfinished s j →
      Unfinished s' j ∨ e.sessionId = s.world.id ∧ isTurnComplete e.payload = true)
    (ho : ∀ j, o = some j → e.sessionId = s.world.id ∧ isTurnScopedEvent e.payload = true ∧
      Unfinished s j ∧ Unfinished s' j) : Carded s' := by
  have hview : view s'.world = ((page s.world).ingestEvent e).1.sessionViews s.world.id := by
    rw [view, page_concat hevents, hid]
  obtain ⟨hvalid, hle, hstill⟩ := @Ui.ingestEvent_view _ e _ hK.valid
  rw [← hview] at hvalid hle hstill
  have hnew : ∀ j, o = some j →
      ((page s.world).ingestEvent e).2 = .upsert s.world.id (view s.world).cardAt ∧
        (view s.world).cardAt < (view s'.world).items.length := by
    intro j hj
    obtain ⟨hown, hscoped, -, -⟩ := ho j hj
    obtain ⟨hop, -, -, hlt⟩ := Ui.ingestEvent_turn (by rw [hown]; exact hK.valid) hscoped
    rw [hown] at hop hlt
    rw [hview]
    exact ⟨hop, hlt⟩
  -- an event of an ask that was there and shares the card of the new one
  have hmix : ∀ (m i j : ℕ), s.owners[m]? = some (some i) →
      (shown s.world)[m]? = some ((page s.world).ingestEvent e).2 → o = some j → i = j := by
    intro m i j hm hop hj
    obtain ⟨card, heq, hlt, hcur⟩ := hK.placed m i _ hm hop
    rw [(hnew j hj).1] at heq
    cases heq
    exact hT.one i j (hcur (Ui.cardAt_open hlt)) (ho j hj).2.2.1
  refine ⟨?_, hvalid, ?_, ?_⟩
  · rw [howners, hevents, List.length_append, List.length_append, hK.length]
    rfl
  · intro m j op hm hop
    rw [hid]
    rcases hK.event_cases hevents howners hm hop with ⟨hm, hop⟩ | ⟨hj, rfl⟩
    · obtain ⟨card, heq, hlt, hcur⟩ := hK.placed m j op hm hop
      refine ⟨card, heq, Nat.lt_of_lt_of_le hlt hle, fun hc => ?_⟩
      obtain ⟨hc, hdone⟩ := hstill card hlt hc
      exact (hopen j (hcur hc)).resolve_right hdone
    · exact ⟨_, (hnew j hj).1, (hnew j hj).2, fun _ => (ho j hj).2.2.2⟩
  · intro m n i j op hm hn hopm hopn
    rcases hK.event_cases hevents howners hm hopm with ⟨hm, hopm⟩ | ⟨hi, rfl⟩
    · rcases hK.event_cases hevents howners hn hopn with ⟨hn, hopn⟩ | ⟨hj, rfl⟩
      · exact hK.apart m n i j op hm hn hopm hopn
      · exact hmix m i j hm hopm hj
    · rcases hK.event_cases hevents howners hn hopn with ⟨hn, hopn⟩ | ⟨hj, -⟩
      · exact (hmix n j i hn hopn hi).symm
      · rw [hi] at hj
        exact Option.some.inj hj

end Concat

theorem owners_same (h : s.step a = some s') (hevents : events s'.world = events s.world) :
    s'.owners = s.owners := by
  obtain ⟨-, -, -, howners⟩ := Watched.step_inv h
  have hlen := congrArg List.length hevents
  simp only [events, List.length_map] at hlen
  rw [howners, hlen, Nat.sub_self, List.replicate_zero, List.append_nil]

theorem owners_concat (h : s.step a = some s')
    (hevents : events s'.world = events s.world ++ [e]) :
    s'.owners = s.owners ++ [owner s.world a] := by
  obtain ⟨-, -, -, howners⟩ := Watched.step_inv h
  have hlen := congrArg List.length hevents
  simp only [events, List.length_map, List.length_append, List.length_singleton] at hlen
  rw [howners, hlen, Nat.add_sub_cancel_left]
  rfl

theorem Carded.step (hK : Carded s) (hT : Turning s) (hP : Placed s)
    (hid : s'.world.id = s.world.id) (h : s.step a = some s') (hprogress : Progress s a s') :
    Carded s' := by
  cases hprogress with
  | quiet hbegin hopen hevents =>
    have hkeep : ∀ j, Unfinished s j → Unfinished s' j := fun j => (hopen j).mpr
    rcases hevents with hsame | ⟨e, hnew, hneutral, howner⟩
    · exact hK.same hid hsame (owners_same h hsame) hkeep
    · refine hK.concat hnew (owners_concat h hnew) hT hid (fun j hj => .inl (hkeep j hj)) ?_
      intro j hj
      obtain ⟨hown, hscoped⟩ := howner j hj
      obtain ⟨pc, hpc, hphase⟩ := owner_prompted hj
      have hun : Unfinished s j := .inr ⟨(hP.fits j pc hpc).2 hphase, pc, hpc, .inl hphase⟩
      exact ⟨hown, hscoped, hun, hkeep j hun⟩
  | prompts hbegin howner hfailed hopen hevents hown hpayload =>
    refine hK.concat hevents (owners_concat h hevents) hT hid
      (fun j hj => .inl ((hopen j).mpr (.inl hj))) (fun j hj => ?_)
    rw [howner] at hj
    cases hj
  | completes hbegin howner hi hopen hevents hown hpayload =>
    refine hK.concat hevents (owners_concat h hevents) hT hid (fun _ _ => .inr ⟨hown, hpayload⟩)
      (fun j hj => ?_)
    rw [howner] at hj
    cases hj

end Cards

section Runs
variable {id agent : String} {maxEntries now : ℕ} {s s' : Watched} {a : Conversation.Action}

structure Inv (id : String) (s : Watched) : Prop where
  own : s.world.id = id
  placed : Placed s
  turning : Turning s
  carded : Carded s

theorem inv_new : Inv id (.new id agent maxEntries now) := by
  have hnone : ∀ i, ¬ Unfinished (.new id agent maxEntries now) i := by
    rintro i (hi | ⟨hi, -⟩) <;> cases hi
  refine ⟨rfl, ⟨.nil rfl, nofun, nofun, nofun⟩, ⟨?_, ?_, fun _ => .inl rfl, oneBetween_nil⟩,
    ⟨rfl, nofun, nofun, nofun⟩⟩
  · intro i j hi
    exact absurd hi (hnone i)
  · intro i hi
    exact absurd hi (hnone i)

theorem step_inv (s : Watched) (a : Conversation.Action) (s' : Watched) (h : Inv id s)
    (hC : AfterSuccess s a ∧ OfSession id a) (hs : s.step a = some s') : Inv id s' := by
  obtain ⟨hown, hP, hT, hK⟩ := h
  obtain ⟨hid, hP', hprogress⟩ := step_progress hP (by rw [hown]; exact hC.2) hs
  exact ⟨hid.trans hown, hP', hT.step hC.1 hid hprogress, hK.step hT hP hid hs hprogress⟩

/-- In every run there is exactly one `TurnComplete` between the `PROMPTING` of
two asks, and no item of the page has events of two asks, if and only if no ask
comes to prompt after one that failed. -/
theorem one_card_a_turn (as : List Conversation.Action) (t : Watched)
    (hof : ∀ a ∈ as, OfSession id a)
    (hrun : run Watched.step (.new id agent maxEntries now) as = some t) :
    (OneBetween prompting isTurnComplete (sessionLog t.world) ∧ CardsApart t) ↔
      Along Watched.step AfterSuccess (.new id agent maxEntries now) as := by
  have hofs : Along Watched.step (fun _ a => OfSession id a)
      (.new id agent maxEntries now) as := along_of_forall fun a ha _ => hof a ha
  constructor
  · rintro ⟨hone, -⟩
    have hC := along_of_end (C := fun s a => AfterSuccess s a ∧ OfSession id a)
      (L := fun s => s.world.id = id ∧ Placed s ∧
        ¬ OneBetween prompting isTurnComplete (sessionLog s.world))
      step_inv ?_ ?_ inv_new hofs hrun fun hL => hL.2.2 hone
    · exact hC.mono fun _ _ h => h.1
    · intro s a s' hI hD hbroken hs
      obtain ⟨hid, hP', hprogress⟩ := step_progress hI.placed (by rw [hI.own]; exact hD) hs
      have hC : ¬ AfterSuccess s a := fun hC => hbroken ⟨hC, hD⟩
      exact ⟨hid.trans hI.own, hP', hI.turning.damaged hC hid hprogress⟩
    · rintro s a s' ⟨hown, hP, hL⟩ hD hs
      obtain ⟨hid, hP', hprogress⟩ := step_progress hP (by rw [hown]; exact hD) hs
      refine ⟨hid.trans hown, hP', fun hone => hL ?_⟩
      obtain ⟨payloads, hlog⟩ := hprogress.log hid
      rw [hlog] at hone
      exact oneBetween_of_append hone
  · intro hC
    have hI := invariant step_inv inv_new (hC.and hofs) hrun
    exact ⟨hI.turning.between, hI.carded.apart⟩

end Runs

def toNextPrompt (i k : ℕ) : List Conversation.Action :=
  [.session .ask] ++ steps i [.go, .go, .now 3, .go, .go, .go, .go, .go] ++ appended k ++
    steps i [.loaded (k + 2), .go, .go, .go]

def toRejected (i k : ℕ) : List Conversation.Action :=
  steps i [.rejected "overloaded", .connected true, .go, .go, .go] ++ appended k ++
    steps i [.now 2, .go, .go]

def twoTurns : List Conversation.Action :=
  toPrompt 0 0 ++ chunk 0 "hello" 3 ++ [.respond 0] ++ toReturn 0 4 1 "hello" ++
    toNextPrompt 1 6 ++ chunk 0 "again" 7 ++ [.respond 1] ++ toReturn 1 8 1 "again"

theorem one_card_a_turn_twoTurns :
    ∃ t, run Watched.step (.new "s" "codex" 100 0) twoTurns = some t ∧
      t.world.sys.asks[1]? = some (.returned (.ok "again")) ∧
      OneBetween prompting isTurnComplete (sessionLog t.world) ∧ CardsApart t := by
  obtain ⟨t, hrun, hok⟩ := exists_run (s := Watched.new "s" "codex" 100 0)
    (fun t => t.world.sys.asks[1]? = some (.returned (.ok "again")))
    (by decide +kernel : (run Watched.step (.new "s" "codex" 100 0) twoTurns).any _ = true)
  exact ⟨t, hrun, hok, (one_card_a_turn twoTurns t (by decide) hrun).mpr (by decide +kernel)⟩

def rejectedTurn : List Conversation.Action :=
  toPrompt 0 0 ++ chunk 0 "hel" 3 ++ toRejected 0 4 ++ toNextPrompt 1 5 ++ chunk 0 "lo" 6

/-- The agent answers the first prompt with an error and goes on running. What
it sends for the second goes to the card of the first. -/
theorem rejectedTurn_shared :
    (∀ a ∈ rejectedTurn, OfSession "s" a) ∧
    ∃ t, run Watched.step (.new "s" "codex" 100 0) rejectedTurn = some t ∧
      t.world.sys.asks[0]? = some (.returned (.err (.client "overloaded"))) ∧
      ¬ OneBetween prompting isTurnComplete (sessionLog t.world) ∧ ¬ CardsApart t := by
  refine ⟨by decide, ?_⟩
  obtain ⟨t, hrun, hfailed, hlog, hown, hops⟩ := exists_run (s := Watched.new "s" "codex" 100 0)
    (fun t => t.world.sys.asks[0]? = some (.returned (.err (.client "overloaded"))) ∧
      sessionLog t.world = [stateChange .starting .idle, stateChange .running .idle] ++
        stateChange .running .prompting ::
          ([.messageChunk "hel", stateChange .running .idle] ++
            stateChange .running .prompting :: [.messageChunk "lo"]) ∧
      (t.owners[3]? = some (some 0) ∧ t.owners[6]? = some (some 1)) ∧
      (shown t.world)[3]? = some (.upsert "s" 1) ∧ (shown t.world)[6]? = some (.upsert "s" 1))
    (by decide +kernel : (run Watched.step (.new "s" "codex" 100 0) rejectedTurn).any _ = true)
  refine ⟨t, hrun, hfailed, fun hone => ?_, fun hapart => ?_⟩
  · have hcount := hone _ _ _ _ _ hlog (by decide) (by decide) (by decide)
    cases hcount
  · cases hapart 3 6 0 1 _ hown.1 hown.2 hops.1 hops.2

end Ccgonext.TurnCards
