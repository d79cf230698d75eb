import Ccgonext.Session
import Ccgonext.Lib.Runs

/-!
# Asks behind the turn guard

While only `ask` works on a session, the session is in a consistent rest state
whenever `turn_guard` is free: the turn is idle, and the session is either up
with a client and a session id or down with neither. `At` is the assertion that
carries this through the positions of the call that holds the guard. A future
that is dropped leaves the fields as they are, so a drop is harmless exactly
where the turn is idle and the process is not starting.
-/

namespace Ccgonext.TurnGuard
open Lib Lib.Runs Lib.CriticalSection Session

def Up (s : AcpSession) : Prop :=
  s.processState = .running ∧ s.client.isSome = true ∧ s.acpSessionId.isSome = true

def Empty (s : AcpSession) : Prop := s.client = none ∧ s.acpSessionId = none

def Rest (s : AcpSession) : Prop :=
  s.turnState = .idle ∧ (Up s ∨ s.processState.canStart = true ∧ Empty s)

def Launch (s : AcpSession) : Prop :=
  s.turnState = .idle ∧ s.processState = .starting ∧ Empty s

def Prompt (s : AcpSession) : Prop := s.turnState = .prompting ∧ Up s

def Before : Next → AcpSession → Prop
  | .spawn, s => Rest s ∧ s.processState.canStart = true
  | .fail _, s => Launch s
  | .prompting, s => s.turnState = .idle ∧ s.processState = .starting ∧
      s.client.isSome = true ∧ s.acpSessionId.isSome = true
  | .startSeq, s => Rest s ∧ s.processState = .running
  | .touch .., s | .touchFailed _, s => Prompt s
  | .terminate .., s => s.turnState = .prompting ∧ s.processState = .running ∧ Empty s

def Between : Next → AcpSession → Prop
  | .spawn, s => Launch s
  | .fail _, s => s.turnState = .idle ∧ s.processState = .dead ∧ Empty s
  | .prompting, s | .startSeq, s => s.turnState = .idle ∧ Up s
  | .touch .., s | .touchFailed _, s => Prompt s
  | .terminate .., s => s.turnState = .prompting ∧ s.processState = .dead ∧ Empty s

def After : Next → AcpSession → Prop
  | .spawn, s => Launch s
  | .fail _, s | .terminate .., s => Rest s
  | .prompting, s | .touch .., s | .touchFailed _, s => Rest s ∧ s.processState = .running
  | .startSeq, s => Prompt s

def At : AskPc → AcpSession → Prop
  | .setProcess next, s => Before next s
  | .setTurn next, s => Between next s
  | .emit next, s => After next s
  | .spawn, s | .trackPid .., s | .initializeClient _, s | .newSession _, s | .abandon .., s
  | .untrackPid _, s | .storeSessionId .., s => Launch s
  | .storeClient _, s => s.turnState = .idle ∧ s.processState = .starting ∧ s.client = none ∧
      s.acpSessionId.isSome = true
  | .startSeq, s | .readClient _, s | .readSessionId .., s | .prompt .., s | .awaitPrompt .., s
  | .checkConnected _, s | .takeClient _, s => Prompt s
  | .clearSessionId .., s => s.turnState = .prompting ∧ s.processState = .running ∧ s.client = none
  | .clearPid .., s => s.turnState = .prompting ∧ s.processState = .running ∧ Empty s
  | .touch .., s | .storeTouch .., s | .turnComplete .., s | .loadMin _, s | .collect .., s
  | .touchFailed _, s | .storeFailed .., s => Rest s ∧ s.processState = .running
  | _, s => Rest s

theorem rest_new (now : ℕ) : Rest (.new now) := ⟨rfl, .inr ⟨rfl, rfl, rfl⟩⟩

theorem Rest.up {s : AcpSession} (h : Rest s) (hr : s.processState = .running) : Up s := by
  rcases h.2 with hu | ⟨hc, -⟩
  · exact hu
  · rw [hr] at hc
    cases hc

theorem Rest.not_starting {s : AcpSession} (h : Rest s) : s.processState ≠ .starting := by
  rcases h.2 with ⟨hp, -⟩ | ⟨hc, -⟩
  · rw [hp]
    decide
  · intro hs
    rw [hs] at hc
    cases hc

theorem Rest.empty {s : AcpSession} (h : Rest s) (hr : s.processState ≠ .running) :
    s.processState.canStart = true ∧ Empty s := by
  rcases h.2 with ⟨hp, -⟩ | hd
  · exact absurd hp hr
  · exact hd

theorem After.at_pc {next : Next} {s : AcpSession} (h : After next s) (payload : Events.EventPayload) :
    At next.pc (s.append payload) := by
  cases next <;> exact h

theorem setProcess_at {next : Next} {s : AcpSession} (h : Before next s) :
    Between next { s with processState := next.process } := by
  cases next with
  | spawn =>
    have hc : s.processState.canStart = true := h.2
    have hr : s.processState ≠ .running := by
      intro hr
      rw [hr] at hc
      cases hc
    exact ⟨h.1.1, rfl, (h.1.empty hr).2⟩
  | fail e => exact ⟨h.1, rfl, h.2.2⟩
  | prompting => exact ⟨h.1, rfl, h.2.2⟩
  | startSeq => exact ⟨h.1.1, rfl, (h.1.up h.2).2⟩
  | touch start stop => exact ⟨h.1, rfl, h.2.2⟩
  | touchFailed e => exact ⟨h.1, rfl, h.2.2⟩
  | terminate c e => exact ⟨h.1, rfl, h.2.2⟩

theorem setTurn_at {next : Next} {s : AcpSession} (h : Between next s) :
    After next { s with turnState := next.turn } := by
  cases next with
  | spawn => exact ⟨rfl, h.2⟩
  | fail e => exact ⟨rfl, .inr ⟨by rw [h.2.1]; rfl, h.2.2⟩⟩
  | prompting => exact ⟨⟨rfl, .inl h.2⟩, h.2.1⟩
  | startSeq => exact ⟨rfl, h.2⟩
  | touch start stop => exact ⟨⟨rfl, .inl h.2⟩, h.2.1⟩
  | touchFailed e => exact ⟨⟨rfl, .inl h.2⟩, h.2.1⟩
  | terminate c e => exact ⟨rfl, .inr ⟨by rw [h.2.1]; rfl, h.2.2⟩⟩

theorem askStep_at {i : ℕ} {s s' : AcpSession} {pc pc' : AskPc} {o : Outcome}
    (h : askStep i s pc o = some (s', pc')) (hin : pc.inside = true) (hat : At pc s) :
    At pc' s' := by
  cases pc
  case tryLock | busy | returned | dropped => cases hin
  case setProcess next =>
    cases h
    exact setProcess_at hat
  case setTurn next =>
    cases h
    exact setTurn_at hat
  case emit next =>
    cases h
    exact After.at_pc hat _
  case canPrompt =>
    simp only [askStep] at h
    split at h <;> cases h <;> exact hat
  case ensureRunning =>
    simp only [askStep] at h
    split at h
    · next hr =>
      cases h
      exact ⟨hat, hr⟩
    · split at h
      · next hc =>
        cases h
        exact ⟨hat, hc⟩
      · cases h
        exact hat
  case storeClient c =>
    cases h
    exact ⟨hat.1, hat.2.1, rfl, hat.2.2.2⟩
  case storeSessionId c sid =>
    cases h
    exact ⟨hat.1, hat.2.1, hat.2.2.1, rfl⟩
  case readClient start =>
    have hsome := hat.2.2.1
    simp only [askStep] at h
    split at h
    · cases h
      exact hat
    · next hnone =>
      rw [hnone] at hsome
      cases hsome
  case readSessionId start c =>
    have hsome := hat.2.2.2
    simp only [askStep] at h
    split at h
    · cases h
      exact hat
    · next hnone =>
      rw [hnone] at hsome
      cases hsome
  case takeClient e =>
    cases h
    exact ⟨hat.1, hat.2.1, rfl⟩
  case clearSessionId c e =>
    cases h
    exact ⟨hat.1, hat.2.1, hat.2.2, rfl⟩
  case returning r =>
    cases h
    exact hat
  all_goals
    simp only [askStep] at h
    repeat' split at h
    all_goals first
      | cases h; done
      | (cases h; exact hat)
      | (cases h; exact hat.1)

theorem askStep_sound : Sound AcpSession.turnGuard AskPc.inside Rest At askStep := by
  refine ⟨askStep_disciplined, ?_, ?_, ?_⟩
  · intro i s p o s' p' h hin hin' hrest
    obtain ⟨rfl, rfl⟩ := askStep_enters h hin hin'
    exact hrest
  · intro i s p o s' p' h hin _ hat
    exact askStep_at h hin hat
  · intro i s p o s' p' h hin hout hat
    obtain ⟨result, rfl⟩ := askStep_leaves h hin hout
    cases h
    exact hat

def midway : AskPc → Bool
  | .setProcess next =>
    match next with
    | .spawn | .startSeq => false
    | .fail _ | .prompting | .touch .. | .touchFailed _ | .terminate .. => true
  | .setTurn next =>
    match next with
    | .fail _ | .prompting | .startSeq => false
    | .spawn | .touch .. | .touchFailed _ | .terminate .. => true
  | .emit next =>
    match next with
    | .spawn | .startSeq => true
    | .fail _ | .prompting | .touch .. | .touchFailed _ | .terminate .. => false
  | .spawn | .trackPid .. | .initializeClient _ | .newSession _ | .abandon .. | .untrackPid _
  | .storeSessionId .. | .storeClient _ => true
  | .startSeq | .readClient _ | .readSessionId .. | .prompt .. | .awaitPrompt ..
  | .checkConnected _ | .takeClient _ | .clearSessionId .. | .clearPid .. => true
  | _ => false

theorem midway_inside {pc : AskPc} (h : midway pc = true) : pc.inside = true := by
  cases pc <;> first | rfl | cases h

theorem At.rest {pc : AskPc} {s : AcpSession} (h : At pc s) (hm : midway pc = false) :
    Rest s := by
  cases pc
  case setProcess next =>
    cases next
    case spawn | startSeq => exact h.1
    all_goals cases hm
  case setTurn next =>
    cases next
    case fail => exact ⟨h.1, .inr ⟨by rw [h.2.1]; rfl, h.2.2⟩⟩
    case prompting | startSeq => exact ⟨h.1, .inl h.2⟩
    all_goals cases hm
  case emit next =>
    cases next
    case fail | terminate => exact h
    case prompting | touch | touchFailed => exact h.1
    all_goals cases hm
  case touch | storeTouch | turnComplete | loadMin | collect | touchFailed | storeFailed =>
    exact h.1
  all_goals first
    | exact h
    | cases hm

theorem At.locked {pc : AskPc} {s : AcpSession} (h : At pc s) (hm : midway pc = true) :
    s.turnState = .prompting ∨ s.processState = .starting := by
  cases pc
  case setProcess next =>
    cases next
    case fail | prompting => exact .inr h.2.1
    case touch | touchFailed | terminate => exact .inl h.1
    all_goals cases hm
  case setTurn next =>
    cases next
    case spawn => exact .inr h.2.1
    case touch | touchFailed | terminate => exact .inl h.1
    all_goals cases hm
  case emit next =>
    cases next
    case spawn => exact .inr h.2.1
    case startSeq => exact .inl h.1
    all_goals cases hm
  case spawn | trackPid | initializeClient | newSession | abandon | untrackPid | storeSessionId
      | storeClient =>
    exact .inr h.2.1
  case startSeq | readClient | readSessionId | prompt | awaitPrompt | checkConnected | takeClient
      | clearSessionId | clearPid =>
    exact .inl h.1
  all_goals cases hm

def Inv (s : Sys) : Prop :=
  Annotated AcpSession.turnGuard AskPc.inside Rest At s.session s.asks

theorem inv_new (now : ℕ) : Inv (.new now) := .nil rfl (rest_new now)

def ofAsks : Action → Bool
  | .ask | .askStep .. | .drop _ => true
  | .shutdown | .shutdownStep _ => false

def AskFree (s : Sys) : Prop :=
  s.session.turnGuard = none → s.session.turnState = .idle ∧ s.session.processState ≠ .starting

def DropsAtRest (s : Sys) : Action → Prop
  | .drop i => ∀ pc ∈ s.asks[i]?, midway pc = false
  | _ => True

instance (s : Sys) (a : Action) : Decidable (DropsAtRest s a) := by
  rcases a <;> dsimp only [DropsAtRest] <;> infer_instance

instance (s : Sys) : Decidable (AskFree s) := by
  unfold AskFree
  infer_instance

theorem step_inv (s : Sys) (a : Action) (s' : Sys) (h : Inv s)
    (hC : ofAsks a = true ∧ DropsAtRest s a) (hs : s.step a = some s') : Inv s' := by
  cases a with
  | ask =>
    cases hs
    exact Annotated.spawn h rfl
  | askStep i o =>
    obtain ⟨pc, session, pc', hpc, hstep, rfl⟩ := Sys.step_askStep hs
    exact Annotated.step askStep_sound h hpc hstep
  | drop i =>
    obtain ⟨pc, hpc, -, rfl⟩ := Sys.step_drop hs
    simp only [Inv, AcpSession.release]
    split
    · next hheld =>
      have hin : pc.inside = true := (h.exclusive.inside_iff hpc).mpr hheld
      have hrest : Rest s.session := (h.at_inside i pc hpc hin).rest (hC.2 pc hpc)
      exact Annotated.evict h hpc hin rfl rfl hrest
    · next hfree =>
      have hout : pc.inside = false := by
        cases hin : pc.inside with
        | false => rfl
        | true => exact absurd ((h.exclusive.inside_iff hpc).mp hin) hfree
      exact Annotated.forget h hpc hout rfl
  | shutdown => cases hC.1
  | shutdownStep j => cases hC.1

theorem Inv.askFree {s : Sys} (h : Inv s) : AskFree s :=
  fun hn => ⟨(h.rest hn).1, (h.rest hn).not_starting⟩

theorem dropsAtRest_of_askFree (s : Sys) (a : Action) (s' : Sys) (h : Inv s)
    (hs : s.step a = some s') (hfree : AskFree s') : DropsAtRest s a := by
  cases a with
  | drop i =>
    intro pc hpc
    obtain ⟨pc', hpc', -, rfl⟩ := Sys.step_drop hs
    have heq : pc' = pc := Option.some.inj (hpc'.symm.trans hpc)
    subst heq
    by_contra hm
    rw [Bool.not_eq_false] at hm
    have hin := midway_inside hm
    have hheld := (h.exclusive.inside_iff hpc).mp hin
    simp only [AskFree, AcpSession.release, hheld, ↓reduceIte, forall_const] at hfree
    rcases (h.at_inside i pc' hpc hin).locked hm with ht | hp
    · rw [ht] at hfree
      cases hfree.1
    · exact hfree.2 hp
  | _ => trivial

/-- In a run of asks with dropped futures the session is free for the next ask
whenever the guard is, at every point of the run, if and only if no call is
dropped midway. -/
theorem askFree_iff_dropsAtRest (now : ℕ) (acts : List Action) (s : Sys)
    (hasks : ∀ a ∈ acts, ofAsks a = true) (hrun : run Sys.step (.new now) acts = some s) :
    Always Sys.step AskFree (.new now) acts ↔ Along Sys.step DropsAtRest (.new now) acts := by
  have hof : Along Sys.step (fun _ a => ofAsks a = true) (.new now) acts :=
    along_of_forall fun a ha _ => hasks a ha
  constructor
  · intro h
    have hC := along_of_always step_inv
      (fun s a s' hi ha hs hfree => ⟨ha, dropsAtRest_of_askFree s a s' hi hs hfree⟩)
      (inv_new now) hof h hrun
    exact hC.mono fun s a h => h.2
  · intro h
    exact always_of_invariant step_inv (fun s hs => hs.askFree) (inv_new now) (hof.and h)

def askSteps (i : ℕ) (os : List Outcome) : List Action := os.map (.askStep i)

def toPrompt : List Outcome :=
  [.go, .go, .now 1, .go, .go, .go, .go, .go, .spawned (some 42), .go, .initialized, .opened "acp",
    .go, .go, .go, .go, .go, .go, .go, .go, .loaded 4, .go, .go, .go]

def toAnswer : List Outcome :=
  [.answered "end_turn", .go, .go, .go, .now 9, .go, .go, .loaded 1, .collected "hello", .go]

/-- The client disconnects while its ask waits for `touch`; another ask runs. -/
def droppedEarly : List Action :=
  .ask :: askSteps 0 [.go, .go, .now 0] ++ [.drop 0, .ask] ++ askSteps 1 (toPrompt ++ toAnswer)

theorem askFree_droppedEarly : Always Sys.step AskFree (.new 0) droppedEarly := by
  obtain ⟨s, hs, -⟩ := exists_run (fun _ => True)
    (by decide : (run Sys.step (.new 0) droppedEarly).any _ = true)
  exact (askFree_iff_dropsAtRest 0 droppedEarly s (by decide) hs).mpr (by decide)

/-- The client disconnects while the agent works on its prompt. -/
def droppedPrompt : List Action := .ask :: askSteps 0 toPrompt ++ [.drop 0]

/-- Nobody holds the guard and the turn stays `Prompting`: the next ask is
refused as busy. -/
theorem droppedPrompt_locked :
    (∀ a ∈ droppedPrompt, ofAsks a = true) ∧
    (∃ s, run Sys.step (.new 0) droppedPrompt = some s ∧ s.session.turnGuard = none ∧
      s.session.turnState = .prompting ∧ ¬ AskFree s) ∧
    ∃ s, run Sys.step (.new 0) (droppedPrompt ++ .ask :: askSteps 1 [.go, .go, .go]) = some s ∧
      s.asks[1]? = some (.returned (.err (.busy .prompting))) := by
  exact ⟨by decide, exists_run _ (by decide), exists_run _ (by decide)⟩

theorem admitted_of_askFree {s : AcpSession} (hidle : s.turnState = .idle)
    (hp : s.processState ≠ .starting) (i : ℕ) (o : Outcome) :
    askStep i s .canPrompt o = some (s, .touchFirst) ∧
      ∃ next, askStep i s .ensureRunning o = some (s, .setProcess next) := by
  refine ⟨by simp [askStep, hidle, TurnState.canPrompt], ?_⟩
  cases hs : s.processState <;> simp_all [askStep, ProcessState.canStart]

end Ccgonext.TurnGuard
