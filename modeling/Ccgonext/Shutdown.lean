import Ccgonext.TurnGuard
import Ccgonext.Lib.Pool

/-!
# Asks beside shutdowns

`shutdown` does not take `turn_guard`, so its writes fall between those of an
ask. What the two leave behind is settled once nobody is at work on the session
as long as an ask does not report `Running` for a session that has lost its
client or its session id, and does not give up with `No client` or
`No ACP session` while its `Prompting` stands. Either is harmless while a
shutdown that has its own write of that field still before it is under way.
-/

namespace Ccgonext.Shutdown
open Lib Lib.Runs Lib.Pool Session

def Both (s : AcpSession) : Prop := s.client.isSome = true ∧ s.acpSessionId.isSome = true

instance (s : AcpSession) : Decidable (Both s) := inferInstanceAs (Decidable (_ ∧ _))

def owesDead : AskPc → Bool
  | .clearSessionId .. | .clearPid .. | .setProcess (.terminate ..) => true
  | _ => false

def owesIdle : AskPc → Bool
  | .emit .startSeq | .startSeq | .readClient _ | .readSessionId .. | .prompt ..
  | .awaitPrompt .. | .checkConnected _ | .takeClient _ | .clearSessionId .. | .clearPid .. => true
  | .setProcess next | .setTurn next =>
    match next with
    | .touch .. | .touchFailed _ | .terminate .. => true
    | .spawn | .fail _ | .prompting | .startSeq => false
  | _ => false

theorem owesDead_inProgress {pc : AskPc} (h : owesDead pc = true) : pc.inProgress = true := by
  cases pc <;> first | rfl | cases h

theorem owesIdle_inProgress {pc : AskPc} (h : owesIdle pc = true) : pc.inProgress = true := by
  cases pc <;> first | rfl | cases h

theorem beforeProcess_inProgress {q : ShutdownPc} (h : q.beforeProcess = true) :
    q.inProgress = true := by
  cases q <;> first | rfl | cases h

theorem beforeTurn_inProgress {q : ShutdownPc} (h : q.beforeTurn = true) :
    q.inProgress = true := by
  cases q <;> first | rfl | cases h

/-- The next step neither reports `Running` for a session that is not up nor
gives up a turn for good, unless `D` or `T` sets that right. -/
def Careful (D T : Prop) (s : AcpSession) : AskPc → Prop
  | .setProcess next => next.process = .running → Both s ∨ D
  | .readClient _ => s.client = none → s.turnState = .idle ∨ T
  | .readSessionId .. => s.acpSessionId = none → s.turnState = .idle ∨ T
  | _ => True

instance (D T : Prop) [Decidable D] [Decidable T] (s : AcpSession) (pc : AskPc) :
    Decidable (Careful D T s pc) := by
  rcases pc <;> dsimp only [Careful] <;> infer_instance

def deadPending (s : Sys) : Prop := ∃ q ∈ s.shutdowns, q.beforeProcess = true

def idlePending (s : Sys) : Prop := ∃ q ∈ s.shutdowns, q.beforeTurn = true

instance (s : Sys) : Decidable (deadPending s) := inferInstanceAs (Decidable (∃ q ∈ _, _))

instance (s : Sys) : Decidable (idlePending s) := inferInstanceAs (Decidable (∃ q ∈ _, _))

def CarefulAsks (s : Sys) : Action → Prop
  | .askStep i _ => ∀ pc ∈ s.asks[i]?, Careful (deadPending s) (idlePending s) s.session pc
  | _ => True

instance (s : Sys) (a : Action) : Decidable (CarefulAsks s a) := by
  rcases a <;> dsimp only [CarefulAsks] <;> infer_instance

def uncancelled : Action → Bool
  | .drop _ => false
  | _ => true

theorem askStep_running {i : ℕ} {s s' : AcpSession} {pc pc' : AskPc} {o : Outcome} {D T : Prop}
    (h : askStep i s pc o = some (s', pc')) (hc : Careful D T s pc)
    (hr : s.processState = .running → Both s ∨ D ∨ owesDead pc = true)
    (hr' : s'.processState = .running) : Both s' ∨ D ∨ owesDead pc' = true := by
  have hlift : owesDead pc = false → s.processState = .running → Both s ∨ D := by
    intro hf hp
    rcases hr hp with hB | hD | ho
    · exact .inl hB
    · exact .inr hD
    · rw [hf] at ho
      cases ho
  cases pc
  case setProcess next =>
    cases h
    exact (hc hr').imp id .inl
  case setTurn next | emit next =>
    cases h
    exact (hlift (by cases next <;> rfl) hr').imp id .inl
  case takeClient | clearSessionId | clearPid =>
    cases h
    exact .inr (.inr rfl)
  case storeSessionId c sid =>
    cases h
    exact (hlift rfl hr').imp (fun hB => ⟨hB.1, rfl⟩) .inl
  case storeClient c =>
    cases h
    exact (hlift rfl hr').imp (fun hB => ⟨rfl, hB.2⟩) .inl
  all_goals
    simp only [askStep] at h
    repeat' split at h
    all_goals
      cases h
      try exact (hlift rfl hr').imp id .inl

theorem askStep_idle {i : ℕ} {s s' : AcpSession} {pc pc' : AskPc} {o : Outcome} {D T : Prop}
    (h : askStep i s pc o = some (s', pc')) (hc : Careful D T s pc)
    (ht : s.turnState = .idle ∨ T ∨ owesIdle pc = true) :
    s'.turnState = .idle ∨ T ∨ owesIdle pc' = true := by
  have hlift : owesIdle pc = false → s.turnState = .idle ∨ T := by
    intro hf
    rcases ht with hi | hT | ho
    · exact .inl hi
    · exact .inr hT
    · rw [hf] at ho
      cases ho
  cases pc
  case setProcess next =>
    cases h
    cases next
    case touch | touchFailed | terminate => exact .inr (.inr rfl)
    all_goals exact (hlift rfl).imp id .inl
  case setTurn next =>
    cases h
    cases next
    case startSeq => exact .inr (.inr rfl)
    all_goals exact .inl rfl
  case emit next =>
    cases h
    cases next
    case startSeq => exact .inr (.inr rfl)
    all_goals exact (hlift rfl).imp id .inl
  case readClient start | readSessionId start c =>
    simp only [askStep] at h
    split at h
    · cases h
      exact .inr (.inr rfl)
    · next hnone =>
      cases h
      exact (hc hnone).imp id .inl
  all_goals
    simp only [askStep] at h
    repeat' split at h
    all_goals
      cases h
      try first
        | exact .inr (.inr rfl)
        | exact (hlift rfl).imp id .inl

theorem shutdownStep_running {s s' : AcpSession} {q q' : ShutdownPc} {D : Prop}
    (h : shutdownStep s q = some (s', q'))
    (hr : s.processState = .running → Both s ∨ D ∨ q.beforeProcess = true)
    (hr' : s'.processState = .running) : Both s' ∨ D ∨ q'.beforeProcess = true := by
  cases q <;> simp only [shutdownStep] at h
  case takeClient =>
    split at h <;>
      · cases h
        exact .inr (.inr rfl)
  case setProcess =>
    cases h
    cases hr'
  case setTurn | emit =>
    cases h
    rcases hr hr' with hB | hD | hb
    · exact .inl hB
    · exact .inr (.inl hD)
    · cases hb
  all_goals
    cases h
    try exact .inr (.inr rfl)

theorem shutdownStep_idle {s s' : AcpSession} {q q' : ShutdownPc} {T : Prop}
    (h : shutdownStep s q = some (s', q'))
    (ht : s.turnState = .idle ∨ T ∨ q.beforeTurn = true) :
    s'.turnState = .idle ∨ T ∨ q'.beforeTurn = true := by
  cases q <;> simp only [shutdownStep] at h
  case takeClient =>
    split at h <;>
      · cases h
        exact .inr (.inr rfl)
  case setTurn =>
    cases h
    exact .inl rfl
  case emit =>
    cases h
    rcases ht with hi | hT | hb
    · exact .inl hi
    · exact .inr (.inl hT)
    · cases hb
  all_goals
    cases h
    try exact .inr (.inr rfl)

structure Inv (s : Sys) : Prop where
  running : s.session.processState = .running →
    Both s.session ∨ deadPending s ∨ ∃ pc ∈ s.asks, owesDead pc = true
  idle : s.session.turnState = .idle ∨ idlePending s ∨ ∃ pc ∈ s.asks, owesIdle pc = true

theorem inv_new (now : ℕ) : Inv (.new now) := ⟨nofun, .inl rfl⟩

theorem askStep_inv {s s' : Sys} {i : ℕ} {o : Outcome} (h : Inv s)
    (hC : CarefulAsks s (.askStep i o)) (hs : s.step (.askStep i o) = some s') : Inv s' := by
  obtain ⟨pc, session, pc', hpc, hstep, rfl⟩ := Sys.step_askStep hs
  have hcare := hC pc hpc
  constructor
  · intro hr'
    refine owed_step hpc pc' h.running fun hr =>
      askStep_running (T := idlePending s) hstep ?_ hr hr'
    cases pc
    case setProcess next => exact fun hn => (hcare hn).imp id .inl
    all_goals exact hcare
  · refine owed_step hpc pc' (fun _ : True => h.idle) fun ht =>
      askStep_idle (D := deadPending s) hstep ?_ (ht trivial)
    cases pc
    case readClient start => exact fun hn => (hcare hn).imp id .inl
    case readSessionId start c => exact fun hn => (hcare hn).imp id .inl
    all_goals exact hcare

theorem shutdownStep_inv {s s' : Sys} {j : ℕ} (h : Inv s)
    (hs : s.step (.shutdownStep j) = some s') : Inv s' := by
  obtain ⟨q, session, q', hq, hstep, rfl⟩ := Sys.step_shutdownStep hs
  constructor
  · intro hr'
    have howed := owed_step hq q' (fun hr => (h.running hr).imp id Or.symm)
      fun hr => shutdownStep_running hstep hr hr'
    exact howed.imp id Or.symm
  · have howed := owed_step hq q' (fun _ : True => h.idle.imp id Or.symm)
      fun ht => shutdownStep_idle hstep (ht trivial)
    exact howed.imp id Or.symm

theorem step_inv (s : Sys) (a : Action) (s' : Sys) (h : Inv s)
    (hC : uncancelled a = true ∧ CarefulAsks s a) (hs : s.step a = some s') : Inv s' := by
  cases a with
  | ask =>
    cases hs
    exact ⟨fun hr => (h.running hr).imp id (.imp id (exists_spawn _)),
      h.idle.imp id (.imp id (exists_spawn _))⟩
  | askStep i o => exact askStep_inv h hC.2 hs
  | drop i => cases hC.1
  | shutdown =>
    cases hs
    exact ⟨fun hr => (h.running hr).imp id (.imp (exists_spawn _) id),
      h.idle.imp id (.imp (exists_spawn _) id)⟩
  | shutdownStep j => exact shutdownStep_inv h hs

def Quiet (s : Sys) : Prop :=
  (∀ pc ∈ s.asks, pc.inProgress = false) ∧ ∀ q ∈ s.shutdowns, q.inProgress = false

def Settled (s : Sys) : Prop :=
  s.session.turnState = .idle ∧ (s.session.processState = .running → Both s.session)

instance (s : Sys) : Decidable (Quiet s) := inferInstanceAs (Decidable (_ ∧ _))

instance (s : Sys) : Decidable (Settled s) := inferInstanceAs (Decidable (_ ∧ _))

theorem Inv.settled {s : Sys} (h : Inv s) (hq : Quiet s) : Settled s := by
  have hask : ∀ {f : AskPc → Bool}, (∀ {pc}, f pc = true → pc.inProgress = true) →
      ¬ ∃ pc ∈ s.asks, f pc = true := by
    intro f hf hex
    obtain ⟨pc, hpc, ho⟩ := hex
    have hno := hq.1 pc hpc
    rw [hf ho] at hno
    cases hno
  have hshut : ∀ {f : ShutdownPc → Bool}, (∀ {q}, f q = true → q.inProgress = true) →
      ¬ ∃ q ∈ s.shutdowns, f q = true := by
    intro f hf hex
    obtain ⟨q, hmem, ho⟩ := hex
    have hno := hq.2 q hmem
    rw [hf ho] at hno
    cases hno
  constructor
  · rcases h.idle with hi | hT | ho
    · exact hi
    · exact absurd hT (hshut beforeTurn_inProgress)
    · exact absurd ho (hask owesIdle_inProgress)
  · intro hr
    rcases h.running hr with hB | hD | ho
    · exact hB
    · exact absurd hD (hshut beforeProcess_inProgress)
    · exact absurd ho (hask owesDead_inProgress)

/-- Asks and shutdowns that are careful of each other leave the session settled
whenever none of them is in progress. -/
theorem settled_of_carefulAsks (now : ℕ) (acts : List Action) (s : Sys)
    (hacts : ∀ a ∈ acts, uncancelled a = true) (hrun : run Sys.step (.new now) acts = some s)
    (hcare : Along Sys.step CarefulAsks (.new now) acts) (hquiet : Quiet s) : Settled s := by
  have hun : Along Sys.step (fun _ a => uncancelled a = true) (.new now) acts :=
    along_of_forall fun a ha _ => hacts a ha
  exact (invariant step_inv (inv_new now) (hun.and hcare) hrun).settled hquiet

def shutdownSteps (j : ℕ) (n : ℕ) : List Action := List.replicate n (.shutdownStep j)

/-- A shutdown that comes while the agent works: the prompt fails afterwards. -/
def shutdownInPrompt : List Action :=
  .ask :: TurnGuard.askSteps 0 TurnGuard.toPrompt ++ .shutdown :: shutdownSteps 0 8 ++
    TurnGuard.askSteps 0 [.rejected "closed", .go, .go, .go, .go, .go, .go, .go, .go, .go]

theorem settled_shutdownInPrompt :
    ∃ s, run Sys.step (.new 0) shutdownInPrompt = some s ∧ Settled s := by
  obtain ⟨s, hs, hq⟩ := exists_run Quiet
    (by decide : (run Sys.step (.new 0) shutdownInPrompt).any _ = true)
  exact ⟨s, hs, settled_of_carefulAsks 0 shutdownInPrompt s (by decide) hs (by decide) hq⟩

/-- A second ask finds the agent running; before it writes that it prompts, the
session is shut down from beginning to end. -/
def shutdownBeforePrompt : List Action :=
  .ask :: TurnGuard.askSteps 0 (TurnGuard.toPrompt ++ TurnGuard.toAnswer) ++
    .ask :: TurnGuard.askSteps 1 [.go, .go, .now 10, .go, .go] ++ .shutdown :: shutdownSteps 0 8 ++
    TurnGuard.askSteps 1 [.go, .go, .go, .loaded 9, .go, .go]

theorem shutdownBeforePrompt_not_settled :
    (∀ a ∈ shutdownBeforePrompt, uncancelled a = true) ∧
    ∃ s, run Sys.step (.new 0) shutdownBeforePrompt = some s ∧ Quiet s ∧
      s.session.turnState = .prompting ∧ s.session.processState = .running ∧
      s.session.client = none ∧ ¬ Settled s :=
  ⟨by decide, exists_run _ (by decide)⟩

end Ccgonext.Shutdown
