import Ccgonext.Shutdown
import Ccgonext.Lib.Announce

/-!
# What the last state change says

`set_states` writes `process_state`, then `turn_state`, then appends a
`StateChange`, with no lock over the three steps. The web UI shows the last such
event. It is the truth whenever no call is between its first write and its event,
as long as no call starts between those of another that sets other states, and no
future is dropped there. Among themselves the asks are kept apart by `turn_guard`,
and all shutdowns set the same states.
-/

namespace Ccgonext.StateEvents
open Lib Lib.Runs Lib.Announce Events Session

def isStateChange : EventPayload → Bool
  | .stateChange .. => true
  | _ => false

def lastStateChange (events : List EventPayload) : Option EventPayload :=
  (events.filter isStateChange).getLast?

def board (s : AcpSession) : Board ProcessState TurnState EventPayload :=
  ⟨s.processState, s.turnState, lastStateChange s.events⟩

def askPhase : AskPc → Phase ProcessState TurnState
  | .setTurn next => .first next.process next.turn
  | .emit next => .second next.process next.turn
  | _ => .out

def shutdownPhase : ShutdownPc → Phase ProcessState TurnState
  | .setTurn => .first .dead .idle
  | .emit => .second .dead .idle
  | _ => .out

def phases (s : Sys) : List (Phase ProcessState TurnState) :=
  s.asks.map askPhase ++ s.shutdowns.map shutdownPhase

def Setting (s : Sys) : Prop := ∃ p ∈ phases s, p ≠ .out

def begins (s : Sys) : Action → Option (ProcessState × TurnState)
  | .askStep i _ =>
    match s.asks[i]? with
    | some (.setProcess next) => some (next.process, next.turn)
    | _ => none
  | .shutdownStep j =>
    match s.shutdowns[j]? with
    | some .setProcess => some (.dead, .idle)
    | _ => none
  | .ask | .drop _ | .shutdown => none

def completes (s : Sys) : Action → Bool
  | .askStep i _ =>
    match s.asks[i]? with
    | some (.emit _) => true
    | _ => false
  | .shutdownStep j =>
    match s.shutdowns[j]? with
    | some .emit => true
    | _ => false
  | .ask | .drop _ | .shutdown => false

def abandons (s : Sys) : Action → Bool
  | .drop i =>
    match s.asks[i]? with
    | some pc => askPhase pc ≠ .out
    | none => false
  | .ask | .askStep .. | .shutdown | .shutdownStep _ => false

/-- Calls of `set_states` that set different states do not overlap, and none is
abandoned. -/
def Apart (s : Sys) (a : Action) : Prop :=
  (∀ t ∈ begins s a, ∀ p ∈ phases s, ∀ u ∈ p.target, u = t) ∧ abandons s a = false

instance (s : Sys) : Decidable (Setting s) := inferInstanceAs (Decidable (∃ p ∈ _, _))

instance (s : Sys) (a : Action) : Decidable (Apart s a) := inferInstanceAs (Decidable (_ ∧ _))

theorem lastStateChange_append (events : List EventPayload) (payload : EventPayload) :
    lastStateChange (events ++ [payload]) =
      if isStateChange payload then some payload else lastStateChange events := by
  unfold lastStateChange
  rw [List.filter_append]
  cases h : isStateChange payload with
  | true => simp [h]
  | false => simp [h]

theorem board_append (s : AcpSession) (payload : EventPayload) :
    board (s.append payload) =
      ⟨s.processState, s.turnState,
        if isStateChange payload then some payload else lastStateChange s.events⟩ := by
  rw [← lastStateChange_append]
  rfl

theorem askPhase_pc (next : Next) : askPhase next.pc = .out := by cases next <;> rfl

theorem askStep_moves {i : ℕ} {s s' : AcpSession} {pc pc' : AskPc} {o : Outcome}
    (h : askStep i s pc o = some (s', pc')) :
    Moves stateChange (board s) (askPhase pc) (board s') (askPhase pc') := by
  cases pc
  case setProcess next =>
    cases h
    exact .writeFirst next.process next.turn
  case setTurn next =>
    cases h
    exact .writeSecond next.process next.turn
  case emit next =>
    cases h
    rw [askPhase_pc, board_append]
    exact .tell next.process next.turn
  case turnComplete start stopReason =>
    cases h
    rw [board_append]
    exact .aside
  all_goals
    delta askStep at h
    dsimp only at h
    repeat' split at h
    all_goals
      cases h
      try exact .aside

theorem shutdownStep_moves {s s' : AcpSession} {pc pc' : ShutdownPc}
    (h : shutdownStep s pc = some (s', pc')) :
    Moves stateChange (board s) (shutdownPhase pc) (board s') (shutdownPhase pc') := by
  cases pc <;> simp only [shutdownStep] at h
  case setProcess =>
    cases h
    exact .writeFirst ProcessState.dead TurnState.idle
  case setTurn =>
    cases h
    exact .writeSecond ProcessState.dead TurnState.idle
  case emit =>
    cases h
    rw [board_append]
    exact .tell ProcessState.dead TurnState.idle
  case takeClient =>
    split at h <;>
      · cases h
        exact .aside
  all_goals
    cases h
    try exact .aside

def Inv (s : Sys) : Prop := Coherent stateChange (board s.session) (phases s)

theorem inv_new (now : ℕ) : Inv (.new now) := .nil rfl

theorem phases_askStep {s : Sys} {i : ℕ} {pc : AskPc} (hpc : s.asks[i]? = some pc)
    (session : AcpSession) (pc' : AskPc) :
    (phases s)[i]? = some (askPhase pc) ∧
      phases { s with session := session, asks := s.asks.set i pc' } =
        (phases s).set i (askPhase pc') := by
  have hlt : i < (s.asks.map askPhase).length := by
    rw [List.length_map]
    exact (List.getElem?_eq_some_iff.mp hpc).1
  constructor
  · rw [phases, List.getElem?_append_left hlt, List.getElem?_map, hpc]
    rfl
  · simp only [phases, List.map_set]
    rw [List.set_append_left _ _ hlt]

theorem phases_shutdownStep {s : Sys} {j : ℕ} {pc : ShutdownPc} (hpc : s.shutdowns[j]? = some pc)
    (session : AcpSession) (pc' : ShutdownPc) :
    (phases s)[s.asks.length + j]? = some (shutdownPhase pc) ∧
      phases { s with session := session, shutdowns := s.shutdowns.set j pc' } =
        (phases s).set (s.asks.length + j) (shutdownPhase pc') := by
  have hle : (s.asks.map askPhase).length ≤ s.asks.length + j := by
    rw [List.length_map]
    exact Nat.le_add_right _ _
  have hsub : s.asks.length + j - (s.asks.map askPhase).length = j := by
    rw [List.length_map, Nat.add_sub_cancel_left]
  constructor
  · rw [phases, List.getElem?_append_right hle, hsub, List.getElem?_map, hpc]
    rfl
  · simp only [phases, List.map_set]
    rw [List.set_append_right _ _ hle, hsub]

theorem begins_askStep {i : ℕ} {s s' : AcpSession} {pc pc' : AskPc} {o : Outcome}
    (h : askStep i s pc o = some (s', pc')) {process : ProcessState} {turn : TurnState}
    (hpc : askPhase pc = .out) (hpc' : askPhase pc' = .first process turn) :
    ∃ next, pc = .setProcess next ∧ next.process = process ∧ next.turn = turn := by
  cases pc
  case setProcess next =>
    cases h
    cases hpc'
    exact ⟨next, rfl, rfl, rfl⟩
  case setTurn next | emit next => cases hpc
  all_goals
    delta askStep at h
    dsimp only at h
    repeat' split at h
    all_goals
      cases h
      try cases hpc'

theorem begins_shutdownStep {s s' : AcpSession} {pc pc' : ShutdownPc}
    (h : shutdownStep s pc = some (s', pc')) {process : ProcessState} {turn : TurnState}
    (hpc : shutdownPhase pc = .out) (hpc' : shutdownPhase pc' = .first process turn) :
    pc = .setProcess ∧ .dead = process ∧ .idle = turn := by
  cases pc <;> simp only [shutdownStep] at h
  case setProcess =>
    cases h
    cases hpc'
    exact ⟨rfl, rfl, rfl⟩
  case setTurn | emit => cases hpc
  case takeClient =>
    split at h <;>
      · cases h
        cases hpc'
  all_goals
    cases h
    try cases hpc'

theorem board_release (s : AcpSession) (i : ℕ) : board (s.release i) = board s := by
  unfold AcpSession.release
  split <;> rfl

theorem step_inv (s : Sys) (a : Action) (s' : Sys) (h : Inv s) (hC : Apart s a)
    (hs : s.step a = some s') : Inv s' := by
  cases a with
  | ask =>
    cases hs
    refine h.congr fun p hne => ?_
    simp [phases, askPhase, hne]
  | askStep i o =>
    obtain ⟨pc, session, pc', hpc, hstep, rfl⟩ := Sys.step_askStep hs
    obtain ⟨hi, hset⟩ := phases_askStep hpc session pc'
    unfold Inv
    rw [hset]
    refine h.move hi (askStep_moves hstep) ?_
    intro process turn hout hfirst r hr t ht
    obtain ⟨next, rfl, rfl, rfl⟩ := begins_askStep hstep hout hfirst
    exact hC.1 _ (by simp only [begins, hpc, Option.mem_def]) r hr t ht
  | drop i =>
    obtain ⟨pc, hpc, hat, rfl⟩ := Sys.step_drop hs
    obtain ⟨hi, hset⟩ := phases_askStep hpc (s.session.release i) .dropped
    have hout : askPhase pc = .out := by
      have hkept := hC.2
      simp only [abandons, hpc, decide_eq_false_iff_not, ne_eq, not_not] at hkept
      exact hkept
    rw [hout] at hi
    unfold Inv
    rw [hset, board_release]
    exact h.move hi .aside fun _ _ _ hfirst => by cases hfirst
  | shutdown =>
    cases hs
    refine h.congr fun p hne => ?_
    simp [phases, shutdownPhase, hne]
  | shutdownStep j =>
    obtain ⟨pc, session, pc', hpc, hstep, rfl⟩ := Sys.step_shutdownStep hs
    obtain ⟨hi, hset⟩ := phases_shutdownStep hpc session pc'
    unfold Inv
    rw [hset]
    refine h.move hi (shutdownStep_moves hstep) ?_
    intro process turn hout hfirst r hr t ht
    obtain ⟨rfl, rfl, rfl⟩ := begins_shutdownStep hstep hout hfirst
    exact hC.1 _ (by simp only [begins, hpc, Option.mem_def]) r hr t ht

def Told (s : Sys) : Prop := (board s.session).told.isSome = true

theorem told_of_moves {say : ProcessState → TurnState → EventPayload}
    {b b' : Board ProcessState TurnState EventPayload} {p q : Phase ProcessState TurnState}
    (hm : Moves say b p b' q) (h : b.told.isSome = true) : b'.told.isSome = true := by
  cases hm with
  | aside => exact h
  | writeFirst => exact h
  | writeSecond => exact h
  | tell => rfl

theorem step_told (s : Sys) (a : Action) (s' : Sys) (h : Told s) (hs : s.step a = some s') :
    Told s' := by
  cases a with
  | ask =>
    cases hs
    exact h
  | askStep i o =>
    obtain ⟨pc, session, pc', hpc, hstep, rfl⟩ := Sys.step_askStep hs
    exact told_of_moves (askStep_moves hstep) h
  | drop i =>
    obtain ⟨pc, hpc, hat, rfl⟩ := Sys.step_drop hs
    unfold Told
    rw [board_release]
    exact h
  | shutdown =>
    cases hs
    exact h
  | shutdownStep j =>
    obtain ⟨pc, session, pc', hpc, hstep, rfl⟩ := Sys.step_shutdownStep hs
    exact told_of_moves (shutdownStep_moves hstep) h

theorem told_of_completes {s s' : Sys} {a : Action} (ha : completes s a = true)
    (hs : s.step a = some s') : Told s' := by
  cases a with
  | ask => cases ha
  | drop i => cases ha
  | shutdown => cases ha
  | askStep i o =>
    obtain ⟨pc, session, pc', hpc, hstep, rfl⟩ := Sys.step_askStep hs
    simp only [completes, hpc] at ha
    split at ha
    · next next hnext =>
      cases hnext
      cases hstep
      simp only [Told, board_append]
      rfl
    · cases ha
  | shutdownStep j =>
    obtain ⟨pc, session, pc', hpc, hstep, rfl⟩ := Sys.step_shutdownStep hs
    simp only [completes, hpc] at ha
    split at ha
    · next hnext =>
      cases hnext
      cases hstep
      simp only [Told, board_append]
      rfl
    · cases ha

/-- While nobody is between the first write and the event of a `set_states`, the last
state change is the truth. -/
theorem lastStateChange_current (now : ℕ) (acts : List Action) (s : Sys)
    (hrun : run Sys.step (.new now) acts = some s) (hapart : Along Sys.step Apart (.new now) acts)
    (hquiet : ¬ Setting s)
    (hdone : ∃ u a u' after, Visit Sys.step (.new now) acts u a u' after ∧ completes u a = true) :
    lastStateChange s.session.events =
      some (stateChange s.session.processState s.session.turnState) := by
  have hinv : Inv s := invariant step_inv (inv_new now) hapart hrun
  obtain ⟨u, a, u', after, hvisit, ha⟩ := hdone
  have htold : Told s :=
    preserved step_told (told_of_completes ha hvisit.step) (hvisit.rest hrun)
  obtain ⟨c, hc⟩ := Option.isSome_iff_exists.mp htold
  have hout : ∀ p ∈ phases s, p = .out := by
    intro p hp
    by_contra hne
    exact hquiet ⟨p, hp, hne⟩
  have hcurrent := hinv.rest hout c hc
  rw [hcurrent] at hc
  exact hc

theorem lastStateChange_shutdownInPrompt :
    ∃ s, run Sys.step (.new 0) Shutdown.shutdownInPrompt = some s ∧
      lastStateChange s.session.events =
        some (stateChange s.session.processState s.session.turnState) := by
  obtain ⟨s, hs, hquiet⟩ := exists_run (fun s => ¬ Setting s)
    (by decide : (run Sys.step (.new 0) Shutdown.shutdownInPrompt).any _ = true)
  obtain ⟨u, hu, hdone, hstep⟩ := exists_run
    (fun u => completes u (.askStep 0 .go) = true ∧ (u.step (.askStep 0 .go)).isSome = true)
    (by decide : (run Sys.step (.new 0) (Shutdown.shutdownInPrompt.take 8)).any _ = true)
  obtain ⟨u', hu'⟩ := Option.isSome_iff_exists.mp hstep
  exact ⟨s, hs, lastStateChange_current 0 _ s hs (by decide) hquiet
    ⟨u, .askStep 0 .go, u', Shutdown.shutdownInPrompt.drop 9, ⟨⟨_, rfl, hu⟩, hu'⟩, hdone⟩⟩

/-- The shutdown falls between the two writes with which the ask ends. -/
def shutdownInSetStates : List Action :=
  .ask :: TurnGuard.askSteps 0 (TurnGuard.toPrompt ++ [.answered "end_turn", .go]) ++
    .shutdown :: Shutdown.shutdownSteps 0 8 ++
    TurnGuard.askSteps 0 [.go, .go, .now 20, .go, .go, .loaded 1, .collected "hello", .go]

theorem shutdownInSetStates_stale :
    ∃ s, run Sys.step (.new 0) shutdownInSetStates = some s ∧ Shutdown.Quiet s ∧ ¬ Setting s ∧
      s.session.processState = .dead ∧ s.session.turnState = .idle ∧
      lastStateChange s.session.events = some (stateChange .running .idle) :=
  exists_run _ (by decide)

end Ccgonext.StateEvents
