import Ccgonext.Handover

/-!
# The lower bound of a subscription

`replay_from` leaves out what lies below `from_seq` unless it replays the whole
deque, and the send task leaves out what does not come after `replay_seq`, which
is 0 behind an empty replay. So an event below the bound gets to the client
through a replay of the whole deque that holds one, or as the first event that the
channel hands over behind an empty replay. Appends may run side by side here, the
receiver may lag and the socket may fail.
-/

namespace Ccgonext.LowerBound
open Lib Lib.Runs Lib.Broadcast Events EventOrder WebSocket Handover

def next (w : Socket) : Option SessionEvent :=
  match w.hist.receiver w.rx with
  | none => none
  | some r =>
    match r.recv.1 with
    | .value event => some event
    | .lagged _ | .empty => none

/-- A replay of the whole deque has nothing below the bound in it. -/
def ReadsAbove (w : Socket) : ActionPc → Prop
  | .read min => 0 < w.fromSeq ∧ w.fromSeq < min → ∀ e ∈ w.hist.log.events, w.fromSeq ≤ e.seq
  | _ => True

/-- The first event handed over behind an empty replay is not below the bound. -/
def StartsAbove (w : Socket) : SendPc → Prop
  | .recv => w.replaySeq = 0 → ∀ e ∈ next w, w.fromSeq ≤ e.seq
  | _ => True

def KeepsBound (w : Socket) : WebSocket.Action → Prop
  | .log _ => True
  | .sendTask _ => StartsAbove w w.sendPc
  | .actionTask _ => ReadsAbove w w.actionPc

instance (w : Socket) : (pc : ActionPc) → Decidable (ReadsAbove w pc)
  | .read _ => inferInstanceAs (Decidable (_ → _))
  | .recv | .loadMin | .lock _ | .gap .. | .send .. | .storeSeq _ | .storeStarted | .notify
  | .unlock | .done | .ended => .isTrue trivial

instance (w : Socket) : (pc : SendPc) → Decidable (StartsAbove w pc)
  | .recv => inferInstanceAs (Decidable (_ → _))
  | .notified | .check _ | .await _ | .load _ | .store _ | .lock _ | .send _ | .ended =>
    .isTrue trivial

instance (w : Socket) (a : WebSocket.Action) : Decidable (KeepsBound w a) := by
  rcases a <;> dsimp only [KeepsBound] <;> infer_instance

def Works : WebSocket.Action → Prop
  | .log _ => True
  | .sendTask sent | .actionTask sent => sent = true

def toReplay : ActionPc → List SessionEvent
  | .lock replay => replay.events
  | .gap _ events | .send events _ => events
  | _ => []

def toForward (replaySeq : ℕ) : SendPc → List SessionEvent
  | .load event => if replaySeq < event.seq then [event] else []
  | .store event | .lock event | .send event => [event]
  | _ => []

def outgoing (w : Socket) : List SessionEvent :=
  toReplay w.actionPc ++ toForward w.replaySeq w.sendPc

def entering (w : Socket) : WebSocket.Action → List SessionEvent
  | .log _ => []
  | .sendTask _ =>
    match w.sendPc with
    | .recv => (next w).toList.filter fun e => w.replaySeq < e.seq
    | _ => []
  | .actionTask _ =>
    match w.actionPc with
    | .read min => (w.hist.log.replayFrom min w.fromSeq).events
    | _ => []

def maxReplayed : ActionPc → Option ℕ
  | .send _ maxReplayedSeq | .storeSeq maxReplayedSeq => some maxReplayedSeq
  | _ => none

structure Phases (w : Socket) : Prop where
  waits : w.replayStarted = false → Waiting w.sendPc
  replayed : w.replayStarted = true → Replayed w.actionPc

section Flow
variable {w w' : Socket} {a : WebSocket.Action} {sent : Bool} {e : SessionEvent}

theorem Phases.waiting (h : Phases w) (hpc : ¬ Replayed w.actionPc) : Waiting w.sendPc := by
  cases hstart : w.replayStarted with
  | false => exact h.waits hstart
  | true => exact absurd (h.replayed hstart) hpc

theorem Phases.started (h : Phases w) (hpc : ¬ Waiting w.sendPc) : w.replayStarted = true := by
  cases hstart : w.replayStarted with
  | false => exact absurd (h.waits hstart) hpc
  | true => rfl

theorem toForward_waiting {pc : SendPc} (h : Waiting pc) (replaySeq : ℕ) :
    toForward replaySeq pc = [] := by
  cases pc <;> first
    | rfl
    | cases h

theorem recvStep_next (hs : w.recvStep = some w') :
    ∃ hist, w.hist.step (.recv w.rx) = some hist ∧
      (next w = none ∧ w' = { w with hist := hist } ∨
        ∃ event, next w = some event ∧ w' = { w with hist := hist, sendPc := .load event }) := by
  unfold Socket.recvStep at hs
  unfold next
  split at hs
  · next r hist hr hstep =>
    rw [hr]
    refine ⟨hist, hstep, ?_⟩
    cases hrec : r.recv.1 <;> rw [hrec] at hs <;> cases hs
    · exact .inr ⟨_, by simp only [hrec], rfl⟩
    · exact .inl ⟨by simp only [hrec], rfl⟩
  · cases hs

theorem sendStep_flow (hne : w.sendPc ≠ .recv) (hs : w.sendStep sent = some w') :
    w'.actionPc = w.actionPc ∧
      (∀ e ∈ w'.sent ++ toForward w'.replaySeq w'.sendPc,
        e ∈ w.sent ++ toForward w.replaySeq w.sendPc) ∧
      (sent = true → ∀ e ∈ w.sent ++ toForward w.replaySeq w.sendPc,
        e ∈ w'.sent ++ toForward w'.replaySeq w'.sendPc) := by
  cases hpc : w.sendPc <;> simp only [Socket.sendStep, hpc, Option.some.injEq] at hs
  case recv => exact absurd hpc hne
  case check seen =>
    subst hs
    refine ⟨rfl, ?_⟩
    cases hstart : w.replayStarted <;> exact ⟨fun _ he => he, fun _ _ he => he⟩
  case load event =>
    subst hs
    refine ⟨rfl, ?_⟩
    by_cases hle : event.seq ≤ w.replaySeq
    · simp only [if_pos hle, toForward, if_neg (Nat.not_lt.mpr hle)]
      exact ⟨fun _ he => he, fun _ _ he => he⟩
    · simp only [if_neg hle, toForward, if_pos (Nat.lt_of_not_le hle)]
      exact ⟨fun _ he => he, fun _ _ he => he⟩
  case send event =>
    have hmessages : eventsOf (w.messages ++ [.event event]) = w.sent ++ [event] :=
      eventsOf_append _ _
    cases sent <;> cases hs <;> refine ⟨rfl, ?_⟩
    · refine ⟨fun e he => List.mem_append_left _ ?_, by intros; contradiction⟩
      exact (List.mem_append.mp he).resolve_right List.not_mem_nil
    · simp only [Socket.sent, hmessages, toForward, List.append_nil]
      exact ⟨fun _ he => he, fun _ _ he => he⟩
  case ended => cases hs
  case await | lock =>
    split at hs <;> cases hs
    exact ⟨rfl, fun _ he => he, fun _ _ he => he⟩
  all_goals
    subst hs
    exact ⟨rfl, fun _ he => he, fun _ _ he => he⟩

/-- What is sent or on its way after a step was so before, or enters by the step.
Nothing gets lost on a socket that works. -/
structure Flow (w : Socket) (a : WebSocket.Action) (w' : Socket) : Prop where
  origin : ∀ e ∈ w'.sent ++ outgoing w', e ∈ w.sent ++ outgoing w ∨ e ∈ entering w a
  kept : Works a → ∀ e ∈ w.sent ++ outgoing w, e ∈ w'.sent ++ outgoing w'
  entered : ∀ e ∈ entering w a, e ∈ outgoing w'

theorem Flow.still (hsame : w'.sent ++ outgoing w' = w.sent ++ outgoing w)
    (hnone : entering w a = []) : Flow w a w' := by
  refine ⟨fun e he => .inl (hsame ▸ he), fun _ e he => hsame ▸ he, ?_⟩
  rw [hnone]
  exact fun e he => absurd he List.not_mem_nil

theorem mem_flow : e ∈ w.sent ++ outgoing w ↔
    e ∈ toReplay w.actionPc ∨ e ∈ w.sent ++ toForward w.replaySeq w.sendPc := by
  simp only [outgoing, List.mem_append]
  exact or_left_comm

theorem sendTask_flow (hs : w.sendStep sent = some w') : Flow w (.sendTask sent) w' := by
  by_cases hpc : w.sendPc = .recv
  · simp only [Socket.sendStep, hpc] at hs
    obtain ⟨hist, -, ⟨hnext, rfl⟩ | ⟨event, hnext, rfl⟩⟩ := recvStep_next hs
    · have hnone : entering w (.sendTask sent) = [] := by
        simp only [entering, hpc, hnext, Option.toList_none, List.filter_nil]
      exact .still rfl hnone
    · have henter : entering w (.sendTask sent) = toForward w.replaySeq (.load event) := by
        simp only [entering, hpc, hnext, Option.toList_some, List.filter_singleton, toForward,
          Bool.cond_decide]
      refine ⟨fun e he => ?_, fun _ e he => ?_, fun e he => ?_⟩
      · rw [henter]
        rcases mem_flow.mp he with he | he
        · exact .inl (mem_flow.mpr (.inl he))
        · exact (List.mem_append.mp he).imp_left (List.mem_append_left _)
      · rcases mem_flow.mp he with he | he
        · exact mem_flow.mpr (.inl he)
        · rw [hpc] at he
          have hsent := (List.mem_append.mp he).resolve_right List.not_mem_nil
          exact List.mem_append_left _ hsent
      · exact List.mem_append_right _ (henter ▸ he)
  · obtain ⟨hact, horigin, hkept⟩ := sendStep_flow hpc hs
    have hnone : entering w (.sendTask sent) = [] := by
      simp only [entering]
    refine ⟨fun e he => .inl ?_, fun hworks e he => ?_, ?_⟩
    · rw [mem_flow, hact] at he
      exact mem_flow.mpr (he.imp_right (horigin e))
    · rw [mem_flow, hact]
      exact (mem_flow.mp he).imp_right (hkept hworks e)
    · rw [hnone]
      exact fun e he => absurd he List.not_mem_nil

theorem read_flow {min : ℕ} (hpc : w.actionPc = .read min) (hs : w.actionStep sent = some w') :
    Flow w (.actionTask sent) w' := by
  have henter : entering w (.actionTask sent) =
      (w.hist.log.replayFrom min w.fromSeq).events := by
    simp only [entering, hpc]
  simp only [Socket.actionStep, hpc, Option.some.injEq] at hs
  subst hs
  refine ⟨fun e he => ?_, fun _ e he => ?_, fun e he => ?_⟩
  · rw [henter]
    rcases mem_flow.mp he with he | he
    · exact .inr he
    · exact .inl (mem_flow.mpr (.inr he))
  · rw [mem_flow, hpc] at he
    exact mem_flow.mpr (.inr (he.resolve_left List.not_mem_nil))
  · rw [henter] at he
    exact List.mem_append_left _ he

theorem replay_flow {event : SessionEvent} {events : List SessionEvent} {maxReplayedSeq : ℕ}
    (hpc : w.actionPc = .send (event :: events) maxReplayedSeq)
    (hs : w.actionStep sent = some w') : Flow w (.actionTask sent) w' := by
  have hnone : entering w (.actionTask sent) = [] := by simp only [entering, hpc]
  simp only [Socket.actionStep, hpc] at hs
  cases sent
  · cases hs
    refine ⟨fun e he => .inl ?_, by intros; contradiction, ?_⟩
    · rcases mem_flow.mp he with he | he
      · cases he
      · exact mem_flow.mpr (.inr he)
    · rw [hnone]
      exact fun e he => absurd he List.not_mem_nil
  · cases hs
    have hmessages : eventsOf (w.messages ++ [.event event]) = w.sent ++ [event] :=
      eventsOf_append _ _
    refine .still ?_ hnone
    simp only [Socket.sent, hmessages, outgoing, hpc, toReplay, List.append_assoc,
      List.cons_append, List.nil_append]

/-- The action task passes on what it holds. While it does so the send task holds
nothing. -/
theorem actionTask_flow (h : Phases w) (hs : w.actionStep sent = some w') :
    Flow w (.actionTask sent) w' := by
  cases hpc : w.actionPc
  case read min => exact read_flow hpc hs
  case done | ended =>
    simp only [Socket.actionStep, hpc] at hs
    cases hs
  case send events maxReplayedSeq =>
    cases events with
    | nil =>
      simp only [Socket.actionStep, hpc, Option.some.injEq] at hs
      subst hs
      exact .still (by simp only [outgoing, hpc]; rfl) (by simp only [entering, hpc])
    | cons event events => exact replay_flow hpc hs
  all_goals
    have hnone : entering w (.actionTask sent) = [] := by simp only [entering, hpc]
    simp only [Socket.actionStep, hpc, Option.some.injEq] at hs
  case lock replay =>
    split at hs <;> cases hs
    refine .still ?_ hnone
    cases replay <;> simp only [outgoing, hpc] <;> rfl
  case gap oldest events =>
    subst hs
    have hmessages : eventsOf (w.messages ++
        if sent then [.replayGap oldest w.fromSeq] else []) = w.sent := by
      rw [eventsOf_append]
      cases sent <;> exact List.append_nil _
    refine .still ?_ hnone
    simp only [Socket.sent, hmessages, outgoing, hpc]
    rfl
  case storeSeq maxReplayedSeq =>
    subst hs
    have hwait : Waiting w.sendPc := h.waiting (by rw [hpc]; exact id)
    refine .still ?_ hnone
    simp only [outgoing, hpc, toForward_waiting hwait]
    rfl
  all_goals
    subst hs
    refine .still ?_ hnone
    simp only [outgoing, hpc]
    rfl

theorem step_flow (h : Phases w) (hs : w.step a = some w') : Flow w a w' := by
  cases a with
  | log a =>
    obtain ⟨-, hist, -, rfl⟩ := step_log hs
    exact .still rfl rfl
  | sendTask sent => exact sendTask_flow hs
  | actionTask sent => exact actionTask_flow h hs

theorem connect_phases (h : History) (fromSeq : ℕ) : Phases (connect h fromSeq) :=
  ⟨fun _ => trivial, nofun⟩

theorem sendTask_phases (h : Phases w) (hs : w.sendStep sent = some w') : Phases w' := by
  by_cases hwait : Waiting w.sendPc
  · cases hpc : w.sendPc <;> simp only [Socket.sendStep, hpc, Option.some.injEq] at hs
    case notified =>
      subst hs
      exact ⟨fun _ => trivial, h.replayed⟩
    case check seen =>
      subst hs
      refine ⟨fun hstart => ?_, h.replayed⟩
      have hno : w.replayStarted = false := hstart
      simp only [hno]
      trivial
    case await seen =>
      split at hs <;> cases hs
      exact ⟨fun _ => trivial, h.replayed⟩
    all_goals
      rw [hpc] at hwait
      cases hwait
  · have hstart := h.started hwait
    by_cases hpc : w.sendPc = .recv
    · simp only [Socket.sendStep, hpc] at hs
      obtain ⟨hist, -, ⟨-, rfl⟩ | ⟨event, -, rfl⟩⟩ := recvStep_next hs
      · exact ⟨h.waits, h.replayed⟩
      · refine ⟨fun hno => ?_, h.replayed⟩
        cases hstart.symm.trans hno
    · obtain ⟨messages, sender, sendPc, replaySeq, rfl⟩ := sendStep_frame hpc hs
      refine ⟨fun hno => ?_, h.replayed⟩
      cases hstart.symm.trans hno

theorem actionTask_phases (h : Phases w) (hs : w.actionStep sent = some w') : Phases w' := by
  by_cases hreplayed : Replayed w.actionPc
  · cases hpc : w.actionPc <;> simp only [Socket.actionStep, hpc, Option.some.injEq] at hs
    case notify | unlock =>
      subst hs
      exact ⟨h.waits, fun _ => trivial⟩
    case done => cases hs
    all_goals
      rw [hpc] at hreplayed
      cases hreplayed
  · have hwait := h.waiting hreplayed
    have hstart : w.replayStarted = true → False := fun hstart => hreplayed (h.replayed hstart)
    cases hpc : w.actionPc <;> simp only [Socket.actionStep, hpc, Option.some.injEq] at hs
    case storeStarted =>
      subst hs
      exact ⟨fun _ => hwait, fun _ => trivial⟩
    case lock replay =>
      split at hs <;> cases hs
      exact ⟨fun _ => hwait, fun hyes => (hstart hyes).elim⟩
    case send events maxReplayedSeq =>
      cases events <;> cases sent <;>
        · cases hs
          exact ⟨fun _ => hwait, fun hyes => (hstart hyes).elim⟩
    all_goals
      cases hs
      try exact ⟨fun _ => hwait, fun hyes => (hstart hyes).elim⟩

theorem step_phases (h : Phases w) (hs : w.step a = some w') : Phases w' := by
  cases a with
  | log a =>
    obtain ⟨-, hist, -, rfl⟩ := step_log hs
    exact ⟨h.waits, h.replayed⟩
  | sendTask sent => exact sendTask_phases h hs
  | actionTask sent => exact actionTask_phases h hs

end Flow

structure Bounded (w : Socket) : Prop where
  phases : Phases w
  flow : ∀ e ∈ w.sent ++ outgoing w, w.fromSeq ≤ e.seq
  replaySeq : w.replaySeq = 0 ∨ w.fromSeq ≤ w.replaySeq
  replayed : ∀ m ∈ maxReplayed w.actionPc, m = 0 ∨ w.fromSeq ≤ m

section Bound
variable {w w' : Socket} {a : WebSocket.Action} {sent : Bool} {e : SessionEvent}

theorem lastSeq_bound {events : List SessionEvent} {n : ℕ} (h : ∀ e ∈ events, n ≤ e.seq) :
    lastSeq events = 0 ∨ n ≤ lastSeq events := by
  unfold lastSeq
  cases hlast : events.getLast? with
  | none => exact .inl rfl
  | some e => exact .inr (h e (List.mem_of_getLast? hlast))

theorem sendTask_replaySeq (hs : w.sendStep sent = some w') :
    w'.actionPc = w.actionPc ∧
      (w'.replaySeq = w.replaySeq ∨ ∃ e ∈ outgoing w, w'.replaySeq = e.seq) := by
  by_cases hrecv : w.sendPc = .recv
  · simp only [Socket.sendStep, hrecv] at hs
    obtain ⟨hist, -, ⟨-, rfl⟩ | ⟨event, -, rfl⟩⟩ := recvStep_next hs
    · exact ⟨rfl, .inl rfl⟩
    · exact ⟨rfl, .inl rfl⟩
  · by_cases hstore : ∃ event, w.sendPc = .store event
    · obtain ⟨event, hpc⟩ := hstore
      simp only [Socket.sendStep, hpc, Option.some.injEq] at hs
      subst hs
      refine ⟨rfl, .inr ⟨event, ?_, rfl⟩⟩
      rw [outgoing, hpc]
      exact List.mem_append_right _ (List.mem_singleton_self event)
    · cases hpc : w.sendPc <;> simp only [Socket.sendStep, hpc, Option.some.injEq] at hs
      case recv => exact absurd hpc hrecv
      case store event => exact absurd ⟨event, hpc⟩ hstore
      case await | lock | send =>
        split at hs <;> cases hs
        all_goals exact ⟨rfl, .inl rfl⟩
      all_goals
        cases hs
        try exact ⟨rfl, .inl rfl⟩

theorem actionTask_replaySeq (hs : w.actionStep sent = some w') :
    (w'.replaySeq = w.replaySeq ∨ w'.replaySeq ∈ maxReplayed w.actionPc) ∧
      ∀ m ∈ maxReplayed w'.actionPc,
        m ∈ maxReplayed w.actionPc ∨ m = lastSeq (toReplay w.actionPc) := by
  cases hpc : w.actionPc <;> simp only [Socket.actionStep, hpc, Option.some.injEq] at hs
  case lock replay =>
    split at hs <;> cases hs
    refine ⟨.inl rfl, fun m hm => ?_⟩
    cases replay with
    | complete events =>
      cases hm
      exact .inr rfl
    | partly events oldest => cases hm
  case gap oldest events =>
    subst hs
    refine ⟨.inl rfl, fun m hm => ?_⟩
    cases hm
    exact .inr rfl
  case send events maxReplayedSeq =>
    cases events with
    | nil =>
      cases hs
      exact ⟨.inl rfl, fun m hm => .inl hm⟩
    | cons event events =>
      cases sent <;> cases hs
      · exact ⟨.inl rfl, fun m hm => by cases hm⟩
      · exact ⟨.inl rfl, fun m hm => .inl hm⟩
  case storeSeq maxReplayedSeq =>
    subst hs
    exact ⟨.inr rfl, fun m hm => by cases hm⟩
  all_goals
    cases hs
    try exact ⟨.inl rfl, fun m hm => by cases hm⟩

theorem connect_bounded (h : History) (fromSeq : ℕ) : Bounded (connect h fromSeq) := by
  refine ⟨connect_phases h fromSeq, fun e he => ?_, .inl rfl, fun m hm => ?_⟩
  · cases he
  · cases hm

theorem entering_bounded (h : Bounded w) (hC : KeepsBound w a) :
    ∀ e ∈ entering w a, w.fromSeq ≤ e.seq := by
  intro e he
  cases a with
  | log a => cases he
  | sendTask sent =>
    cases hpc : w.sendPc
    case recv =>
      simp only [entering, hpc, List.mem_filter, Option.mem_toList, decide_eq_true_eq] at he
      simp only [KeepsBound, hpc, StartsAbove] at hC
      rcases h.replaySeq with hzero | hle
      · exact hC hzero e he.1
      · exact hle.trans he.2.le
    all_goals
      simp only [entering, hpc] at he
      cases he
  | actionTask sent =>
    cases hpc : w.actionPc
    case read min =>
      simp only [entering, hpc, EventLog.replayFrom] at he
      simp only [KeepsBound, hpc, ReadsAbove] at hC
      split at he
      · next hpart => exact hC ⟨hpart.1, hpart.2.1⟩ e he
      · exact of_decide_eq_true (List.mem_filter.mp he).2
    all_goals
      simp only [entering, hpc] at he
      cases he

theorem step_bounded (w : Socket) (a : WebSocket.Action) (w' : Socket) (h : Bounded w)
    (hC : KeepsBound w a) (hs : w.step a = some w') : Bounded w' := by
  have hfrom := step_fromSeq w a w' hs
  have hflow : ∀ e ∈ w'.sent ++ outgoing w', w'.fromSeq ≤ e.seq := by
    intro e he
    rw [hfrom]
    exact ((step_flow h.phases hs).origin e he).elim (h.flow e) (entering_bounded h hC e)
  have hseq : (w'.replaySeq = 0 ∨ w'.fromSeq ≤ w'.replaySeq) ∧
      ∀ m ∈ maxReplayed w'.actionPc, m = 0 ∨ w'.fromSeq ≤ m := by
    rw [hfrom]
    cases a with
    | log a =>
      obtain ⟨-, hist, -, rfl⟩ := step_log hs
      exact ⟨h.replaySeq, h.replayed⟩
    | sendTask sent =>
      obtain ⟨hact, hseq | ⟨e, he, hseq⟩⟩ := sendTask_replaySeq hs
      · rw [hseq, hact]
        exact ⟨h.replaySeq, h.replayed⟩
      · rw [hseq, hact]
        exact ⟨.inr (h.flow e (List.mem_append_right _ he)), h.replayed⟩
    | actionTask sent =>
      obtain ⟨hseq, hmax⟩ := actionTask_replaySeq hs
      have hlast := lastSeq_bound fun e he =>
        h.flow e (List.mem_append_right _ (List.mem_append_left _ he))
      refine ⟨?_, fun m hm => ?_⟩
      · rcases hseq with hseq | hseq
        · rw [hseq]
          exact h.replaySeq
        · exact h.replayed _ hseq
      · rcases hmax m hm with hm | rfl
        · exact h.replayed m hm
        · exact hlast
  exact ⟨step_phases h.phases hs, hflow, hseq.1, hseq.2⟩

end Bound

structure Numbers (w : Socket) : Prop where
  kept : w.hist.Kept
  queue : ∃ r, w.hist.receiver w.rx = some r ∧ ∀ e ∈ r.queue, 0 < e.seq

def Below (fromSeq : ℕ) (w : Socket) : Prop :=
  w.fromSeq = fromSeq ∧ Phases w ∧ ∃ e ∈ w.sent ++ outgoing w, e.seq < fromSeq

section Damage
variable {w w' : Socket} {a : WebSocket.Action} {e : SessionEvent} {fromSeq : ℕ}

theorem connect_numbers {h : History} (hk : h.Kept) (fromSeq : ℕ) :
    Numbers (connect h fromSeq) :=
  ⟨History.step_kept hk (connect_step h fromSeq), Receiver.new, connect_receiver h fromSeq,
    fun _ he => absurd he List.not_mem_nil⟩

theorem step_numbers (h : Numbers w) (hs : w.step a = some w') : Numbers w' := by
  obtain ⟨r, hr, hpos⟩ := h.queue
  cases a with
  | log a =>
    obtain ⟨hrx, hist, hstep, rfl⟩ := step_log hs
    refine ⟨History.step_kept h.kept hstep, ?_⟩
    rcases History.receiver_step hr hrx hstep with ⟨-, hr'⟩ | ⟨k, x, -, hx, hr'⟩
    · exact ⟨r, hr', hpos⟩
    · refine ⟨_, hr', fun e he => ?_⟩
      rcases BoundedQueue.mem_push he with he | rfl
      · exact hpos e he
      · rw [h.kept.numbered.seqs k _ hx]
        exact Nat.succ_pos k
  | sendTask sent =>
    by_cases hpc : w.sendPc = .recv
    · simp only [Socket.step, Socket.sendStep, hpc] at hs
      obtain ⟨hist, hstep, hcases⟩ := recvStep_next hs
      have hpos' : ∀ e ∈ r.recv.2.queue, 0 < e.seq := by
        intro e he
        rcases Receiver.recv_cases r with hrec | hrec | ⟨x, q, hq, hrec⟩ <;> rw [hrec] at he
        · exact hpos e he
        · exact hpos e he
        · exact hpos e (hq ▸ List.mem_cons_of_mem x he)
      have hnumbers : ∃ r, hist.receiver w.rx = some r ∧ ∀ e ∈ r.queue, 0 < e.seq :=
        ⟨_, (History.receiver_recv hr hstep).1, hpos'⟩
      rcases hcases with ⟨-, rfl⟩ | ⟨event, -, rfl⟩
      · exact ⟨History.step_kept h.kept hstep, hnumbers⟩
      · exact ⟨History.step_kept h.kept hstep, hnumbers⟩
    · obtain ⟨messages, sender, sendPc, replaySeq, rfl⟩ := sendStep_frame hpc hs
      exact ⟨h.kept, h.queue⟩
  | actionTask sent =>
    obtain ⟨hhist, hrx, -, -⟩ := actionStep_frame hs
    exact ⟨hhist ▸ h.kept, r, by rw [hhist, hrx]; exact hr, hpos⟩

theorem next_pos (h : Numbers w) (he : next w = some e) : 0 < e.seq := by
  obtain ⟨r, hr, hpos⟩ := h.queue
  simp only [next, hr] at he
  rcases Receiver.recv_cases r with hrec | hrec | ⟨x, q, hq, hrec⟩ <;> rw [hrec] at he <;> cases he
  exact hpos e (hq ▸ List.mem_cons_self)

theorem entering_below (h : Numbers w) (hno : ¬ KeepsBound w a) :
    ∃ e ∈ entering w a, e.seq < w.fromSeq := by
  cases a with
  | log a => exact absurd trivial hno
  | sendTask sent =>
    cases hpc : w.sendPc
    case recv =>
      simp only [KeepsBound, hpc, StartsAbove, not_forall, Nat.not_le] at hno
      obtain ⟨hzero, e, he, hlt⟩ := hno
      refine ⟨e, ?_, hlt⟩
      simp only [entering, hpc, List.mem_filter, Option.mem_toList, decide_eq_true_eq]
      exact ⟨he, hzero ▸ next_pos h he⟩
    all_goals
      simp only [KeepsBound, hpc, StartsAbove, not_true_eq_false] at hno
  | actionTask sent =>
    cases hpc : w.actionPc
    case read min =>
      simp only [KeepsBound, hpc, ReadsAbove, not_forall, Nat.not_le] at hno
      obtain ⟨⟨hpos, hmin⟩, e, he, hlt⟩ := hno
      refine ⟨e, ?_, hlt⟩
      simp only [entering, hpc, EventLog.replayFrom]
      rw [if_pos ⟨hpos, hmin, hpos.trans hmin⟩]
      exact he
    all_goals
      simp only [KeepsBound, hpc, ReadsAbove, not_true_eq_false] at hno

theorem step_breaks (h : Phases w ∧ Numbers w ∧ w.fromSeq = fromSeq) (hno : ¬ KeepsBound w a)
    (hs : w.step a = some w') : Below fromSeq w' := by
  obtain ⟨hphases, hnumbers, rfl⟩ := h
  obtain ⟨e, he, hlt⟩ := entering_below hnumbers hno
  refine ⟨step_fromSeq w a w' hs, step_phases hphases hs, e, ?_, hlt⟩
  exact List.mem_append_right _ ((step_flow hphases hs).entered e he)

theorem step_below (h : Below fromSeq w) (hworks : Works a) (hs : w.step a = some w') :
    Below fromSeq w' := by
  obtain ⟨hfrom, hphases, e, he, hlt⟩ := h
  refine ⟨(step_fromSeq w a w' hs).trans hfrom, step_phases hphases hs, e, ?_, hlt⟩
  exact (step_flow hphases hs).kept hworks e he

end Damage

section Run
variable {maxEntries fromSeq : ℕ} {before : List LogAction} {h : History}
  {acts : List WebSocket.Action} {w : Socket}

theorem run_kept (hbefore : run History.step (.new maxEntries) before = some h) : h.Kept :=
  preserved (fun _ _ _ hk hs => History.step_kept hk hs) (History.new_kept maxEntries) hbefore

theorem run_bounded (hC : Along Socket.step KeepsBound (connect h fromSeq) acts)
    (hrun : run Socket.step (connect h fromSeq) acts = some w) :
    ∀ e ∈ w.sent ++ outgoing w, fromSeq ≤ e.seq := by
  have hbounded := invariant step_bounded (connect_bounded h fromSeq) hC hrun
  exact run_fromSeq hrun ▸ hbounded.flow

theorem along_of_bounded (hbefore : run History.step (.new maxEntries) before = some h)
    (hworks : ∀ a ∈ acts, Works a)
    (hrun : run Socket.step (connect h fromSeq) acts = some w)
    (hno : ∀ e ∈ w.sent ++ outgoing w, fromSeq ≤ e.seq) :
    Along Socket.step KeepsBound (connect h fromSeq) acts := by
  refine along_of_end (I := fun w => Phases w ∧ Numbers w ∧ w.fromSeq = fromSeq)
    (D := fun _ a => Works a) (L := Below fromSeq) ?_ ?_ ?_ ?_
    (along_of_forall fun a ha _ => hworks a ha) hrun ?_
  · rintro u a u' ⟨hphases, hnumbers, hfrom⟩ - hs
    exact ⟨step_phases hphases hs, step_numbers hnumbers hs,
      (step_fromSeq u a u' hs).trans hfrom⟩
  · exact fun u a u' hI _ hbreak hs => step_breaks hI hbreak hs
  · exact fun u a u' hL hD hs => step_below hL hD hs
  · exact ⟨connect_phases h fromSeq, connect_numbers (run_kept hbefore) fromSeq, rfl⟩
  · rintro ⟨-, -, e, he, hlt⟩
    exact absurd (hno e he) (Nat.not_le.mpr hlt)

end Run

/-- Nothing below `from_seq` is sent in a run in which a replay of the whole deque
has nothing below it in it, and the channel hands over nothing below it first
behind an empty replay. In every other run something is, or is on its way unless
the socket has failed. -/
theorem sent_above_iff (maxEntries fromSeq : ℕ) (before : List LogAction) (h : History)
    (acts : List WebSocket.Action) (w : Socket)
    (hbefore : run History.step (.new maxEntries) before = some h)
    (hrun : run Socket.step (connect h fromSeq) acts = some w) :
    (Along Socket.step KeepsBound (connect h fromSeq) acts →
      ∀ e ∈ w.sent, fromSeq ≤ e.seq) ∧
    ((∀ a ∈ acts, Works a) →
      (Along Socket.step KeepsBound (connect h fromSeq) acts ↔
        ∀ e ∈ w.sent ++ outgoing w, fromSeq ≤ e.seq)) :=
  ⟨fun hC e he => run_bounded hC hrun e (List.mem_append_left _ he),
    fun hworks => ⟨fun hC => run_bounded hC hrun, along_of_bounded hbefore hworks hrun⟩⟩

/-- The second event is in the replay and in the channel, the third comes after it. -/
def fromTwo : List WebSocket.Action :=
  [.log (.send 1)] ++ List.replicate 10 (.actionTask true) ++
    [.log (.draw "s" "codex" (.messageChunk "c")), .log (.push 2), .log (.send 2)] ++
    List.replicate 9 (.sendTask true)

theorem sent_above_fromTwo :
    ∃ h w, run History.step (.new 100) threeBefore = some h ∧
      run Socket.step (connect h 2) fromTwo = some w ∧ w.sent.length = 2 ∧
      ∀ e ∈ w.sent, 2 ≤ e.seq := by
  obtain ⟨h, hbefore, hC, w, hrun, hlen⟩ :
      ∃ h, run History.step (.new 100) threeBefore = some h ∧
        Along Socket.step KeepsBound (connect h 2) fromTwo ∧
        ∃ w, run Socket.step (connect h 2) fromTwo = some w ∧ w.sent.length = 2 := by
    obtain ⟨h, hbefore, hC, hany⟩ := exists_run (s := History.new 100)
      (fun h => Along Socket.step KeepsBound (connect h 2) fromTwo ∧
        (run Socket.step (connect h 2) fromTwo).any
          (fun w : Socket => decide (w.sent.length = 2)) = true)
      (by decide : (run History.step (.new 100) threeBefore).any _ = true)
    exact ⟨h, hbefore, hC, exists_run (fun w : Socket => w.sent.length = 2) hany⟩
  obtain ⟨habove, -⟩ := sent_above_iff 100 2 threeBefore h fromTwo w hbefore hrun
  exact ⟨h, w, hbefore, hrun, hlen, habove hC⟩

/-- The client connects, an event is appended, and the client subscribes from the
number after it. The replay is empty and the channel still has the event. -/
def buffered : List WebSocket.Action :=
  [.log (.draw "s" "codex" (.messageChunk "a")), .log (.push 0), .log (.send 0)] ++
    List.replicate 9 (.actionTask true) ++ List.replicate 7 (.sendTask true)

theorem buffered_below :
    ∃ w, run Socket.step (connect (.new 100) 2) buffered = some w ∧
      ∃ e ∈ w.sent, e.seq < 2 :=
  exists_run (fun w : Socket => ∃ e ∈ w.sent, e.seq < 2) (by decide)

end Ccgonext.LowerBound
