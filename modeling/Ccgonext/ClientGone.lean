import Ccgonext.Commands

/-!
# When the client has gone

The receive task ends with the client's stream and `handle_socket` returns, but
the action task still does what it was asked to, and with the last handle of the
queue gone it ends as well. The send task has no such end: it ends with a send
that fails, and one that nobody has ever woken waits for a notification that no
task is left to give.
-/

namespace Ccgonext.HandleSocket
open Lib Lib.Runs Mpsc Events WebSocket Handover JsonRpc

def replaying : ActionPc → Bool
  | .send .. => true
  | _ => false

def Delivers (c : Connection) : Action → Prop
  | .actionTask sent _ => replaying c.socket.actionPc = true → sent = true
  | _ => True

instance (c : Connection) (a : Action) : Decidable (Delivers c a) := by
  rcases a <;> dsimp only [Delivers] <;> infer_instance

structure AtRest (c : Connection) : Prop where
  recv : c.recvStep = none
  send : c.socket.sendStep true = none
  action : c.actionStep true true = none
  finish : c.finish = none

instance (c : Connection) : Decidable (AtRest c) :=
  decidable_of_iff (c.recvStep = none ∧ c.socket.sendStep true = none ∧
    c.actionStep true true = none ∧ c.finish = none)
    ⟨fun ⟨h₁, h₂, h₃, h₄⟩ => ⟨h₁, h₂, h₃, h₄⟩, fun ⟨h₁, h₂, h₃, h₄⟩ => ⟨h₁, h₂, h₃, h₄⟩⟩


/-- The task that has the socket is the one that is sending. -/
structure Guarded (w : Socket) : Prop where
  sendTask : w.sender = some .sendTask ↔ ∃ e, w.sendPc = .send e
  actionTask : w.sender = some .actionTask ↔ Holding w.actionPc

theorem connect_guarded (h : History) : Guarded (connect h).socket :=
  ⟨by simp [connect, WebSocket.connect], by simp [connect, WebSocket.connect, Holding]⟩

theorem sendStep_guarded {w w' : Socket} {sent : Bool} (h : Guarded w)
    (hs : w.sendStep sent = some w') : Guarded w' := by
  have hfree : (∀ e, w.sendPc ≠ .send e) → w.sender ≠ some .sendTask := by
    intro hpc hsender
    obtain ⟨e, he⟩ := h.sendTask.mp hsender
    exact hpc e he
  have hmove : ∀ pc : SendPc, (∀ e, w.sendPc ≠ .send e) → (∀ e, pc ≠ .send e) →
      (w.sender = some .sendTask ↔ ∃ e, pc = .send e) := by
    intro pc hpc hpc'
    exact ⟨fun hsender => absurd hsender (hfree hpc), fun ⟨e, he⟩ => absurd he (hpc' e)⟩
  cases hpc : w.sendPc <;> simp only [Socket.sendStep, hpc, Option.some.injEq] at hs
  case recv =>
    unfold Socket.recvStep at hs
    split at hs
    · split at hs
      · cases hs
        exact ⟨hmove _ (by rw [hpc]; simp) (by simp), h.actionTask⟩
      · cases hs
        exact ⟨h.sendTask, h.actionTask⟩
      · cases hs
    · cases hs
  case check seen =>
    subst hs
    refine ⟨hmove _ (by rw [hpc]; simp) ?_, h.actionTask⟩
    intro e
    split <;> simp
  case await seen =>
    split at hs
    · cases hs
      exact ⟨hmove _ (by rw [hpc]; simp) (by simp), h.actionTask⟩
    · cases hs
  case load e =>
    subst hs
    refine ⟨hmove _ (by rw [hpc]; simp) ?_, h.actionTask⟩
    intro d
    split <;> simp
  case lock e =>
    cases hsender : w.sender with
    | some task =>
      rw [hsender] at hs
      cases hs
    | none =>
      rw [hsender] at hs
      cases hs
      refine ⟨⟨fun _ => ⟨e, rfl⟩, fun _ => rfl⟩, ⟨(by simp), fun hhold => ?_⟩⟩
      have htaken := h.actionTask.mpr hhold
      rw [hsender] at htaken
      cases htaken
  case send e =>
    have hsender := h.sendTask.mpr ⟨e, hpc⟩
    have haction : ¬ Holding w.actionPc := by
      intro hhold
      have htaken := h.actionTask.mpr hhold
      rw [hsender] at htaken
      cases htaken
    split at hs <;> cases hs <;>
      exact ⟨⟨(by simp), (by simp)⟩, ⟨(by simp), fun hhold => absurd hhold haction⟩⟩
  case ended => cases hs
  all_goals
    subst hs
    exact ⟨hmove _ (by rw [hpc]; simp) (by simp), h.actionTask⟩

theorem actionStep_guarded {w w' : Socket} {sent : Bool} (h : Guarded w)
    (hs : w.actionStep sent = some w') : Guarded w' := by
  have hfree : ¬ Holding w.actionPc → w.sender ≠ some .actionTask := fun hpc hsender =>
    hpc (h.actionTask.mp hsender)
  have hheld : Holding w.actionPc → ∀ e, w.sendPc ≠ .send e := by
    intro hhold e he
    have htaken := h.actionTask.mpr hhold
    rw [h.sendTask.mpr ⟨e, he⟩] at htaken
    cases htaken
  cases hpc : w.actionPc <;> simp only [Socket.actionStep, hpc, Option.some.injEq] at hs
  case recv | loadMin | read =>
    subst hs
    exact ⟨h.sendTask, ⟨fun hsender => absurd hsender (hfree (by rw [hpc]; exact id)), False.elim⟩⟩
  case lock replay =>
    cases hsender : w.sender with
    | some task =>
      rw [hsender] at hs
      cases hs
    | none =>
      rw [hsender] at hs
      cases hs
      refine ⟨⟨(by simp), fun he => ?_⟩, ⟨fun _ => ?_, fun _ => rfl⟩⟩
      · have htaken := h.sendTask.mpr he
        rw [hsender] at htaken
        cases htaken
      · cases replay <;> trivial
  case send events maxReplayedSeq =>
    have hsender := h.actionTask.mpr (by rw [hpc]; trivial)
    have hsend := hheld (by rw [hpc]; trivial)
    cases events with
    | nil =>
      cases hs
      exact ⟨h.sendTask, ⟨fun _ => trivial, fun _ => hsender⟩⟩
    | cons e events =>
      simp only at hs
      split at hs <;> cases hs
      · exact ⟨h.sendTask, ⟨fun _ => trivial, fun _ => hsender⟩⟩
      · exact ⟨⟨(by simp), fun he => he.elim fun d hd => absurd hd (hsend d)⟩, ⟨(by simp), False.elim⟩⟩
  case unlock =>
    have hsend := hheld (by rw [hpc]; trivial)
    subst hs
    exact ⟨⟨(by simp), fun he => he.elim fun d hd => absurd hd (hsend d)⟩, ⟨(by simp), False.elim⟩⟩
  case done | ended => cases hs
  all_goals
    have hsender := h.actionTask.mpr (by rw [hpc]; trivial)
    subst hs
    exact ⟨h.sendTask, ⟨fun _ => trivial, fun _ => hsender⟩⟩

/-- The send task waits for the first replay, and misses no notification: it waits
from before the first one, which comes behind the store. -/
structure Waking (w : Socket) : Prop where
  unstarted : w.replayStarted = false → w.notifies = 0 ∧ Waiting w.sendPc
  pending : w.replayStarted = true → w.notifies = 0 → w.actionPc = .notify
  notifying : w.actionPc = .notify → w.replayStarted = true
  checking : ∀ seen, w.sendPc = .check seen → seen ≤ w.notifies
  awaiting : ∀ seen, w.sendPc = .await seen → seen = 0

theorem connect_waking (h : History) : Waking (connect h).socket :=
  ⟨fun _ => ⟨rfl, trivial⟩, by simp [connect, WebSocket.connect],
    by simp [connect, WebSocket.connect], by simp [connect, WebSocket.connect],
    by simp [connect, WebSocket.connect]⟩

theorem Waking.congr {w w' : Socket} (h : Waking w) (hsend : w'.sendPc = w.sendPc)
    (hstarted : w'.replayStarted = w.replayStarted) (hnotifies : w'.notifies = w.notifies)
    (haction : w'.actionPc = .notify ↔ w.actionPc = .notify) : Waking w' := by
  refine ⟨?_, ?_, ?_, ?_, ?_⟩
  · rw [hstarted, hnotifies, hsend]
    exact h.unstarted
  · rw [hstarted, hnotifies, haction]
    exact h.pending
  · rw [hstarted, haction]
    exact h.notifying
  · rw [hsend, hnotifies]
    exact h.checking
  · rw [hsend]
    exact h.awaiting

theorem Waking.moved {w w' : Socket} (h : Waking w) (hstarted : w'.replayStarted = w.replayStarted)
    (hnotifies : w'.notifies = w.notifies) (haction : w'.actionPc = w.actionPc)
    (hwaits : w.replayStarted = false → Waiting w'.sendPc)
    (hchecking : ∀ seen, w'.sendPc = .check seen → seen ≤ w.notifies)
    (hawaiting : ∀ seen, w'.sendPc = .await seen → seen = 0) : Waking w' := by
  refine ⟨?_, ?_, ?_, ?_, hawaiting⟩
  · rw [hstarted, hnotifies]
    exact fun hs => ⟨(h.unstarted hs).1, hwaits hs⟩
  · rw [hstarted, hnotifies, haction]
    exact h.pending
  · rw [hstarted, haction]
    exact h.notifying
  · rw [hnotifies]
    exact hchecking

theorem Waking.started {w : Socket} (h : Waking w) (hpc : ¬ Waiting w.sendPc) :
    w.replayStarted = true := by
  cases hs : w.replayStarted with
  | true => rfl
  | false => exact absurd (h.unstarted hs).2 hpc

theorem sendStep_waking {w w' : Socket} {sent : Bool} (h : Waking w)
    (hs : w.sendStep sent = some w') : Waking w' := by
  cases hpc : w.sendPc <;> simp only [Socket.sendStep, hpc, Option.some.injEq] at hs
  case notified =>
    subst hs
    refine h.moved rfl rfl rfl (fun _ => trivial) ?_ (by simp)
    rintro seen hseen
    cases hseen
    exact le_rfl
  case check seen =>
    subst hs
    cases hstart : w.replayStarted with
    | true =>
      refine h.moved hstart.symm rfl rfl (fun hfalse => ?_) ?_ ?_
      · rw [hstart] at hfalse
        cases hfalse
      · simp only [if_true]
        simp
      · simp only [if_true]
        simp
    | false =>
      refine h.moved hstart.symm rfl rfl (fun _ => trivial) ?_ ?_
      · simp only [Bool.false_eq_true, if_false]
        simp
      · simp only [Bool.false_eq_true, if_false]
        rintro n hn
        cases hn
        have hle := h.checking seen hpc
        rw [(h.unstarted hstart).1] at hle
        exact Nat.le_zero.mp hle
  case await seen =>
    split at hs
    · cases hs
      exact h.moved rfl rfl rfl (fun _ => trivial) (by simp) (by simp)
    · cases hs
  case ended => cases hs
  all_goals
    have hstarted := h.started (by rw [hpc]; exact id)
    have hbusy : w.replayStarted = false → ∀ pc, Waiting pc := by
      intro hfalse
      rw [hstarted] at hfalse
      cases hfalse
  case recv =>
    obtain ⟨hist, sendPc, rfl, hwork⟩ : ∃ hist sendPc,
        w' = { w with hist := hist, sendPc := sendPc } ∧
          (sendPc = .recv ∨ ∃ e, sendPc = .load e) := by
      unfold Socket.recvStep at hs
      split at hs
      · split at hs
        · cases hs
          exact ⟨_, _, rfl, .inr ⟨_, rfl⟩⟩
        · cases hs
          exact ⟨_, w.sendPc, rfl, .inl hpc⟩
        · cases hs
      · cases hs
    refine h.moved rfl rfl rfl (fun hfalse => hbusy hfalse _) ?_ ?_ <;>
      · rcases hwork with rfl | ⟨e, rfl⟩ <;> simp
  case load e =>
    subst hs
    refine h.moved rfl rfl rfl (fun hfalse => hbusy hfalse _) ?_ ?_ <;>
      · dsimp only
        split <;> simp
  case lock e =>
    split at hs
    · cases hs
      exact h.moved rfl rfl rfl (fun hfalse => hbusy hfalse _) (by simp) (by simp)
    · cases hs
  case send e =>
    split at hs <;> cases hs <;>
      exact h.moved rfl rfl rfl (fun hfalse => hbusy hfalse _) (by simp) (by simp)
  case store e =>
    subst hs
    exact h.moved rfl rfl rfl (fun hfalse => hbusy hfalse _) (by simp) (by simp)

theorem actionStep_waking {w w' : Socket} {sent : Bool} (h : Waking w)
    (hs : w.actionStep sent = some w') : Waking w' := by
  have hquiet : w.actionPc ≠ .notify → ∀ pc : ActionPc, pc ≠ .notify →
      (pc = .notify ↔ w.actionPc = .notify) := fun hne _ hpc => iff_of_false hpc hne
  cases hpc : w.actionPc <;> simp only [Socket.actionStep, hpc, Option.some.injEq] at hs
  case lock replay =>
    split at hs
    · cases hs
      refine h.congr rfl rfl rfl (hquiet (by rw [hpc]; simp) _ ?_)
      cases replay <;> simp [ActionPc.locked]
    · cases hs
  case send events maxReplayedSeq =>
    cases events with
    | nil =>
      cases hs
      exact h.congr rfl rfl rfl (hquiet (by rw [hpc]; simp) _ (by simp))
    | cons e events =>
      simp only at hs
      split at hs <;> cases hs <;>
        exact h.congr rfl rfl rfl (hquiet (by rw [hpc]; simp) _ (by simp))
  case storeStarted =>
    subst hs
    exact ⟨(by simp), fun _ _ => rfl, fun _ => rfl, h.checking, h.awaiting⟩
  case notify =>
    subst hs
    have hstarted := h.notifying hpc
    refine ⟨fun hstart => ?_, (by simp), (by simp), fun seen hseen => ?_, h.awaiting⟩
    · rw [hstarted] at hstart
      cases hstart
    · exact (h.checking seen hseen).trans (Nat.le_succ _)
  case done | ended => cases hs
  all_goals
    subst hs
    exact h.congr rfl rfl rfl (hquiet (by rw [hpc]; simp) _ (by simp))

section Tasks
variable {parse : List Char → Option Json} {c c' : Connection} {a : Action}

structure Awake (c : Connection) : Prop where
  guarded : Guarded c.socket
  waking : Waking c.socket

theorem not_holding {pc : ActionPc} (h : Idle pc) : ¬ Holding pc := by
  rcases h with rfl | rfl <;> exact id

theorem Awake.setAction (h : Awake c) (hidle : Idle c.socket.actionPc) (pc : ActionPc)
    (fromSeq : ℕ) (hpc : ¬ Holding pc) (hquiet : pc ≠ .notify)
    (hsocket : c'.socket = { c.socket with fromSeq := fromSeq, actionPc := pc }) : Awake c' := by
  have hbefore : c.socket.actionPc ≠ .notify := by
    rcases hidle with hpc | hpc <;> rw [hpc] <;> simp
  have hguarded : Guarded { c.socket with fromSeq := fromSeq, actionPc := pc } := by
    refine ⟨h.guarded.sendTask, fun hsender => ?_, fun hhold => absurd hhold hpc⟩
    exact absurd (h.guarded.actionTask.mp hsender) (not_holding hidle)
  refine ⟨by rwa [hsocket], ?_⟩
  rw [hsocket]
  exact h.waking.congr rfl rfl rfl (iff_of_false hquiet hbefore)

theorem step_awake (h : Awake c) (hs : c.step parse a = some c') : Awake c' := by
  cases step_moved hs with
  | log a w hw =>
    obtain ⟨-, hist, -, rfl⟩ := Handover.step_log hw
    exact ⟨⟨h.guarded.sendTask, h.guarded.actionTask⟩, h.waking.congr rfl rfl rfl Iff.rfl⟩
  | sent sent w hw => exact ⟨sendStep_guarded h.guarded hw, sendStep_waking h.waking hw⟩
  | skipped f hf => exact h
  | received f cmd hpc hf => exact ⟨h.guarded, h.waking⟩
  | gone f hpc hf => exact ⟨h.guarded, h.waking⟩
  | queued cmd actions hpc hsend => exact ⟨h.guarded, h.waking⟩
  | refused cmd hpc hsend => exact ⟨h.guarded, h.waking⟩
  | answered sent found answering hans => cases answering <;> exact ⟨h.guarded, h.waking⟩
  | took sent found cmd actions hans hidle hrecv =>
    have hidle := (idle_iff hans).mp hidle
    cases cmd with
    | subscribe fromSeq => exact h.setAction hidle .loadMin fromSeq id (by simp) rfl
    | prompt sessionId text | cancel sessionId => exact ⟨h.guarded, h.waking⟩
    | permissionResponse sessionId id granted => exact ⟨h.guarded, h.waking⟩
  | drained sent found hans hidle hrecv =>
    exact h.setAction ((idle_iff hans).mp hidle) .ended _ id (by simp) rfl
  | replayed sent found w hans hbusy hw =>
    exact ⟨actionStep_guarded h.guarded hw, actionStep_waking h.waking hw⟩
  | finished hend hreturned => exact ⟨h.guarded, h.waking⟩

def Drained (c : Connection) : Prop :=
  c.socket.actionPc = .ended →
    c.recvPc = .ended ∧ c.returned = true ∧ c.actions.taken = c.received

def Begun (started : Bool) (replays : List Replay) : ActionPc → Prop
  | .recv | .loadMin | .read _ | .ended => started = true ↔ replays ≠ []
  | .lock _ | .gap .. | .send .. | .storeSeq _ | .storeStarted => replays ≠ []
  | .notify | .unlock | .done => started = true ∧ replays ≠ []

def Begins (c : Connection) : Prop := Begun c.socket.replayStarted c.replays c.socket.actionPc

theorem Drained.of_live (h : c.socket.actionPc ≠ .ended) : Drained c := fun hend => absurd hend h

theorem Lane.drained (h : Lane c) (hlive : c.socket.actionPc ≠ .ended)
    (hrecv : c.actions.recv = .disconnected) : Drained c.endAction := by
  intro _
  obtain ⟨hwaiting, hsenders⟩ := Queue.recv_disconnected hrecv
  have hcount := h.senders
  rw [hsenders] at hcount
  have hend : c.recvPc = .ended := by
    by_contra hopen
    rw [if_neg hopen] at hcount
    omega
  have hreturned : c.returned = true := by
    by_contra hopen
    rw [if_neg hopen] at hcount
    omega
  have hread := h.reading.mpr hlive
  refine ⟨hend, hreturned, ?_⟩
  rcases h.received with hreceived | ⟨-, hclosed, -⟩
  · rw [hend, h.sound.whole hread, hwaiting] at hreceived
    rw [inHand, List.append_nil, List.append_nil] at hreceived
    exact hreceived.symm
  · rw [hread] at hclosed
    cases hclosed

theorem step_drained (hl : Lane c) (h : Drained c) (hdelivers : Delivers c a)
    (hs : c.step parse a = some c') : Drained c' := by
  have hopen : c.recvPc ≠ .ended → c.socket.actionPc ≠ .ended := fun hne hend => hne (h hend).1
  cases step_moved hs with
  | log a w hw =>
    obtain ⟨-, hist, -, rfl⟩ := Handover.step_log hw
    exact h
  | sent sent w hw =>
    intro hend
    rw [(sendStep_still hw).1] at hend
    exact h hend
  | skipped f hf => exact h
  | received f cmd hpc hf => exact .of_live (hopen (by rw [hpc]; simp))
  | gone f hpc hf => exact .of_live (hopen (by rw [hpc]; simp))
  | queued cmd actions hpc hsend => exact .of_live (hopen (by rw [hpc]; simp))
  | refused cmd hpc hsend => exact .of_live (hopen (by rw [hpc]; simp))
  | answered sent found answering hans =>
    refine .of_live ?_
    have hidle := hl.alone (by rw [hans]; exact Option.some_ne_none _)
    cases answering <;> rcases hidle with hpc | hpc <;>
      · simp only [Connection.answerStep, hpc]
        simp
  | took sent found cmd actions hans hidle hrecv =>
    exact .of_live
      (handle_idle (c := { c with actions := actions }) hans ((idle_iff hans).mp hidle) cmd).1
  | drained sent found hans hidle hrecv =>
    refine hl.drained ?_ hrecv
    rcases (idle_iff hans).mp hidle with hpc | hpc <;> rw [hpc] <;> simp
  | replayed sent found w hans hbusy hw =>
    refine .of_live fun hend => ?_
    obtain ⟨hfailed, e, events, seq, hpc⟩ := actionStep_ended hw hend
    have hsent := hdelivers (by rw [hpc]; rfl)
    rw [hfailed] at hsent
    cases hsent
  | finished hend hreturned =>
    intro hpc
    obtain ⟨hrecv, -, htaken⟩ := h hpc
    exact ⟨hrecv, rfl, htaken⟩

theorem Begun.idle {started : Bool} {replays : List Replay} {pc : ActionPc}
    (h : Begun started replays pc) (hidle : Idle pc) : started = true ↔ replays ≠ [] := by
  rcases hidle with rfl | rfl
  · exact h
  · exact iff_of_true h.1 h.2

theorem actionStep_begun {sent : Bool} {w : Socket} (h : Begins c)
    (hdelivers : replaying c.socket.actionPc = true → sent = true)
    (hs : c.socket.actionStep sent = some w) (hbusy : ¬ Idle c.socket.actionPc) :
    Begun w.replayStarted (c.replays ++ c.reads) w.actionPc := by
  have hkeep : c.replays ≠ [] → c.replays ++ c.reads ≠ [] := fun hne =>
    List.append_ne_nil_of_left_ne_nil hne c.reads
  unfold Begins at h
  cases hpc : c.socket.actionPc <;>
    simp only [Socket.actionStep, hpc, Option.some.injEq] at hs <;>
    simp only [hpc, Begun] at h
  case recv => exact absurd (.inl hpc) hbusy
  case loadMin =>
    subst hs
    simpa only [Begun, Connection.reads, hpc, List.append_nil] using h
  case read min =>
    subst hs
    simp only [Begun, Connection.reads, hpc]
    exact List.append_ne_nil_of_right_ne_nil _ (List.cons_ne_nil _ _)
  case lock replay =>
    split at hs <;> cases hs
    cases replay <;> exact hkeep h
  case send events seq =>
    cases events with
    | nil =>
      cases hs
      exact hkeep h
    | cons e events =>
      rw [hdelivers (by rw [hpc]; rfl)] at hs
      cases hs
      exact hkeep h
  case storeStarted =>
    subst hs
    exact ⟨rfl, hkeep h⟩
  case notify | unlock =>
    subst hs
    exact ⟨h.1, hkeep h.2⟩
  case done | ended => cases hs
  all_goals
    subst hs
    exact hkeep h

theorem Begins.handle (h : Begins c) (hidle : Idle c.socket.actionPc) (cmd : ClientMessage) :
    Begins (c.handle cmd) := by
  cases cmd with
  | subscribe fromSeq => exact Begun.idle h hidle
  | prompt sessionId text | cancel sessionId => exact h
  | permissionResponse sessionId id granted => exact h

theorem step_begins (h : Begins c) (hdelivers : Delivers c a) (hs : c.step parse a = some c') :
    Begins c' := by
  cases step_moved hs with
  | log a w hw =>
    obtain ⟨-, hist, -, rfl⟩ := Handover.step_log hw
    exact h
  | sent sent w hw =>
    obtain ⟨hpc, -, hstarted⟩ := sendStep_still hw
    unfold Begins
    rw [hpc, hstarted]
    exact h
  | skipped f hf => exact h
  | received f cmd hpc hf => exact h
  | gone f hpc hf => exact h
  | queued cmd actions hpc hsend => exact h
  | refused cmd hpc hsend => exact h
  | answered sent found answering hans => cases answering <;> exact h
  | took sent found cmd actions hans hidle hrecv =>
    exact Begins.handle (c := { c with actions := actions }) h ((idle_iff hans).mp hidle) cmd
  | drained sent found hans hidle hrecv => exact Begun.idle h ((idle_iff hans).mp hidle)
  | replayed sent found w hans hbusy hw =>
    refine actionStep_begun h hdelivers hw ?_
    rw [← idle_iff hans, hbusy]
    exact Bool.false_ne_true
  | finished hend hreturned => exact h

structure Whole (c : Connection) : Prop where
  lane : Lane c
  awake : Awake c
  drained : Drained c
  begins : Begins c

theorem connect_whole (h : History) : Whole (connect h) where
  lane := connect_lane h
  awake := ⟨connect_guarded h, connect_waking h⟩
  drained := .of_live (by simp [connect, WebSocket.connect])
  begins := ⟨fun hstarted => (by cases hstarted), fun hne => absurd rfl hne⟩

theorem step_whole (h : Whole c) (hdelivers : Delivers c a) (hs : c.step parse a = some c') :
    Whole c' :=
  ⟨step_lane h.lane hs, step_awake h.awake hs, step_drained h.lane h.drained hdelivers hs,
    step_begins h.begins hdelivers hs⟩

theorem Guarded.unlocked {w : Socket} (h : Guarded w) (hsend : w.sendStep true = none)
    (hhold : ¬ Holding w.actionPc) : w.sender = none := by
  cases hsender : w.sender with
  | none => rfl
  | some task =>
    cases task with
    | sendTask =>
      obtain ⟨e, he⟩ := h.sendTask.mp hsender
      rw [Socket.sendStep, he] at hsend
      cases hsend
    | actionTask => exact absurd (h.actionTask.mp hsender) hhold

theorem AtRest.ended (h : Whole c) (hrest : AtRest c) (hgone : c.recvPc = .ended) :
    c.socket.actionPc = .ended ∧ c.answering = none := by
  have hreturned : c.returned = true := by
    have hfinish := hrest.finish
    have hend : c.anyEnded = true := by simp [Connection.anyEnded, hgone]
    by_contra hopen
    simp [Connection.finish, hend, eq_false_of_ne_true hopen] at hfinish
  have haction := hrest.action
  unfold Connection.actionStep at haction
  cases hans : c.answering with
  | some answering =>
    rw [hans] at haction
    cases haction
  | none =>
    rw [hans] at haction
    refine ⟨?_, rfl⟩
    cases hidle : c.idle with
    | true =>
      simp only [hidle, if_true] at haction
      cases hrecv : c.actions.recv with
      | value cmd actions =>
        rw [hrecv] at haction
        cases haction
      | disconnected =>
        rw [hrecv] at haction
        cases haction
      | empty =>
        have hcount := h.lane.senders
        rw [if_pos hgone, if_pos hreturned] at hcount
        exact absurd hcount (Queue.recv_empty hrecv).2
    | false =>
      have hbusy : ¬ Idle c.socket.actionPc := by
        rw [← idle_iff hans, hidle]
        exact Bool.false_ne_true
      simp only [hidle, Bool.false_eq_true, if_false, Connection.replayStep,
        Option.map_eq_none_iff] at haction
      cases hpc : c.socket.actionPc <;>
        simp only [Socket.actionStep, hpc, reduceCtorEq] at haction
      case lock replay =>
        rw [h.awake.guarded.unlocked hrest.send (by rw [hpc]; exact id)] at haction
        cases haction
      case send events seq => cases events <;> cases haction
      case done => exact absurd (.inr hpc) hbusy
      case ended => rfl

theorem AtRest.send_cases (h : Awake c) (hrest : AtRest c) (hend : c.socket.actionPc = .ended) :
    c.socket.replayStarted = true ↔ ¬ Waiting c.socket.sendPc := by
  refine ⟨fun hstarted => ?_, h.waking.started⟩
  have hsend := hrest.send
  cases hpc : c.socket.sendPc <;> simp only [Socket.sendStep, hpc, reduceCtorEq] at hsend
  case await seen =>
    have hseen := h.waking.awaiting seen hpc
    have hnotifies : c.socket.notifies ≠ 0 := by
      intro hzero
      have hpending := h.waking.pending hstarted hzero
      rw [hend] at hpending
      cases hpending
    rw [if_pos (by omega)] at hsend
    cases hsend
  all_goals exact id

variable {h : History} {acts : List Action}

theorem run_whole (hrun : run (Connection.step parse) (connect h) acts = some c)
    (hdelivers : Along (Connection.step parse) Delivers (connect h) acts) : Whole c :=
  invariant (fun _ _ _ hw hd hs => step_whole hw hd hs) (connect_whole h) hdelivers hrun

theorem run_awake (hrun : run (Connection.step parse) (connect h) acts = some c) : Awake c :=
  preserved (fun _ _ _ ha hs => step_awake ha hs) (connect_whole h).awake hrun

/-- Once the client has gone and no task has a step left, every command it sent has
been done: the log was read for each `Subscribe` and each answer passed on, in
order. The action task has ended and `handle_socket` has returned; the send task
still waits for its first notification exactly when there was no `Subscribe`. -/
theorem all_performed (hrun : run (Connection.step parse) (connect h) acts = some c)
    (hdelivers : Along (Connection.step parse) Delivers (connect h) acts)
    (hgone : c.recvPc = .ended) (hrest : AtRest c) :
    c.socket.actionPc = .ended ∧ c.returned = true ∧ c.actions.taken = commands parse acts ∧
      c.replays.map Replay.fromSeq = subscribesOf (commands parse acts) ∧
      (Along (Connection.step parse) (fun _ a => Finds a) (connect h) acts →
        c.answers = answersOf (commands parse acts)) ∧
      (Waiting c.socket.sendPc ↔ subscribesOf (commands parse acts) = []) := by
  have hwhole := run_whole hrun hdelivers
  obtain ⟨hend, hans⟩ := hrest.ended hwhole hgone
  obtain ⟨-, hreturned, htaken⟩ := hwhole.drained hend
  rw [received_eq hrun] at htaken
  obtain ⟨-, -, -, hreplays, -, hanswers⟩ := commands_in_order hrun
  have hreplays' : c.replays.map Replay.fromSeq = subscribesOf (commands parse acts) := by
    rw [unread, hend, List.append_nil, htaken] at hreplays
    exact hreplays
  refine ⟨hend, hreturned, htaken, hreplays', fun hfinds => ?_, ?_⟩
  · have hall := hanswers hfinds
    rw [hans, htaken] at hall
    simpa only [unanswered, List.append_nil] using hall
  · have hbegins := hwhole.begins
    unfold Begins at hbegins
    rw [hend] at hbegins
    have hstarted : c.replays ≠ [] ↔ ¬ Waiting c.socket.sendPc :=
      Iff.trans hbegins.symm (hrest.send_cases hwhole.awake hend)
    rw [← hreplays', List.map_eq_nil_iff]
    exact (not_iff_not.mp hstarted).symm

structure Parked (messages : List Message) (c : Connection) : Prop where
  awake : Awake c
  ended : c.socket.actionPc = .ended
  unstarted : c.socket.replayStarted = false
  silent : c.socket.messages = messages

theorem step_parked {messages : List Message} (hp : Parked messages c) (hl : Lane c)
    (hs : c.step parse a = some c') : Parked messages c' := by
  have hawake := step_awake hp.awake hs
  have hbusy : ¬ Idle c.socket.actionPc := by
    rw [hp.ended]
    rintro (hpc | hpc) <;> cases hpc
  cases step_moved hs with
  | log a w hw =>
    obtain ⟨-, hist, -, rfl⟩ := Handover.step_log hw
    exact ⟨hawake, hp.ended, hp.unstarted, hp.silent⟩
  | sent sent w hw =>
    obtain ⟨hpc, -, hstarted⟩ := sendStep_still hw
    refine ⟨hawake, hpc.trans hp.ended, hstarted.trans hp.unstarted, ?_⟩
    have hwaits := (hp.awake.waking.unstarted hp.unstarted).2
    cases hsend : c.socket.sendPc <;> rw [hsend] at hwaits <;>
      simp only [Socket.sendStep, hsend, Option.some.injEq] at hw
    case await seen =>
      split at hw <;> cases hw
      exact hp.silent
    case notified | check =>
      subst hw
      exact hp.silent
    all_goals exact hwaits.elim
  | skipped f hf => exact hp
  | received f cmd hpc hf => exact ⟨hawake, hp.ended, hp.unstarted, hp.silent⟩
  | gone f hpc hf => exact ⟨hawake, hp.ended, hp.unstarted, hp.silent⟩
  | queued cmd actions hpc hsend => exact ⟨hawake, hp.ended, hp.unstarted, hp.silent⟩
  | refused cmd hpc hsend => exact ⟨hawake, hp.ended, hp.unstarted, hp.silent⟩
  | answered sent found answering hans =>
    exact absurd (hl.alone (by rw [hans]; exact Option.some_ne_none _)) hbusy
  | took sent found cmd actions hans hidle hrecv => exact absurd ((idle_iff hans).mp hidle) hbusy
  | drained sent found hans hidle hrecv => exact absurd ((idle_iff hans).mp hidle) hbusy
  | replayed sent found w hans hbusy hw =>
    rw [Socket.actionStep, hp.ended] at hw
    cases hw
  | finished hend hreturned => exact ⟨hawake, hp.ended, hp.unstarted, hp.silent⟩

/-- A send task that the action task has left without a notification waits for
ever: it neither ends nor sends anything, whatever is appended to the log. -/
theorem parked (hrun : run (Connection.step parse) (connect h) acts = some c)
    (hend : c.socket.actionPc = .ended) (hunstarted : c.socket.replayStarted = false)
    {later : List Action} {d : Connection} (hlater : run (Connection.step parse) c later = some d) :
    Waiting d.socket.sendPc ∧ d.socket.messages = c.socket.messages := by
  have hparked : Parked c.socket.messages d ∧ Lane d :=
    preserved (I := fun d => Parked c.socket.messages d ∧ Lane d)
      (fun _ _ _ hp hs => ⟨step_parked hp.1 hp.2 hs, step_lane hp.2 hs⟩)
      ⟨⟨run_awake hrun, hend, hunstarted, rfl⟩, run_lane hrun⟩ hlater
  exact ⟨(hparked.1.awake.waking.unstarted hparked.1.unstarted).2, hparked.1.silent⟩

/-- Two commands are in the queue when the client leaves: both are done behind the
end of `handle_socket`. -/
def leaves : List Action :=
  [.sendTask true, .sendTask true, .frame (.text ['s']), .recvTask, .frame (.text ['p']),
    .recvTask, .frame .finished, .finish] ++ List.replicate 13 (.actionTask true true) ++
    [.sendTask true, .sendTask true, .sendTask true]

theorem all_performed_leaves :
    ∃ c, run (Connection.step wire) (connect (.new 100)) leaves = some c ∧
      c.replays.map Replay.fromSeq = [1] ∧ ¬ Waiting c.socket.sendPc ∧
      c.answers = [⟨"s", "q", true⟩] := by
  obtain ⟨c, hrun, hgone, hrest⟩ := exists_run (s := connect (.new 100))
    (fun c : Connection => c.recvPc = .ended ∧ AtRest c)
    (by decide +kernel : (run (Connection.step wire) (connect (.new 100)) leaves).any _ = true)
  have hcommands : commands wire leaves = [.subscribe 1, .permissionResponse "s" "q" true] := by
    decide +kernel
  obtain ⟨-, -, -, hreplays, hanswers, hwaits⟩ :=
    all_performed hrun (by decide +kernel) hgone hrest
  rw [hcommands] at hreplays hanswers hwaits
  exact ⟨c, hrun, hreplays, fun hw => List.cons_ne_nil _ _ (hwaits.mp hw), hanswers (by decide +kernel)⟩

def leavesAtOnce : List Action :=
  [.sendTask true, .sendTask true, .frame .close, .finish, .actionTask true true]

def eventLater : List Action :=
  [.log (.draw "s" "codex" (.messageChunk "a")), .log (.push 0), .log (.send 0)]

theorem parked_leavesAtOnce :
    ∃ c d, run (Connection.step wire) (connect (.new 100)) leavesAtOnce = some c ∧
      run (Connection.step wire) c eventLater = some d ∧ d.socket.sendStep true = none ∧
      Waiting d.socket.sendPc ∧ d.socket.messages = c.socket.messages := by
  obtain ⟨c, hrun, hend, hunstarted, hany⟩ := exists_run (s := connect (.new 100))
    (fun c : Connection => c.socket.actionPc = .ended ∧ c.socket.replayStarted = false ∧
      (run (Connection.step wire) c eventLater).any
        (fun d : Connection => decide (d.socket.sendStep true = none)) = true)
    (by decide +kernel :
      (run (Connection.step wire) (connect (.new 100)) leavesAtOnce).any _ = true)
  obtain ⟨d, hlater, hstill⟩ := exists_run (fun d : Connection => d.socket.sendStep true = none) hany
  exact ⟨c, d, hrun, hlater, hstill, parked hrun hend hunstarted hlater⟩

end Tasks

end Ccgonext.HandleSocket
