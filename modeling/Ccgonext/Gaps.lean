import Ccgonext.Handover
import Ccgonext.ReplayFrom

/-!
# Events that are not sent

What a client has asked for may be gone before it is sent: evicted from the log
before the replay, or dropped from the channel while the client is slow. The first
is told by a gap message if `replay_from` can see it, the second is only logged.
The pushes and broadcasts that lose nothing the client is not told of are those
that `Spares` allows. Here the receiver may lag as far as it likes.
-/

namespace Ccgonext.Gaps
open Lib Lib.Runs Lib.Broadcast Events EventOrder WebSocket Handover

def Steady (w : Socket) : WebSocket.Action → Prop
  | .log a => w.hist.OneAtATime a
  | .sendTask sent | .actionTask sent => sent = true

/-- The client wants it and it was pushed after the first `c` events. -/
def Wanted (c : ℕ) (w : Socket) (e : SessionEvent) : Prop :=
  e ∈ w.hist.pushed.drop c ∧ w.fromSeq ≤ e.seq

def evicted (w : Socket) : WebSocket.Action → List SessionEvent
  | .log (.push _) => w.hist.log.evicted
  | _ => []

def dropped (w : Socket) : WebSocket.Action → List SessionEvent
  | .log (.send k) =>
    match w.hist.receiver w.rx, w.hist.sys.appends[k]? with
    | some r, some a => r.dropped w.hist.sys.channel.capacity a.event
    | _, _ => []
  | _ => []

def mayEvict (fromSeq : ℕ) : ActionPc → Bool
  | .loadMin => 0 < fromSeq
  | .read _ => false
  | _ => true

/-- The log evicts nothing wanted behind the back of a replay, and the channel drops
nothing wanted that the replay does not have. -/
def Spares (c : ℕ) (w : Socket) (a : WebSocket.Action) : Prop :=
  (∀ e ∈ evicted w a, Wanted c w e → mayEvict w.fromSeq w.actionPc = true) ∧
    ∀ e ∈ dropped w a, Wanted c w e → HasRead w.actionPc → e ∉ w.hist.pushed.drop w.mark

def Held (e : SessionEvent) : SendPc → Prop
  | .load d | .store d | .lock d | .send d => d = e
  | _ => False

def MovedPast (w : Socket) (e : SessionEvent) : Prop :=
  ¬ Waiting w.sendPc ∧ ⟨e, .done⟩ ∈ w.hist.sys.appends ∧
    (∀ r ∈ w.hist.receiver w.rx, e ∉ r.queue) ∧ ¬ Held e w.sendPc

def Covered (w : Socket) (e : SessionEvent) : Prop :=
  ∃ oldest requested, .replayGap oldest requested ∈ w.messages ∧ requested ≤ e.seq ∧
    e.seq < oldest

def NoneLost (c : ℕ) (w : Socket) : Prop :=
  ∀ e, Wanted c w e → MovedPast w e → e ∈ w.sent ∨ Covered w e

instance (pc : ActionPc) : Decidable (HasRead pc) := by
  cases pc <;> dsimp only [HasRead] <;> infer_instance

instance (c : ℕ) (w : Socket) (e : SessionEvent) : Decidable (Wanted c w e) :=
  inferInstanceAs (Decidable (_ ∧ _))

instance (w : Socket) (a : WebSocket.Action) : Decidable (Steady w a) := by
  rcases a <;> dsimp only [Steady] <;> infer_instance

instance (c : ℕ) (w : Socket) (a : WebSocket.Action) : Decidable (Spares c w a) :=
  inferInstanceAs (Decidable (_ ∧ _))

structure Sound (w : Socket) : Prop where
  serial : w.hist.Serial
  room : 0 < w.hist.log.maxEntries
  receiver : ∃ r, w.hist.receiver w.rx = some r ∧ Increasing r.stream ∧
    (∀ e ∈ r.stream, ⟨e, .done⟩ ∈ w.hist.sys.appends) ∧ Phase w r.taken

theorem connect_sound {h : History} (hser : h.Serial) (hroom : 0 < h.log.maxEntries)
    (fromSeq : ℕ) : Sound (connect h fromSeq) := by
  refine ⟨hser.step (a := .subscribe) trivial (connect_step h fromSeq), hroom, Receiver.new,
    connect_receiver h fromSeq, ?_, ?_, ?_⟩
  · exact List.Pairwise.nil
  · exact fun e he => absurd he List.not_mem_nil
  · exact ⟨trivial, rfl, rfl⟩

theorem log_sound {w w' : Socket} {a : LogAction} (h : Sound w) (hone : w.hist.OneAtATime a)
    (hs : w.step (.log a) = some w') : Sound w' := by
  obtain ⟨hrx, hist, hstep, rfl⟩ := step_log hs
  obtain ⟨r, hr, hrising, hsent, hphase⟩ := h.receiver
  refine ⟨h.serial.step hone hstep, ?_, ?_⟩
  · simp only [History.step_maxEntries hstep]
    exact h.room
  · have hstays : ∀ e, ⟨e, .done⟩ ∈ w.hist.sys.appends → ⟨e, .done⟩ ∈ hist.sys.appends :=
      fun e he => (History.done_step hstep e).mpr (.inl he)
    rcases History.receiver_step hr hrx hstep with ⟨-, hr'⟩ | ⟨k, e, rfl, hk, hr'⟩
    · exact ⟨r, hr', hrising, fun e he => hstays e (hsent e he), hphase⟩
    · refine ⟨_, hr', ?_, ?_, hphase⟩
      · refine Receiver.offer_pairwise hrising fun d hd => ?_
        exact h.serial.seq_lt (List.mem_of_getElem? hk) (hsent d hd) (by simp) (by simp)
      · intro d hd
        rcases Receiver.mem_stream_offer hd with hd | rfl
        · exact hstays d (hsent d hd)
        · exact (History.done_step hstep d).mpr (.inr ⟨k, rfl, hk⟩)

theorem sendStep_sound {w w' : Socket} (h : Sound w) (hs : w.sendStep true = some w') :
    Sound w' := by
  obtain ⟨r, hr, hrising, hsent, hphase⟩ := h.receiver
  by_cases hpc : w.sendPc = .recv
  · simp only [Socket.sendStep, hpc] at hs
    obtain ⟨hist, hstep, hr', hcases⟩ := recvStep_cases hr hs
    have hserial := h.serial.step (a := .recv w.rx) trivial hstep
    have hroom : 0 < hist.log.maxEntries := by
      rw [History.step_maxEntries hstep]
      exact h.room
    have hrising' : Increasing r.recv.2.stream := by
      rw [Receiver.stream_recv]
      exact hrising
    have hsent' : ∀ e ∈ r.recv.2.stream, ⟨e, .done⟩ ∈ hist.sys.appends := by
      intro e he
      rw [Receiver.stream_recv] at he
      exact (History.done_step hstep e).mpr (.inl (hsent e he))
    obtain ⟨hstart, hreplayed, hforward⟩ := hphase.live (by rw [hpc]; exact id)
    rcases hcases with ⟨rfl, htaken⟩ | ⟨e, rfl, htaken⟩
    · refine ⟨hserial, hroom, _, hr', hrising', hsent', ?_⟩
      rw [htaken]
      exact hphase
    · refine ⟨hserial, hroom, _, hr', hrising', hsent', ?_⟩
      rw [htaken]
      rw [hpc] at hforward
      refine (phase_true ?_).mpr ⟨hreplayed, r.taken, rfl, hforward⟩
      exact hstart
  · have hphase' := sendStep_phase (Receiver.taken_pairwise hrising) hphase hpc hs
    obtain ⟨messages, sender, sendPc, replaySeq, rfl⟩ := sendStep_frame hpc hs
    exact ⟨h.serial, h.room, r, hr, hrising, hsent, hphase'⟩

theorem actionStep_sound {w w' : Socket} (h : Sound w) (hs : w.actionStep true = some w') :
    Sound w' := by
  obtain ⟨r, hr, hrising, hsent, hphase⟩ := h.receiver
  obtain ⟨hhist, hrx, -, -⟩ := actionStep_frame hs
  refine ⟨hhist ▸ h.serial, hhist ▸ h.room, r, ?_, hrising, hhist ▸ hsent,
    actionStep_phase hphase hs⟩
  rw [hhist, hrx]
  exact hr

theorem step_sound (w : Socket) (a : WebSocket.Action) (w' : Socket) (h : Sound w)
    (hC : Steady w a) (hs : w.step a = some w') : Sound w' := by
  cases a with
  | log a => exact log_sound h hC hs
  | sendTask sent =>
    cases hC
    exact sendStep_sound h hs
  | actionTask sent =>
    cases hC
    exact actionStep_sound h hs

def gapToCome : ActionPc → Option ℕ
  | .lock (.partly _ oldest) | .gap oldest _ => some oldest
  | _ => none

def GapDue (w : Socket) (e : SessionEvent) : Prop :=
  Covered w e ∨ ∃ oldest ∈ gapToCome w.actionPc, e.seq < oldest

structure Accounts (c : ℕ) (w : Socket) : Prop where
  since : c ≤ w.hist.pushed.length
  subscribed : w.actionPc ≠ .recv
  loading : w.actionPc = .loadMin → ∀ e, Wanted c w e → e ∈ w.hist.log.events ∨ 0 < w.fromSeq
  reading : ∀ min, w.actionPc = .read min → ∀ e, Wanted c w e →
    e ∈ w.hist.log.events ∨ 0 < w.fromSeq ∧ e.seq < min
  snapshot : HasRead w.actionPc →
    Snapshot c w.fromSeq w.hist.pushed w.mark w.retained w.replay
  replayed : HasRead w.actionPc → ∀ e, Wanted c w e → e ∈ w.hist.pushed.take w.mark →
    e ∈ w.replay ∨ GapDue w e
  later : HasRead w.actionPc → ∀ r ∈ w.hist.receiver w.rx, ∀ e, Wanted c w e →
    e ∈ w.hist.pushed.drop w.mark → ⟨e, .done⟩ ∈ w.hist.sys.appends → e ∈ r.stream

theorem Accounts.unread {c : ℕ} {w : Socket} (hno : ¬ HasRead w.actionPc)
    (hsince : c ≤ w.hist.pushed.length) (hsubscribed : w.actionPc ≠ .recv)
    (hloading : w.actionPc = .loadMin → ∀ e, Wanted c w e →
      e ∈ w.hist.log.events ∨ 0 < w.fromSeq)
    (hreading : ∀ min, w.actionPc = .read min → ∀ e, Wanted c w e →
      e ∈ w.hist.log.events ∨ 0 < w.fromSeq ∧ e.seq < min) : Accounts c w where
  since := hsince
  subscribed := hsubscribed
  loading := hloading
  reading := hreading
  snapshot h := absurd h hno
  replayed h := absurd h hno
  later h := absurd h hno

theorem Covered.mono {w w' : Socket} {e : SessionEvent} (h : Covered w e)
    (hmessages : w.messages <+: w'.messages) : Covered w' e := by
  obtain ⟨oldest, requested, hmem, hcover⟩ := h
  exact ⟨oldest, requested, hmessages.subset hmem, hcover⟩

theorem Accounts.frame {c : ℕ} {w w' : Socket} (h : Accounts c w) (hhist : w'.hist = w.hist)
    (hrx : w'.rx = w.rx) (hfrom : w'.fromSeq = w.fromSeq) (hpc : w'.actionPc = w.actionPc)
    (hmark : w'.mark = w.mark) (hretained : w'.retained = w.retained)
    (hreplay : w'.replay = w.replay) (hmessages : w.messages <+: w'.messages) :
    Accounts c w' := by
  have hwanted : ∀ e, Wanted c w' e → Wanted c w e := by
    intro e
    rw [Wanted, Wanted, hhist, hfrom]
    exact id
  refine ⟨?_, ?_, ?_, ?_, ?_, ?_, ?_⟩
  · rw [hhist]
    exact h.since
  · rw [hpc]
    exact h.subscribed
  · rw [hpc, hhist, hfrom]
    exact fun hload e he => h.loading hload e (hwanted e he)
  · rw [hpc, hhist, hfrom]
    exact fun min hread e he => h.reading min hread e (hwanted e he)
  · rw [hpc, hfrom, hhist, hmark, hretained, hreplay]
    exact h.snapshot
  · intro hread e he hmem
    rw [hpc] at hread
    rw [hhist, hmark] at hmem
    rw [hreplay, GapDue, hpc]
    exact (h.replayed hread e (hwanted e he) hmem).imp_right (.imp_left (Covered.mono · hmessages))
  · intro hread r hr e he hmem hdone
    rw [hpc] at hread
    rw [hhist, hrx] at hr
    rw [hhist, hmark] at hmem
    rw [hhist] at hdone
    exact h.later hread r hr e (hwanted e he) hmem hdone

theorem mem_events_step {h h' : History} {a : LogAction} (hk : h.Kept)
    (hmax : 0 < h.log.maxEntries) (hs : h.step a = some h') :
    (∀ e ∈ h.log.events, e ∈ h'.log.events ∨ (∃ k, a = .push k) ∧ e ∈ h.log.evicted) ∧
      ∀ e ∈ h'.pushed, e ∈ h.pushed ∨ e ∈ h'.log.events := by
  rcases History.step_log hs with ⟨k, rfl⟩ | ⟨hpushed, hevents, -⟩
  · obtain ⟨x, hfresh, hpushed, hsplit⟩ := History.push_log hk hmax hs
    constructor
    · intro e he
      have hmem : e ∈ h.log.evicted ++ h'.log.events := by
        rw [hsplit]
        exact List.mem_append_left _ he
      exact (List.mem_append.mp hmem).symm.imp_right fun hgone => ⟨⟨k, rfl⟩, hgone⟩
    · intro e he
      rw [hpushed, List.mem_append, List.mem_singleton] at he
      refine he.imp_right ?_
      rintro rfl
      have hmem : e ∈ h.log.evicted ++ h'.log.events := by
        rw [hsplit]
        exact List.mem_append_right _ (List.mem_singleton_self e)
      refine (List.mem_append.mp hmem).resolve_left fun hgone => hfresh ?_
      exact hk.events_subset (List.mem_of_mem_take hgone)
  · refine ⟨fun e he => .inl (by rw [hevents]; exact he), fun e he => .inl ?_⟩
    rw [← hpushed]
    exact he

theorem pushed_of_done {h h' : History} {a : LogAction} (hk : h.Kept) (hs : h.step a = some h')
    {e : SessionEvent} (he : e ∈ h'.pushed) (hdone : ⟨e, .done⟩ ∈ h'.sys.appends) :
    e ∈ h.pushed := by
  rcases History.step_log hs with ⟨k, rfl⟩ | ⟨hpushed, -, -⟩
  · obtain ⟨x, hx, hpushed, -⟩ := History.step_push hs
    rw [hpushed, List.mem_append, List.mem_singleton] at he
    refine he.resolve_right ?_
    rintro rfl
    have hold := ((History.done_step hs e).mp hdone).resolve_right (by simp)
    cases hk.unique hold (List.mem_of_getElem? hx) rfl
  · rw [← hpushed]
    exact he

theorem mem_drop_step {h h' : History} {a : LogAction} {n : ℕ} {e : SessionEvent} (hk : h.Kept)
    (hs : h.step a = some h') (hn : n ≤ h.pushed.length) (he : e ∈ h.pushed)
    (hmem : e ∈ h'.pushed.drop n) : e ∈ h.pushed.drop n := by
  obtain ⟨l, hl⟩ := History.step_pushed hs
  rw [← hl, List.drop_append_of_le_length hn, List.mem_append] at hmem
  refine hmem.resolve_right fun hlate => ?_
  have hnodup := (History.step_kept hk hs).nodup
  rw [← hl] at hnodup
  exact (List.nodup_append.mp hnodup).2.2 e he e hlate rfl

theorem mem_stream_step {w : Socket} {hist : History} {a : LogAction}
    {r r' : Receiver SessionEvent} {e : SessionEvent} (hr : w.hist.receiver w.rx = some r)
    (hrx : a ≠ .recv w.rx) (hs : w.hist.step a = some hist)
    (hr' : hist.receiver w.rx = some r') (hdone : ⟨e, .done⟩ ∈ hist.sys.appends)
    (hold : ⟨e, .done⟩ ∈ w.hist.sys.appends → e ∈ r.stream) (hkeep : e ∉ dropped w (.log a)) :
    e ∈ r'.stream := by
  have hdone' := (History.done_step hs e).mp hdone
  rcases History.receiver_step hr hrx hs with ⟨hnosend, hsame⟩ | ⟨k, x, rfl, hx, hoffer⟩
  · rw [hr'] at hsame
    cases hsame
    exact hold (hdone'.resolve_right fun ⟨k, hsend, _⟩ => hnosend k hsend)
  · rw [hr'] at hoffer
    cases hoffer
    have hin : e ∈ r.stream ∨ e = x := by
      refine hdone'.imp hold ?_
      rintro ⟨j, hj, hej⟩
      cases hj
      rw [hx] at hej
      cases hej
      rfl
    refine (Receiver.mem_offer hin).resolve_right fun hgone => hkeep ?_
    simp only [dropped, hr, hx]
    exact hgone

theorem log_accounts {c : ℕ} {w w' : Socket} {a : LogAction} (hsound : Sound w)
    (h : Accounts c w) (hC : Spares c w (.log a)) (hs : w.step (.log a) = some w') :
    Accounts c w' := by
  obtain ⟨hrx, hist, hstep, rfl⟩ := step_log hs
  have hk := hsound.serial.kept
  have hgrow := History.step_pushed hstep
  obtain ⟨hheld, hnew⟩ := mem_events_step hk hsound.room hstep
  obtain ⟨r, hr, -⟩ := hsound.receiver
  -- an event that is wanted now was wanted before, if it was pushed before
  have hwanted : ∀ e, Wanted c { w with hist := hist } e → e ∈ w.hist.pushed → Wanted c w e :=
    fun e he hpushed => ⟨mem_drop_step hk hstep h.since hpushed he.1, he.2⟩
  have hspared : ∀ e ∈ w.hist.log.events, Wanted c w e →
      e ∈ hist.log.events ∨ mayEvict w.fromSeq w.actionPc = true := by
    intro e he hwant
    rcases hheld e he with he | ⟨⟨k, rfl⟩, hgone⟩
    · exact .inl he
    · exact .inr (hC.1 e hgone hwant)
  refine ⟨h.since.trans hgrow.length_le, h.subscribed, ?_, ?_, ?_, ?_, ?_⟩
  · intro hload e he
    rcases hnew e (List.mem_of_mem_drop he.1) with hold | hin
    · have hwant := hwanted e he hold
      rcases h.loading hload e hwant with hin | hpos
      · refine (hspared e hin hwant).imp_right fun hmay => ?_
        simpa only [mayEvict, show w.actionPc = .loadMin from hload, decide_eq_true_eq] using hmay
      · exact .inr hpos
    · exact .inl hin
  · intro min hread e he
    rcases hnew e (List.mem_of_mem_drop he.1) with hold | hin
    · have hwant := hwanted e he hold
      rcases h.reading min hread e hwant with hin | htold
      · refine (hspared e hin hwant).imp_right fun hmay => ?_
        rw [show w.actionPc = .read min from hread] at hmay
        cases hmay
      · exact .inr htold
    · exact .inl hin
  · intro hread
    exact (h.snapshot hread).grow hgrow
  · intro hread e he hmem
    have hmem' : e ∈ w.hist.pushed.take w.mark := by
      obtain ⟨l, hl⟩ := hgrow
      simp only [← hl] at hmem
      rwa [List.take_append_of_le_length (h.snapshot hread).bound] at hmem
    exact h.replayed hread e (hwanted e he (List.mem_of_mem_take hmem')) hmem'
  · intro hread r' hr' e he hmem hdone
    have hpushed := pushed_of_done hk hstep (List.mem_of_mem_drop hmem) hdone
    have hwant := hwanted e he hpushed
    have hlate := mem_drop_step hk hstep (h.snapshot hread).bound hpushed hmem
    exact mem_stream_step hr hrx hstep hr' hdone (h.later hread r hr e hwant hlate)
      fun hgone => hC.2 e hgone hwant hread hlate

theorem sendStep_accounts {c : ℕ} {w w' : Socket} (hsound : Sound w) (h : Accounts c w)
    (hs : w.sendStep true = some w') : Accounts c w' := by
  by_cases hpc : w.sendPc = .recv
  · simp only [Socket.sendStep, hpc] at hs
    obtain ⟨r, hr, -⟩ := hsound.receiver
    obtain ⟨hist, hstep, hr', hcases⟩ := recvStep_cases hr hs
    have hsame : Accounts c { w with hist := hist } := by
      obtain ⟨-, hpushed, happends⟩ := History.receiver_recv hr hstep
      have hevents : hist.log.events = w.hist.log.events := by
        obtain ⟨ch, -, -, hsys⟩ := History.step_recv hstep
        simp only [History.log, hsys]
      have hwanted : ∀ e, Wanted c { w with hist := hist } e → Wanted c w e := by
        intro e he
        exact ⟨hpushed ▸ he.1, he.2⟩
      refine ⟨hpushed ▸ h.since, h.subscribed, ?_, ?_, ?_, ?_, ?_⟩
      · intro hload e he
        simp only [hevents]
        exact h.loading hload e (hwanted e he)
      · intro min hread e he
        simp only [hevents]
        exact h.reading min hread e (hwanted e he)
      · simp only [hpushed]
        exact h.snapshot
      · intro hread e he hmem
        exact h.replayed hread e (hwanted e he) (hpushed ▸ hmem)
      · intro hread q hq e he hmem hdone
        rw [show hist.receiver w.rx = some q from hq] at hr'
        cases hr'
        rw [Receiver.stream_recv]
        exact h.later hread r hr e (hwanted e he) (hpushed ▸ hmem) (happends ▸ hdone)
    rcases hcases with ⟨rfl, -⟩ | ⟨e, rfl, -⟩
    · exact hsame
    · exact hsame.frame rfl rfl rfl rfl rfl rfl rfl List.prefix_rfl
  · obtain ⟨messages, sender, sendPc, replaySeq, rfl⟩ := sendStep_frame hpc hs
    exact h.frame rfl rfl rfl rfl rfl rfl rfl (List.prefix_append _ _)

theorem Accounts.onward {c : ℕ} {w w' : Socket} (h : Accounts c w) (hread : HasRead w.actionPc)
    (hread' : HasRead w'.actionPc) (hhist : w'.hist = w.hist) (hrx : w'.rx = w.rx)
    (hfrom : w'.fromSeq = w.fromSeq) (hmark : w'.mark = w.mark)
    (hretained : w'.retained = w.retained) (hreplay : w'.replay = w.replay)
    (hgap : ∀ e, w.fromSeq ≤ e.seq → GapDue w e → GapDue w' e) : Accounts c w' := by
  have hwanted : ∀ e, Wanted c w' e → Wanted c w e := by
    intro e
    rw [Wanted, Wanted, hhist, hfrom]
    exact id
  refine ⟨hhist ▸ h.since, ?_, ?_, ?_, ?_, ?_, ?_⟩
  · intro hpc
    rw [hpc] at hread'
    cases hread'
  · intro hpc
    rw [hpc] at hread'
    cases hread'
  · intro min hpc
    rw [hpc] at hread'
    cases hread'
  · intro _
    rw [hfrom, hhist, hmark, hretained, hreplay]
    exact h.snapshot hread
  · intro _ e he hmem
    rw [hhist, hmark] at hmem
    rw [hreplay]
    have hwant := hwanted e he
    exact (h.replayed hread e hwant hmem).imp_right (hgap e hwant.2)
  · intro _ r hr e he hmem hdone
    rw [hhist, hrx] at hr
    rw [hhist, hmark] at hmem
    rw [hhist] at hdone
    exact h.later hread r hr e (hwanted e he) hmem hdone

theorem GapDue.covered {w : Socket} {e : SessionEvent} (h : GapDue w e)
    (hnone : gapToCome w.actionPc = none) : Covered w e := by
  refine h.resolve_right fun ⟨oldest, hmem, _⟩ => ?_
  rw [hnone] at hmem
  cases hmem

theorem replayFrom_accounts {log : EventLog} {min fromSeq : ℕ} {e : SessionEvent}
    (hfrom : fromSeq ≤ e.seq)
    (h : e ∈ log.events ∨ 0 < fromSeq ∧ e.seq < min) :
    e ∈ (log.replayFrom min fromSeq).events ∨
      ∃ oldest ∈ gapToCome (.lock (log.replayFrom min fromSeq)), e.seq < oldest := by
  rcases h with hin | ⟨hpos, hlt⟩
  · exact .inl (EventLog.mem_replayFrom hin hfrom)
  · have hpart : log.replayFrom min fromSeq = .partly log.events min := by
      rw [EventLog.replayFrom, if_pos (by omega)]
    rw [hpart]
    exact .inr ⟨min, rfl, hlt⟩

theorem actionStep_accounts {c : ℕ} {w w' : Socket} (hsound : Sound w) (h : Accounts c w)
    (hs : w.actionStep true = some w') : Accounts c w' := by
  have hsnap := actionStep_snapshot hsound.serial h.since h.snapshot hs
  cases hpc : w.actionPc <;> simp only [Socket.actionStep, hpc, Option.some.injEq] at hs
  case recv => exact absurd hpc h.subscribed
  case loadMin =>
    subst hs
    refine .unread id h.since (by simp) (by simp) ?_
    intro min hmin e he
    cases hmin
    rcases h.loading hpc e he with hin | hpos
    · exact .inl hin
    · by_cases hin : e ∈ w.hist.log.events
      · exact .inl hin
      · -- it was evicted, and what is loaded tells of it
        exact .inr ⟨hpos,
          hsound.serial.lt_minSeq hsound.room (List.mem_of_mem_drop he.1) hin⟩
  case read min =>
    subst hs
    refine ⟨h.since, by simp, by simp, by simp, hsnap, ?_, ?_⟩
    · intro _ e he _
      exact (replayFrom_accounts he.2 (h.reading min hpc e he)).imp_right .inr
    · intro _ r _ e _ hmem
      simp only [List.drop_length] at hmem
      cases hmem
  case lock replay =>
    split at hs <;> cases hs
    refine h.onward (by rw [hpc]; trivial) (by cases replay <;> trivial) rfl rfl rfl rfl rfl rfl ?_
    intro e _ hdue
    cases replay with
    | complete events => exact .inl (hdue.covered (by rw [hpc]; rfl))
    | partly events oldest =>
      rw [GapDue, hpc] at hdue
      exact hdue
  case gap oldest events =>
    subst hs
    refine h.onward (by rw [hpc]; trivial) trivial rfl rfl rfl rfl rfl rfl ?_
    intro e hfrom hdue
    rw [GapDue, hpc] at hdue
    rcases hdue with hcovered | ⟨_, hmem, hlt⟩
    · exact .inl (hcovered.mono (List.prefix_append _ _))
    · cases hmem
      refine .inl ⟨oldest, w.fromSeq, ?_, hfrom, hlt⟩
      exact List.mem_append_right _ (List.mem_singleton_self _)
  case send events maxReplayedSeq =>
    have hdue : ∀ e, GapDue w e → Covered w e := fun e he => he.covered (by rw [hpc]; rfl)
    cases events with
    | nil =>
      cases hs
      exact h.onward (by rw [hpc]; trivial) trivial rfl rfl rfl rfl rfl rfl
        fun e _ he => .inl (hdue e he)
    | cons event events =>
      cases hs
      exact h.onward (by rw [hpc]; trivial) trivial rfl rfl rfl rfl rfl rfl
        fun e _ he => .inl ((hdue e he).mono (List.prefix_append _ _))
  case storeSeq | storeStarted | notify | unlock =>
    subst hs
    exact h.onward (by rw [hpc]; trivial) trivial rfl rfl rfl rfl rfl rfl
      fun e _ he => .inl (he.covered (by rw [hpc]; rfl))
  case done | ended => cases hs

theorem step_accounts {c : ℕ} (w : Socket) (a : WebSocket.Action) (w' : Socket)
    (h : Sound w ∧ Accounts c w) (hC : Steady w a ∧ Spares c w a) (hs : w.step a = some w') :
    Sound w' ∧ Accounts c w' := by
  refine ⟨step_sound w a w' h.1 hC.1 hs, ?_⟩
  cases a with
  | log a => exact log_accounts h.1 h.2 hC.2 hs
  | sendTask sent =>
    cases hC.1
    exact sendStep_accounts h.1 h.2 hs
  | actionTask sent =>
    cases hC.1
    exact actionStep_accounts h.1 h.2 hs

theorem subscribe_accounts {w w' : Socket} (hpc : w.actionPc = .recv)
    (hs : w.step (.actionTask true) = some w') : Accounts w.hist.pushed.length w' := by
  simp only [Socket.step, Socket.actionStep, hpc, Option.some.injEq] at hs
  subst hs
  refine .unread id (Nat.le_refl _) (by simp) ?_ (by simp)
  intro _ e he
  have hmem := he.1
  simp only [List.drop_length] at hmem
  cases hmem

theorem mem_sent {c : ℕ} {w : Socket} {r : Receiver SessionEvent} {e : SessionEvent}
    (hser : w.hist.Serial) (h : Accounts c w) (hphase : Phase w r.taken)
    (hlive : ¬ Waiting w.sendPc) (hheld : ¬ Held e w.sendPc) :
    (e ∈ w.replay → e ∈ w.sent) ∧
      (e ∈ w.hist.pushed.drop w.mark → e ∈ r.taken → e ∈ w.sent) := by
  obtain ⟨-, hreplayed, hforward⟩ := hphase.live hlive
  have hsnap := h.snapshot hreplayed.hasRead
  have hforwarded : ∀ before, w.sent = forwarded w.replay before →
      (e ∈ w.replay → e ∈ w.sent) ∧
        (e ∈ w.hist.pushed.drop w.mark → e ∈ before → e ∈ w.sent) := by
    intro before hsent
    rw [hsent]
    refine ⟨fun hin => List.mem_append_left _ hin, fun hlate hin => ?_⟩
    refine List.mem_append_right _ (List.mem_filter.mpr ⟨hin, ?_⟩)
    exact decide_eq_true (hsnap.lastSeq_lt hser hlate)
  -- the event the send task has in its hands is another one
  have hhand : ∀ d, d ≠ e →
      (∃ before, r.taken = before ++ [d] ∧ w.sent = forwarded w.replay before) →
      (e ∈ w.replay → e ∈ w.sent) ∧
        (e ∈ w.hist.pushed.drop w.mark → e ∈ r.taken → e ∈ w.sent) := by
    rintro d hne ⟨before, htaken, hsent⟩
    obtain ⟨hreplay, hlater⟩ := hforwarded before hsent
    refine ⟨hreplay, fun hlate hin => hlater hlate ?_⟩
    rw [htaken, List.mem_append, List.mem_singleton] at hin
    exact hin.resolve_right fun heq => hne heq.symm
  cases hpc : w.sendPc <;> rw [hpc] at hforward hheld hlive
  case notified | check | await => exact absurd trivial hlive
  case recv => exact hforwarded r.taken hforward.1
  case load d =>
    obtain ⟨before, htaken, hsent, -⟩ := hforward
    exact hhand d hheld ⟨before, htaken, hsent⟩
  case store d =>
    obtain ⟨before, htaken, hsent, -⟩ := hforward
    exact hhand d hheld ⟨before, htaken, hsent⟩
  case lock d | send d =>
    obtain ⟨before, htaken, hsent, -⟩ := hforward
    exact hhand d hheld ⟨before, htaken, hsent⟩
  case ended => cases hforward

theorem Accounts.noneLost {c : ℕ} {w : Socket} (hsound : Sound w) (h : Accounts c w) :
    NoneLost c w := by
  rintro e he ⟨hlive, hdone, hqueue, hheld⟩
  obtain ⟨r, hr, -, -, hphase⟩ := hsound.receiver
  obtain ⟨-, hreplayed, -⟩ := hphase.live hlive
  have hread := hreplayed.hasRead
  obtain ⟨hreplay, hlater⟩ := mem_sent hsound.serial h hphase hlive hheld
  have hpushed := List.mem_of_mem_drop he.1
  rw [← List.take_append_drop w.mark w.hist.pushed, List.mem_append] at hpushed
  rcases hpushed with hearly | hlate
  · refine (h.replayed hread e he hearly).imp hreplay fun hdue => hdue.covered ?_
    cases hpc : w.actionPc <;> rw [hpc] at hreplayed <;> first
      | rfl
      | cases hreplayed
  · have hstream := h.later hread r hr e he hlate hdone
    exact .inl (hlater hlate ((List.mem_append.mp hstream).resolve_right (hqueue r hr)))

/-- A client that subscribes with `fromSeq` after `early` misses nothing without being
told as long as the log and the channel spare what it wants. -/
theorem none_lost {maxEntries fromSeq : ℕ} {before : List LogAction} {h : History}
    {early acts : List WebSocket.Action} {w₀ w : Socket} (hmax : 0 < maxEntries)
    (hbefore : run History.step (.new maxEntries) before = some h)
    (hone : Along History.step History.OneAtATime (.new maxEntries) before)
    (hearly : run Socket.step (connect h fromSeq) early = some w₀)
    (hsteady₀ : Along Socket.step Steady (connect h fromSeq) early)
    (hsubscribe : w₀.actionPc = .recv)
    (hrun : run Socket.step w₀ (.actionTask true :: acts) = some w)
    (hsteady : Along Socket.step Steady w₀ (.actionTask true :: acts))
    (hspares : Along Socket.step (Spares w₀.hist.pushed.length) w₀ (.actionTask true :: acts)) :
    NoneLost w₀.hist.pushed.length w := by
  have hroom : 0 < h.log.maxEntries := by
    have hsame : h.log.maxEntries = maxEntries :=
      invariant (I := fun h => h.log.maxEntries = maxEntries)
        (fun _ _ _ hu _ hs => (History.step_maxEntries hs).trans hu) rfl hone hbefore
    rw [hsame]
    exact hmax
  have hsound₀ : Sound w₀ :=
    invariant step_sound (connect_sound (run_serial hbefore hone) hroom fromSeq) hsteady₀ hearly
  obtain ⟨w₁, hs, hrun'⟩ := run_cons_inv hrun
  obtain ⟨hsteady₁, hsteady'⟩ := (along_cons hs).mp hsteady
  obtain ⟨-, hspares'⟩ := (along_cons hs).mp hspares
  have hsound₁ := step_sound w₀ _ w₁ hsound₀ hsteady₁ hs
  obtain ⟨hsound, haccounts⟩ := invariant step_accounts
    ⟨hsound₁, subscribe_accounts hsubscribe hs⟩ (hsteady'.and hspares') hrun'
  exact haccounts.noneLost hsound

/-- Two events are pushed between the `Subscribe` and the load of `min_seq`; the second
evicts the first, and the third comes while the client is served. -/
def evictedEarly : List WebSocket.Action :=
  [.log (.draw "s" "codex" (.messageChunk "a")), .log (.push 0), .log (.send 0),
    .log (.draw "s" "codex" (.messageChunk "b")), .log (.push 1), .log (.send 1),
    .actionTask true, .actionTask true, .actionTask true, .actionTask true, .actionTask true,
    .log (.draw "s" "codex" (.messageChunk "c")), .log (.push 2), .log (.send 2),
    .actionTask true, .actionTask true, .actionTask true, .actionTask true, .actionTask true]

theorem none_lost_evictedEarly :
    ∃ w, run Socket.step (connect (.new 1) 1) (.actionTask true :: evictedEarly) = some w ∧
      NoneLost 0 w := by
  have hbefore : run History.step (.new 1) [] = some (.new 1) := rfl
  have hearly : run Socket.step (connect (.new 1) 1) [] = some (connect (.new 1) 1) := rfl
  have hsteady : Along Socket.step Steady (connect (.new 1) 1)
      (.actionTask true :: evictedEarly) := by decide
  have hspares : Along Socket.step (Spares 0) (connect (.new 1) 1)
      (.actionTask true :: evictedEarly) := by decide
  exact ⟨_, rfl, none_lost (by decide) hbefore trivial hearly trivial rfl rfl hsteady hspares⟩

def event (n : ℕ) : SessionEvent := ⟨n + 1, "s", "codex", .messageChunk "x"⟩

def flood : ℕ → List WebSocket.Action
  | 0 => []
  | n + 1 => flood n ++
    [.log (.draw "s" "codex" (.messageChunk "x")), .log (.push n), .log (.send n)]

structure Flooded (n : ℕ) (w w' : Socket) : Prop where
  appends : w'.hist.sys.appends = (List.range n).map fun k => ⟨event k, .done⟩
  next : w'.hist.sys.log.nextSeq = n + 1
  pushed : w'.hist.pushed = (List.range n).map event
  channel : w'.hist.sys.channel = ⟨1024, [⟨((List.range n).map event).rtake 1024, n - 1024, []⟩]⟩
  rest : ∃ hist, w' = { w with hist := hist }

theorem append_run {h : History} {n : ℕ} (hn : h.sys.appends.length = n)
    (sid agent : String) (payload : EventPayload) :
    run History.step h [.draw sid agent payload, .push n, .send n] =
      some
        ⟨⟨h.sys.log.fetchAdd.push (h.sys.drawn sid agent payload),
          h.sys.appends ++ [⟨h.sys.drawn sid agent payload, .done⟩],
          h.sys.channel.send (h.sys.drawn sid agent payload)⟩,
        h.pushed ++ [h.sys.drawn sid agent payload]⟩ := by
  subst hn
  simp [run, History.step, LogSys.step, History.pushedBy]

theorem run_log {w : Socket} {acts : List LogAction} {hist : History}
    (hrx : ∀ a ∈ acts, a ≠ .recv w.rx) (hrun : run History.step w.hist acts = some hist) :
    run Socket.step w (acts.map .log) = some { w with hist := hist } ∧
      (Along History.step History.OneAtATime w.hist acts →
        Along Socket.step Steady w (acts.map .log)) := by
  induction acts generalizing w with
  | nil =>
    cases hrun
    exact ⟨rfl, fun _ => trivial⟩
  | cons a acts ih =>
    obtain ⟨h', hs, hrun'⟩ := run_cons_inv hrun
    have hstep : w.step (.log a) = some { w with hist := h' } := by
      simp only [Socket.step, if_neg (hrx a List.mem_cons_self), hs, Option.map_some]
    obtain ⟨hrest, hsteady⟩ := ih (w := { w with hist := h' })
      (fun b hb => hrx b (List.mem_cons_of_mem a hb)) hrun'
    rw [List.map_cons, run, hstep]
    refine ⟨hrest, fun hone => ?_⟩
    obtain ⟨hone', hrest'⟩ := (along_cons hs).mp hone
    exact (along_cons hstep).mpr ⟨hone', hsteady hrest'⟩

theorem flooded_offer (n : ℕ) :
    Receiver.offer 1024 ⟨((List.range n).map event).rtake 1024, n - 1024, []⟩ (event n) =
      ⟨((List.range (n + 1)).map event).rtake 1024, n + 1 - 1024, []⟩ := by
  have hlen : (((List.range n).map event).rtake 1024).length = min n 1024 := by
    simp only [List.rtake, List.length_drop, List.length_map, List.length_range]
    omega
  have hlagged : n - 1024 + (min n 1024 + 1 - 1024) = n + 1 - 1024 := by omega
  rw [Receiver.offer, BoundedQueue.push_rtake, hlen, hlagged, List.range_succ, List.map_append]
  rfl

theorem flood_run {w : Socket} (hw : Flooded 0 w w) (n : ℕ) :
    ∃ w', run Socket.step w (flood n) = some w' ∧ Along Socket.step Steady w (flood n) ∧
      Flooded n w w' := by
  induction n with
  | zero => exact ⟨w, rfl, trivial, hw⟩
  | succ n ih =>
    obtain ⟨v, hrun, hsteady, hv⟩ := ih
    have hlen : v.hist.sys.appends.length = n := by
      rw [hv.appends]
      simp
    have hdrawn : v.hist.sys.drawn "s" "codex" (.messageChunk "x") = event n := by
      rw [LogSys.drawn, hv.next]
      rfl
    have happend := append_run hlen "s" "codex" (.messageChunk "x")
    rw [hdrawn] at happend
    obtain ⟨hlog, hlogSteady⟩ := run_log (w := v) (by simp) happend
    refine ⟨_, (run_append hrun _).trans hlog, ?_, ?_⟩
    · refine (along_append hrun _).mpr ⟨hsteady, hlogSteady ?_⟩
      have hdone : ∀ a ∈ v.hist.sys.appends, a.stage = .done := by
        rw [hv.appends]
        simp
      have hdraw : v.hist.step (.draw "s" "codex" (.messageChunk "x")) = some _ := rfl
      refine (along_cons hdraw).mpr ⟨hdone, along_of_forall ?_⟩
      simp [History.OneAtATime]
    · constructor
      · simp [hv.appends, List.range_succ]
      · simp [EventLog.fetchAdd, hv.next]
      · simp [hv.pushed, List.range_succ]
      · simp only [hv.channel, Channel.send, List.map_cons, List.map_nil, flooded_offer]
      · obtain ⟨hist, hrest⟩ := hv.rest
        exact ⟨_, by rw [hrest]⟩

def subscribed : List WebSocket.Action :=
  List.replicate 9 (.actionTask true) ++ List.replicate 2 (.sendTask true)

def forwards : List WebSocket.Action := List.replicate 6 (.sendTask true)

def idle : Socket :=
  { connect (.new 10000) 1 with
    sendPc := .recv
    actionPc := .done
    replayStarted := true
    notifies := 1 }

theorem forwards_run {w : Socket} {q : List SessionEvent}
    (hchannel : w.hist.sys.channel = ⟨1024, [⟨event 1 :: q, 1, []⟩]⟩) (hrx : w.rx = 0)
    (hpc : w.sendPc = .recv) (hseq : w.replaySeq = 0) (hsender : w.sender = none) :
    ∃ hist, run Socket.step w forwards =
        some
          { w with
            hist := hist
            messages := w.messages ++ [.event (event 1)]
            replaySeq := 2 } ∧
      hist.sys.appends = w.hist.sys.appends ∧ hist.pushed = w.hist.pushed ∧
      hist.sys.channel = ⟨1024, [⟨q, 0, [event 1]⟩]⟩ := by
  obtain ⟨⟨⟨log, appends, channel⟩, pushed⟩, rx, fromSeq, sendPc, actionPc, sender, replaySeq,
    replayStarted, notifies, messages, retained, mark, replay⟩ := w
  dsimp only at hchannel hrx hpc hseq hsender
  subst hchannel hrx hpc hseq hsender
  refine ⟨⟨⟨log, appends, ⟨1024, [⟨q, 0, [event 1]⟩]⟩⟩, pushed⟩, ?_, rfl, rfl, rfl⟩
  simp [run, forwards, List.replicate, Socket.step, Socket.sendStep, Socket.recvStep,
    History.receiver, History.step, LogSys.step, History.pushedBy, Channel.recv, Receiver.recv,
    event]

theorem flooded_queue (n : ℕ) : ((List.range (n + 2)).map event).rtake (n + 1) =
    event 1 :: (List.range' 2 n).map event := by
  simp [List.rtake, List.range_eq_range', List.range'_succ]

theorem flood_lost {n : ℕ} (hn : n = 1025) :
    Along Socket.step Steady (connect (.new 10000) 1) (subscribed ++ (flood n ++ forwards)) ∧
      ∃ w, run Socket.step (connect (.new 10000) 1) (subscribed ++ (flood n ++ forwards)) =
          some w ∧ w.messages = [.event (event 1)] ∧ Wanted 0 w (event 0) ∧
        MovedPast w (event 0) ∧ ¬ NoneLost 0 w := by
  have hidle : run Socket.step (connect (.new 10000) 1) subscribed = some idle := rfl
  have hflooded : Flooded 0 idle idle := ⟨rfl, rfl, rfl, rfl, idle.hist, rfl⟩
  obtain ⟨v, hrun, hsteady, hv⟩ := flood_run hflooded n
  obtain ⟨hist, rfl⟩ := hv.rest
  have hqueue : ((List.range n).map event).rtake 1024 =
      event 1 :: (List.range' 2 1023).map event := by
    rw [hn]
    exact flooded_queue 1023
  have hlagged : n - 1024 = 1 := by omega
  have hchannel := hv.channel
  rw [hqueue, hlagged] at hchannel
  obtain ⟨hist', hrun', happends, hpushed, hchannel'⟩ :=
    forwards_run hchannel rfl rfl rfl rfl
  have hmem : 0 ∈ List.range n := List.mem_range.mpr (by omega)
  have hwanted : event 0 ∈ hist'.pushed := by
    rw [hpushed, hv.pushed]
    exact List.mem_map_of_mem hmem
  have hdone : ⟨event 0, .done⟩ ∈ hist'.sys.appends := by
    rw [happends, hv.appends]
    exact List.mem_map.mpr ⟨0, hmem, rfl⟩
  have hgone : ∀ r ∈ hist'.receiver 0, event 0 ∉ r.queue := by
    intro r hr
    simp only [History.receiver, hchannel', List.getElem?_cons_zero, Option.mem_def,
      Option.some.injEq] at hr
    subst hr
    simp [event]
  refine ⟨?_, _, (run_append hidle _).trans ((run_append hrun _).trans hrun'), rfl,
    ⟨hwanted, Nat.le_refl 1⟩, ⟨id, hdone, hgone, id⟩, ?_⟩
  · refine (along_append hidle _).mpr ⟨by decide, (along_append hrun _).mpr ⟨hsteady, ?_⟩⟩
    exact along_of_forall (by simp [forwards, Steady])
  · intro hnone
    rcases hnone (event 0) ⟨hwanted, Nat.le_refl 1⟩ ⟨id, hdone, hgone, id⟩ with hsent | hcovered
    · have hfirst : event 0 ∈ [event 1] := hsent
      simp [event] at hfirst
    · obtain ⟨oldest, requested, htold, -⟩ := hcovered
      have hgap : Message.replayGap oldest requested ∈ [.event (event 1)] := htold
      simp at hgap

/-- While the client is slow 1025 events are broadcast. The first is dropped from the
channel and never sent, and no gap is told. -/
theorem lagging_lost :
    Along Socket.step Steady (connect (.new 10000) 1) (subscribed ++ (flood 1025 ++ forwards)) ∧
      ∃ w, run Socket.step (connect (.new 10000) 1) (subscribed ++ (flood 1025 ++ forwards)) =
          some w ∧ w.messages = [.event (event 1)] ∧ Wanted 0 w (event 0) ∧
        MovedPast w (event 0) ∧ ¬ NoneLost 0 w :=
  flood_lost rfl

end Ccgonext.Gaps
