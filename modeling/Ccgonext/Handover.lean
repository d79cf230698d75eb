import Ccgonext.WebSocket
import Ccgonext.Lib.Runs

/-!
# From the replay to the live events

The replay ends at the largest number it has sent, and the send task forwards
what comes after that number. An event pushed before the log was read and
broadcast after it is in the replay and is skipped; one pushed later has a larger
number than all of the replay and reaches the receiver, which was there first.
-/

namespace Ccgonext.Handover
open Lib Lib.Runs Lib.Broadcast Events EventOrder WebSocket

theorem le_lastSeq {events : List SessionEvent} (h : Increasing events) :
    ∀ e ∈ events, e.seq ≤ lastSeq events := by
  induction events with
  | nil => exact nofun
  | cons d events ih =>
    obtain ⟨hd, htail⟩ := List.pairwise_cons.mp h
    intro e he
    cases events with
    | nil =>
      rw [List.mem_singleton.mp he]
      exact le_rfl
    | cons d' events =>
      have hlast : lastSeq (d :: d' :: events) = lastSeq (d' :: events) := by
        simp [lastSeq, List.getLast?_cons_cons]
      rw [hlast]
      rcases List.mem_cons.mp he with rfl | he
      · have hnext := hd d' List.mem_cons_self
        exact hnext.le.trans (ih htail d' List.mem_cons_self)
      · exact ih htail e he

theorem lastSeq_lt {events : List SessionEvent} {n : ℕ} (hpos : 0 < n)
    (h : ∀ e ∈ events, e.seq < n) : lastSeq events < n := by
  unfold lastSeq
  cases hlast : events.getLast? with
  | none => exact hpos
  | some e => exact h e (List.mem_of_getLast? hlast)

structure Snapshot (c fromSeq : ℕ) (pushed : List SessionEvent) (mark : ℕ)
    (retained replay : List SessionEvent) : Prop where
  since : c ≤ mark
  bound : mark ≤ pushed.length
  held : ∀ e ∈ retained, e ∈ pushed.take mark
  replayed : ∀ e ∈ replay, e ∈ retained
  rising : Increasing replay
  cover : ∀ e ∈ retained, fromSeq ≤ e.seq → e ∈ replay

def HasRead : ActionPc → Prop
  | .recv | .loadMin | .read _ => False
  | _ => True

def Replaying (sent replay : List SessionEvent) (replaySeq : ℕ) : ActionPc → Prop
  | .recv | .loadMin | .read _ => sent = []
  | .lock result => sent = [] ∧ result.events = replay
  | .gap _ events => sent = [] ∧ events = replay
  | .send events maxReplayedSeq => sent ++ events = replay ∧ maxReplayedSeq = lastSeq replay
  | .storeSeq maxReplayedSeq => sent = replay ∧ maxReplayedSeq = lastSeq replay
  | .storeStarted => sent = replay ∧ replaySeq = lastSeq replay
  | .notify | .unlock | .done | .ended => False

def Replayed : ActionPc → Prop
  | .notify | .unlock | .done => True
  | _ => False

theorem Replayed.hasRead {pc : ActionPc} (h : Replayed pc) : HasRead pc := by
  cases pc <;> trivial

def Waiting : SendPc → Prop
  | .notified | .check _ | .await _ => True
  | _ => False

def forwarded (replay taken : List SessionEvent) : List SessionEvent :=
  replay ++ taken.filter fun e => lastSeq replay < e.seq

def UpTo (replay taken : List SessionEvent) (replaySeq : ℕ) : Prop :=
  replaySeq = lastSeq replay ∨ ∃ d ∈ taken, d.seq = replaySeq ∧ lastSeq replay < d.seq

def Forwarding (sent replay : List SessionEvent) (replaySeq : ℕ) (taken : List SessionEvent) :
    SendPc → Prop
  | .notified | .check _ | .await _ =>
    taken = [] ∧ sent = replay ∧ replaySeq = lastSeq replay
  | .recv => sent = forwarded replay taken ∧ UpTo replay taken replaySeq
  | .load e => ∃ before, taken = before ++ [e] ∧ sent = forwarded replay before ∧
    UpTo replay before replaySeq
  | .store e => ∃ before, taken = before ++ [e] ∧ sent = forwarded replay before ∧
    lastSeq replay < e.seq
  | .lock e | .send e => ∃ before, taken = before ++ [e] ∧ sent = forwarded replay before ∧
    lastSeq replay < e.seq ∧ replaySeq = e.seq
  | .ended => False

def Phase (w : Socket) (taken : List SessionEvent) : Prop :=
  match w.replayStarted with
  | false => Waiting w.sendPc ∧ taken = [] ∧ Replaying w.sent w.replay w.replaySeq w.actionPc
  | true => Replayed w.actionPc ∧ Forwarding w.sent w.replay w.replaySeq taken w.sendPc

structure Inv (c : ℕ) (w : Socket) : Prop where
  serial : w.hist.Serial
  fed : ∃ r, w.hist.receiver w.rx = some r ∧ w.hist.Fed c r ∧ Phase w r.taken
  snapshot : HasRead w.actionPc →
    Snapshot c w.fromSeq w.hist.pushed w.mark w.retained w.replay

theorem connect_step (h : History) (fromSeq : ℕ) :
    h.step .subscribe = some (connect h fromSeq).hist := by
  simp [History.step, LogSys.step, History.pushedBy, connect]

theorem connect_receiver (h : History) (fromSeq : ℕ) :
    (connect h fromSeq).hist.receiver (connect h fromSeq).rx = some Receiver.new := by
  simp [History.receiver, connect, Channel.subscribe]

theorem connect_inv {h : History} (hser : h.Serial) (fromSeq : ℕ) :
    Inv h.pushed.length (connect h fromSeq) := by
  refine ⟨hser.step (a := .subscribe) trivial (connect_step h fromSeq), ?_, False.elim⟩
  refine ⟨Receiver.new, connect_receiver h fromSeq, ?_, ?_⟩
  · refine ⟨rfl, List.Pairwise.nil, fun e he => absurd he List.not_mem_nil, le_rfl, ?_⟩
    intro e he
    simp [connect] at he
  · exact ⟨trivial, rfl, rfl⟩

theorem Snapshot.grow {c fromSeq mark : ℕ} {pushed pushed' retained replay : List SessionEvent}
    (h : Snapshot c fromSeq pushed mark retained replay) (hg : pushed <+: pushed') :
    Snapshot c fromSeq pushed' mark retained replay := by
  obtain ⟨l, rfl⟩ := hg
  refine ⟨h.since, h.bound.trans (by simp), ?_, h.replayed, h.rising, h.cover⟩
  rw [List.take_append_of_le_length h.bound]
  exact h.held

theorem step_log {w w' : Socket} {a : LogAction} (hs : w.step (.log a) = some w') :
    a ≠ .recv w.rx ∧ ∃ hist, w.hist.step a = some hist ∧ w' = { w with hist := hist } := by
  simp only [Socket.step] at hs
  split at hs
  · cases hs
  · next hrx =>
    obtain ⟨hist, hstep, rfl⟩ := Option.map_eq_some_iff.mp hs
    exact ⟨hrx, hist, hstep, rfl⟩

theorem log_inv {c : ℕ} {w w' : Socket} {a : LogAction} (h : Inv c w)
    (hcalm : w.Calm (.log a)) (hs : w.step (.log a) = some w') : Inv c w' := by
  obtain ⟨hrx, hist, hstep, rfl⟩ := step_log hs
  obtain ⟨r, hr, hfed, hphase⟩ := h.fed
  obtain ⟨r', hr', hfed', htaken⟩ := hfed.step h.serial hr hrx hcalm.2 hstep
  refine ⟨h.serial.step hcalm.1 hstep, ⟨r', hr', hfed', ?_⟩, ?_⟩
  · rw [htaken]
    exact hphase
  · intro hread
    exact (h.snapshot hread).grow (History.step_pushed hstep)

theorem Inv.of_phase {c : ℕ} {w w' : Socket} (h : Inv c w) (hhist : w'.hist = w.hist)
    (hrx : w'.rx = w.rx)
    (hphase : ∀ r, w.hist.receiver w.rx = some r → w.hist.Fed c r → Phase w r.taken →
      Phase w' r.taken)
    (hsnapshot : HasRead w'.actionPc →
      Snapshot c w'.fromSeq w'.hist.pushed w'.mark w'.retained w'.replay) : Inv c w' := by
  obtain ⟨r, hr, hfed, hp⟩ := h.fed
  refine ⟨hhist ▸ h.serial, ⟨r, by rw [hhist, hrx]; exact hr, hhist ▸ hfed, ?_⟩, hsnapshot⟩
  exact hphase r hr hfed hp

theorem phase_false {w : Socket} {taken : List SessionEvent} (h : w.replayStarted = false) :
    Phase w taken ↔ Waiting w.sendPc ∧ taken = [] ∧
      Replaying w.sent w.replay w.replaySeq w.actionPc := by
  rw [Phase, h]

theorem phase_true {w : Socket} {taken : List SessionEvent} (h : w.replayStarted = true) :
    Phase w taken ↔ Replayed w.actionPc ∧
      Forwarding w.sent w.replay w.replaySeq taken w.sendPc := by
  rw [Phase, h]

theorem Phase.wait {w : Socket} {taken : List SessionEvent} (hp : Phase w taken)
    (hpc : Waiting w.sendPc) {pc : SendPc} (hpc' : Waiting pc) :
    Phase { w with sendPc := pc } taken := by
  cases hstart : w.replayStarted with
  | false =>
    obtain ⟨-, htaken, hreplaying⟩ := (phase_false hstart).mp hp
    exact (phase_false rfl).mpr ⟨hpc', htaken, hreplaying⟩
  | true =>
    obtain ⟨hreplayed, hforward⟩ := (phase_true hstart).mp hp
    refine (phase_true rfl).mpr ⟨hreplayed, ?_⟩
    cases hsend : w.sendPc <;> rw [hsend] at hpc hforward <;> try cases hpc
    all_goals
      cases pc <;> try cases hpc'
      all_goals exact hforward

theorem Phase.live {w : Socket} {taken : List SessionEvent} (hp : Phase w taken)
    (hpc : ¬ Waiting w.sendPc) : w.replayStarted = true ∧ Replayed w.actionPc ∧
      Forwarding w.sent w.replay w.replaySeq taken w.sendPc := by
  cases hstart : w.replayStarted with
  | false => exact absurd ((phase_false hstart).mp hp).1 hpc
  | true => exact ⟨rfl, (phase_true hstart).mp hp⟩

theorem UpTo.append {replay taken : List SessionEvent} {replaySeq : ℕ}
    (h : UpTo replay taken replaySeq) (e : SessionEvent) :
    UpTo replay (taken ++ [e]) replaySeq :=
  h.imp id fun ⟨d, hd, hseq⟩ => ⟨d, List.mem_append_left _ hd, hseq⟩

theorem forwarded_new {replay before : List SessionEvent} {e : SessionEvent}
    (h : lastSeq replay < e.seq) :
    forwarded replay (before ++ [e]) = forwarded replay before ++ [e] := by
  simp [forwarded, List.filter_append, h]

theorem forwarded_old {replay before : List SessionEvent} {e : SessionEvent}
    (h : e.seq ≤ lastSeq replay) :
    forwarded replay (before ++ [e]) = forwarded replay before := by
  have hnot : ¬ lastSeq replay < e.seq := by omega
  simp [forwarded, List.filter_append, hnot]

/-- The check against `replay_seq` skips what the replay has sent, and nothing
else: what was forwarded since came in order. -/
theorem skipped_iff {replay before : List SessionEvent} {e : SessionEvent} {replaySeq : ℕ}
    (hup : UpTo replay before replaySeq) (hrising : Increasing (before ++ [e])) :
    e.seq ≤ replaySeq ↔ e.seq ≤ lastSeq replay := by
  rcases hup with rfl | ⟨d, hd, rfl, hlt⟩
  · exact Iff.rfl
  · have hde : d.seq < e.seq :=
      (List.pairwise_append.mp hrising).2.2 d hd e (List.mem_singleton_self e)
    constructor
    · intro hle
      omega
    · intro hle
      omega

theorem recvStep_cases {w w' : Socket} {r : Receiver SessionEvent}
    (hr : w.hist.receiver w.rx = some r) (hs : w.recvStep = some w') :
    ∃ hist, w.hist.step (.recv w.rx) = some hist ∧ hist.receiver w.rx = some r.recv.2 ∧
      (w' = { w with hist := hist } ∧ r.recv.2.taken = r.taken ∨
        ∃ e, w' = { w with hist := hist, sendPc := .load e } ∧
          r.recv.2.taken = r.taken ++ [e]) := by
  unfold Socket.recvStep at hs
  rw [hr] at hs
  cases hstep : w.hist.step (.recv w.rx) with
  | none =>
    rw [hstep] at hs
    cases hs
  | some hist =>
    rw [hstep] at hs
    refine ⟨hist, rfl, (History.receiver_recv hr hstep).1, ?_⟩
    rcases Receiver.recv_cases r with hrec | hrec | ⟨e, q, -, hrec⟩ <;>
      simp only [hrec] at hs <;> cases hs
    · exact .inl ⟨rfl, by rw [hrec]⟩
    · exact .inr ⟨e, rfl, by rw [hrec]⟩

theorem recvStep_inv {c : ℕ} {w w' : Socket} (h : Inv c w) (hpc : w.sendPc = .recv)
    (hs : w.recvStep = some w') : Inv c w' := by
  obtain ⟨r, hr, hfed, hphase⟩ := h.fed
  obtain ⟨hstart, hreplayed, hforward⟩ := hphase.live (by rw [hpc]; exact id)
  obtain ⟨hist, hstep, hr', hcases⟩ := recvStep_cases hr hs
  obtain ⟨-, hfed', hpushed⟩ := hfed.recv hr hstep
  have hserial := h.serial.step (a := .recv w.rx) trivial hstep
  have hsnapshot : HasRead w.actionPc →
      Snapshot c w.fromSeq hist.pushed w.mark w.retained w.replay := by
    rw [hpushed]
    exact h.snapshot
  rcases hcases with ⟨rfl, htaken⟩ | ⟨e, rfl, htaken⟩
  · refine ⟨hserial, ⟨_, hr', hfed', ?_⟩, hsnapshot⟩
    rw [htaken]
    exact hphase
  · refine ⟨hserial, ⟨_, hr', hfed', ?_⟩, hsnapshot⟩
    rw [htaken]
    rw [hpc] at hforward
    refine (phase_true ?_).mpr ⟨hreplayed, r.taken, rfl, hforward⟩
    exact hstart

theorem sendStep_frame {w w' : Socket} {sent : Bool} (hne : w.sendPc ≠ .recv)
    (hs : w.sendStep sent = some w') : ∃ messages sender sendPc replaySeq, w' =
      { w with
        messages := w.messages ++ messages
        sender := sender
        sendPc := sendPc
        replaySeq := replaySeq } := by
  cases hpc : w.sendPc <;> simp only [Socket.sendStep, hpc, Option.some.injEq] at hs
  case recv => exact absurd hpc hne
  case ended => cases hs
  case send e =>
    split at hs <;> cases hs
    · exact ⟨[.event e], _, _, _, rfl⟩
    · exact ⟨[], _, _, _, by rw [List.append_nil]⟩
  case await | lock =>
    split at hs <;> cases hs
    exact ⟨[], _, _, _, by rw [List.append_nil]⟩
  all_goals
    cases hs
    exact ⟨[], _, _, _, by rw [List.append_nil]⟩

theorem sendStep_forwarding {w w' : Socket} {taken : List SessionEvent}
    (hrising : Increasing taken) (hwait : ¬ Waiting w.sendPc) (hne : w.sendPc ≠ .recv)
    (h : Forwarding w.sent w.replay w.replaySeq taken w.sendPc)
    (hs : w.sendStep true = some w') :
    Forwarding w'.sent w'.replay w'.replaySeq taken w'.sendPc ∧ w'.actionPc = w.actionPc ∧
      w'.replayStarted = w.replayStarted := by
  cases hpc : w.sendPc <;> rw [hpc] at h <;>
    simp only [Socket.sendStep, hpc, Option.some.injEq] at hs
  case recv => exact absurd hpc hne
  case notified | check | await => exact absurd (hpc ▸ trivial) hwait
  case load e =>
    subst hs
    refine ⟨?_, rfl, rfl⟩
    obtain ⟨before, htaken, hsent, hup⟩ := h
    rw [htaken] at hrising
    have hskip := skipped_iff hup hrising
    by_cases hle : e.seq ≤ w.replaySeq
    · simp only [if_pos hle]
      refine ⟨?_, ?_⟩
      · rw [htaken, forwarded_old (hskip.mp hle)]
        exact hsent
      · rw [htaken]
        exact hup.append e
    · simp only [if_neg hle]
      refine ⟨before, htaken, hsent, ?_⟩
      have hlt := mt hskip.mpr hle
      omega
  case store e =>
    subst hs
    obtain ⟨before, htaken, hsent, hlt⟩ := h
    exact ⟨⟨before, htaken, hsent, hlt, rfl⟩, rfl, rfl⟩
  case lock e =>
    split at hs
    · cases hs
      exact ⟨h, rfl, rfl⟩
    · cases hs
  case send e =>
    cases hs
    refine ⟨⟨?_, ?_⟩, rfl, rfl⟩
    · obtain ⟨before, htaken, hsent, hlt, -⟩ := h
      rw [htaken, forwarded_new hlt, ← hsent]
      exact eventsOf_append _ _
    · obtain ⟨before, htaken, -, hlt, hseq⟩ := h
      refine .inr ⟨e, ?_, hseq.symm, hlt⟩
      rw [htaken]
      exact List.mem_append_right _ (List.mem_singleton_self e)
  case ended => cases hs

theorem sendStep_phase {w w' : Socket} {taken : List SessionEvent} (hrising : Increasing taken)
    (hp : Phase w taken) (hne : w.sendPc ≠ .recv) (hs : w.sendStep true = some w') :
    Phase w' taken := by
  by_cases hwait : Waiting w.sendPc
  · cases hpc : w.sendPc
    case notified =>
      simp only [Socket.sendStep, hpc, Option.some.injEq] at hs
      subst hs
      exact hp.wait (by rw [hpc]; trivial) trivial
    case check seen =>
      simp only [Socket.sendStep, hpc, Option.some.injEq] at hs
      subst hs
      cases hstart : w.replayStarted with
      | false =>
        have hstay : Phase { w with sendPc := .await seen } taken :=
          hp.wait (by rw [hpc]; trivial) trivial
        simpa only [hstart, Bool.false_eq_true, if_false] using hstay
      | true =>
        obtain ⟨hreplayed, hforward⟩ := (phase_true hstart).mp hp
        rw [hpc] at hforward
        obtain ⟨htaken, hsent, hseq⟩ := hforward
        refine (phase_true rfl).mpr ⟨hreplayed, ?_, .inl hseq⟩
        rw [htaken, forwarded]
        exact hsent.trans (List.append_nil _).symm
    case await seen =>
      simp only [Socket.sendStep, hpc] at hs
      split at hs
      · cases hs
        exact hp.wait (by rw [hpc]; trivial) trivial
      · cases hs
    all_goals
      rw [hpc] at hwait
      cases hwait
  · obtain ⟨hstart, hreplayed, hforward⟩ := hp.live hwait
    obtain ⟨hforward', hact, hstarted⟩ := sendStep_forwarding hrising hwait hne hforward hs
    refine (phase_true (hstarted.trans hstart)).mpr ⟨?_, hforward'⟩
    rw [hact]
    exact hreplayed

theorem sendStep_inv {c : ℕ} {w w' : Socket} (h : Inv c w) (hs : w.sendStep true = some w') :
    Inv c w' := by
  by_cases hpc : w.sendPc = .recv
  · simp only [Socket.sendStep, hpc] at hs
    exact recvStep_inv h hpc hs
  · have hphase : ∀ r, w.hist.receiver w.rx = some r → w.hist.Fed c r → Phase w r.taken →
        Phase w' r.taken := fun r _ hfed hp =>
      sendStep_phase (Receiver.taken_pairwise hfed.rising) hp hpc hs
    obtain ⟨messages, sender, sendPc, replaySeq, rfl⟩ := sendStep_frame hpc hs
    exact h.of_phase rfl rfl hphase h.snapshot

theorem Phase.replaying {w : Socket} {taken : List SessionEvent} (hp : Phase w taken)
    (hpc : ¬ Replayed w.actionPc) : w.replayStarted = false ∧ Waiting w.sendPc ∧ taken = [] ∧
      Replaying w.sent w.replay w.replaySeq w.actionPc := by
  cases hstart : w.replayStarted with
  | false => exact ⟨rfl, (phase_false hstart).mp hp⟩
  | true => exact absurd ((phase_true hstart).mp hp).1 hpc

theorem Phase.replayed {w : Socket} {taken : List SessionEvent} (hp : Phase w taken)
    (hpc : Replayed w.actionPc) : w.replayStarted = true ∧
      Forwarding w.sent w.replay w.replaySeq taken w.sendPc := by
  cases hstart : w.replayStarted with
  | false =>
    have hreplaying := ((phase_false hstart).mp hp).2.2
    cases hact : w.actionPc <;> rw [hact] at hpc hreplaying <;> first
      | cases hpc; done
      | cases hreplaying
  | true => exact ⟨rfl, ((phase_true hstart).mp hp).2⟩

theorem read_snapshot {c : ℕ} {w : Socket} (hser : w.hist.Serial)
    (hsince : c ≤ w.hist.pushed.length) (min : ℕ) :
    Snapshot c w.fromSeq w.hist.pushed w.hist.pushed.length w.hist.log.events
      (w.hist.log.replayFrom min w.fromSeq).events := by
  have hsub := w.hist.log.replayFrom_sublist min w.fromSeq
  refine ⟨hsince, le_rfl, ?_, fun e he => hsub.subset he, ?_, ?_⟩
  · intro e he
    rw [List.take_length]
    exact hser.kept.events_subset he
  · have hevents : w.hist.log.events.Sublist w.hist.pushed := by
      rw [hser.kept.events]
      exact (BoundedQueue.rtake_suffix _ _).sublist
    exact hser.rising.sublist (hsub.trans hevents)
  · intro e he hseq
    exact EventLog.mem_replayFrom he hseq

theorem actionStep_frame {w w' : Socket} {sent : Bool} (hs : w.actionStep sent = some w') :
    w'.hist = w.hist ∧ w'.rx = w.rx ∧ w'.fromSeq = w.fromSeq ∧ w.messages <+: w'.messages := by
  cases hpc : w.actionPc <;> simp only [Socket.actionStep, hpc, Option.some.injEq] at hs
  case lock replay =>
    split at hs <;> cases hs
    exact ⟨rfl, rfl, rfl, List.prefix_rfl⟩
  case gap oldest events =>
    subst hs
    exact ⟨rfl, rfl, rfl, List.prefix_append _ _⟩
  case send events maxReplayedSeq =>
    cases events with
    | nil =>
      cases hs
      exact ⟨rfl, rfl, rfl, List.prefix_rfl⟩
    | cons e events =>
      cases sent <;> cases hs
      · exact ⟨rfl, rfl, rfl, List.prefix_rfl⟩
      · exact ⟨rfl, rfl, rfl, List.prefix_append _ _⟩
  all_goals
    cases hs
    try exact ⟨rfl, rfl, rfl, List.prefix_rfl⟩

theorem actionStep_snapshot {c : ℕ} {w w' : Socket} (hser : w.hist.Serial)
    (hsince : c ≤ w.hist.pushed.length)
    (hsnap : HasRead w.actionPc → Snapshot c w.fromSeq w.hist.pushed w.mark w.retained w.replay)
    (hs : w.actionStep true = some w') (hread : HasRead w'.actionPc) :
    Snapshot c w'.fromSeq w'.hist.pushed w'.mark w'.retained w'.replay := by
  cases hpc : w.actionPc <;> simp only [Socket.actionStep, hpc, Option.some.injEq] at hs
  case recv | loadMin =>
    subst hs
    cases hread
  case read min =>
    subst hs
    exact read_snapshot hser hsince min
  case lock replay =>
    split at hs <;> cases hs
    exact hsnap (by rw [hpc]; trivial)
  case send events maxReplayedSeq =>
    cases events <;>
      · cases hs
        exact hsnap (by rw [hpc]; trivial)
  case done | ended => cases hs
  all_goals
    subst hs
    exact hsnap (by rw [hpc]; trivial)

theorem actionStep_replaying {w w' : Socket} (hne : w.actionPc ≠ .storeStarted)
    (h : Replaying w.sent w.replay w.replaySeq w.actionPc) (hs : w.actionStep true = some w') :
    Replaying w'.sent w'.replay w'.replaySeq w'.actionPc ∧ w'.sendPc = w.sendPc ∧
      w'.replayStarted = w.replayStarted := by
  cases hpc : w.actionPc <;> rw [hpc] at h <;>
    simp only [Socket.actionStep, hpc, Option.some.injEq] at hs
  case recv | loadMin | storeSeq =>
    subst hs
    exact ⟨h, rfl, rfl⟩
  case read min =>
    subst hs
    exact ⟨⟨h, rfl⟩, rfl, rfl⟩
  case lock replay =>
    split at hs
    · cases hs
      obtain ⟨hsent, hevents⟩ := h
      cases replay with
      | complete events =>
        have hall := (congrArg (· ++ events) hsent).trans hevents
        exact ⟨⟨hall, congrArg lastSeq hevents⟩, rfl, rfl⟩
      | partly events oldest => exact ⟨⟨hsent, hevents⟩, rfl, rfl⟩
    · cases hs
  case gap oldest events =>
    subst hs
    obtain ⟨hsent, hevents⟩ := h
    have hmessages : eventsOf (w.messages ++ [.replayGap oldest w.fromSeq]) = [] := by
      rw [eventsOf_append]
      exact congrArg (· ++ []) hsent
    have hall := (congrArg (· ++ events) hmessages).trans hevents
    exact ⟨⟨hall, congrArg lastSeq hevents⟩, rfl, rfl⟩
  case send events maxReplayedSeq =>
    cases events with
    | nil =>
      cases hs
      exact ⟨⟨(List.append_nil _).symm.trans h.1, h.2⟩, rfl, rfl⟩
    | cons e events =>
      cases hs
      refine ⟨⟨?_, h.2⟩, rfl, rfl⟩
      have hmessages : eventsOf (w.messages ++ [.event e]) = w.sent ++ [e] :=
        eventsOf_append _ _
      simp only [Socket.sent, hmessages, List.append_assoc, List.singleton_append]
      exact h.1
  case storeStarted => exact absurd hpc hne
  case notify | unlock | done | ended => cases h

theorem actionStep_phase {w w' : Socket} {taken : List SessionEvent} (hp : Phase w taken)
    (hs : w.actionStep true = some w') : Phase w' taken := by
  by_cases hstore : w.actionPc = .storeStarted
  · simp only [Socket.actionStep, hstore, Option.some.injEq] at hs
    subst hs
    obtain ⟨-, hwait, htaken, hold⟩ := hp.replaying (by rw [hstore]; exact id)
    rw [hstore] at hold
    refine (phase_true rfl).mpr ⟨trivial, ?_⟩
    cases hsend : w.sendPc <;> rw [hsend] at hwait <;> try cases hwait
    all_goals exact ⟨htaken, hold⟩
  by_cases hreplayed : Replayed w.actionPc
  · obtain ⟨hstart, hforward⟩ := hp.replayed hreplayed
    cases hpc : w.actionPc
    case notify | unlock =>
      simp only [Socket.actionStep, hpc, Option.some.injEq] at hs
      subst hs
      refine (phase_true ?_).mpr ⟨trivial, hforward⟩
      exact hstart
    case done =>
      simp only [Socket.actionStep, hpc] at hs
      cases hs
    all_goals
      rw [hpc] at hreplayed
      cases hreplayed
  · obtain ⟨hstart, hwait, htaken, hold⟩ := hp.replaying hreplayed
    obtain ⟨hreplaying, hsend, hstarted⟩ := actionStep_replaying hstore hold hs
    refine (phase_false (hstarted.trans hstart)).mpr ⟨?_, htaken, hreplaying⟩
    rw [hsend]
    exact hwait

theorem actionStep_inv {c : ℕ} {w w' : Socket} (h : Inv c w) (hs : w.actionStep true = some w') :
    Inv c w' := by
  obtain ⟨hhist, hrx, -, -⟩ := actionStep_frame hs
  obtain ⟨r, -, hfed, -⟩ := h.fed
  exact h.of_phase hhist hrx (fun _ _ _ hp => actionStep_phase hp hs)
    (actionStep_snapshot h.serial hfed.since h.snapshot hs)

theorem step_inv {c : ℕ} (w : Socket) (a : WebSocket.Action) (w' : Socket) (h : Inv c w)
    (hcalm : w.Calm a) (hs : w.step a = some w') : Inv c w' := by
  cases a with
  | log a => exact log_inv h hcalm hs
  | sendTask sent =>
    cases hcalm
    exact sendStep_inv h hs
  | actionTask sent =>
    cases hcalm
    exact actionStep_inv h hs

theorem step_fromSeq (w : Socket) (a : WebSocket.Action) (w' : Socket)
    (hs : w.step a = some w') : w'.fromSeq = w.fromSeq := by
  cases a with
  | log a =>
    obtain ⟨-, hist, -, rfl⟩ := step_log hs
    rfl
  | sendTask sent =>
    simp only [Socket.step, Socket.sendStep, Socket.recvStep] at hs
    repeat' split at hs
    all_goals
      cases hs
      try rfl
  | actionTask sent =>
    simp only [Socket.step, Socket.actionStep] at hs
    repeat' split at hs
    all_goals
      cases hs
      try rfl

theorem Inv.increasing {c : ℕ} {w : Socket} (h : Inv c w) : Increasing w.sent := by
  obtain ⟨r, -, hfed, hp⟩ := h.fed
  have hforwarded : ∀ (before after : List SessionEvent), r.taken = before ++ after →
      HasRead w.actionPc → Increasing (forwarded w.replay before) := by
    intro before after htaken hread
    have hsnap := h.snapshot hread
    have htake := Receiver.taken_pairwise hfed.rising
    rw [htaken] at htake
    rw [forwarded, Increasing, List.pairwise_append]
    refine ⟨hsnap.rising, (List.pairwise_append.mp htake).1.filter _, ?_⟩
    intro d hd e he
    have hlt : lastSeq w.replay < e.seq := of_decide_eq_true (List.mem_filter.mp he).2
    exact (le_lastSeq hsnap.rising d hd).trans_lt hlt
  cases hstart : w.replayStarted with
  | false =>
    obtain ⟨-, -, hold⟩ := (phase_false hstart).mp hp
    cases hpc : w.actionPc <;> rw [hpc] at hold
    case recv | loadMin | read =>
      rw [show w.sent = [] from hold]
      exact List.Pairwise.nil
    case lock | gap =>
      rw [hold.1]
      exact List.Pairwise.nil
    case send events maxReplayedSeq =>
      have hsnap := h.snapshot (by rw [hpc]; trivial)
      exact hsnap.rising.sublist (by rw [← hold.1]; exact List.sublist_append_left _ _)
    case storeSeq | storeStarted =>
      have hsnap := h.snapshot (by rw [hpc]; trivial)
      rw [hold.1]
      exact hsnap.rising
    case notify | unlock | done | ended => cases hold
  | true =>
    obtain ⟨hreplayed, hforward⟩ := (phase_true hstart).mp hp
    have hread := hreplayed.hasRead
    cases hpc : w.sendPc <;> rw [hpc] at hforward
    case notified | check | await =>
      rw [hforward.2.1]
      exact (h.snapshot hread).rising
    case recv =>
      rw [hforward.1]
      exact hforwarded r.taken [] (List.append_nil _).symm hread
    case load e | store e | lock e | send e =>
      obtain ⟨before, htaken, hsent, -⟩ := hforward
      rw [hsent]
      exact hforwarded before [e] htaken hread
    case ended => cases hforward

theorem Snapshot.lastSeq_lt {c fromSeq mark : ℕ} {h : History} {retained replay : List SessionEvent}
    (hsnap : Snapshot c fromSeq h.pushed mark retained replay) (hser : h.Serial)
    {e : SessionEvent} (he : e ∈ h.pushed.drop mark) : lastSeq replay < e.seq := by
  have hrising := hser.rising
  rw [← List.take_append_drop mark h.pushed] at hrising
  apply Handover.lastSeq_lt
  · obtain ⟨a, -, -, -, hpos⟩ := hser.kept.append_eq (List.mem_of_mem_drop he)
    exact hpos
  · intro d hd
    exact (List.pairwise_append.mp hrising).2.2 d (hsnap.held d (hsnap.replayed d hd)) e he

theorem Inv.complete {c : ℕ} {w : Socket} (h : Inv c w) (hdone : w.Consumed) {e : SessionEvent}
    (hseq : w.fromSeq ≤ e.seq) (howed : w.Owed e) : e ∈ w.sent := by
  obtain ⟨r, hr, hfed, hp⟩ := h.fed
  obtain ⟨hpc, hqueue⟩ := hdone
  have hempty : r.queue = [] := by
    rw [hr] at hqueue
    exact of_decide_eq_true hqueue
  obtain ⟨-, hreplayed, hforward⟩ := hp.live (by rw [hpc]; exact id)
  have hsnap := h.snapshot hreplayed.hasRead
  rw [hpc] at hforward
  rw [hforward.1, forwarded, List.mem_append]
  rcases howed with hretained | ⟨hlater, hsent⟩
  · exact .inl (hsnap.cover e hretained hseq)
  · refine .inr (List.mem_filter.mpr ⟨?_, ?_⟩)
    · -- the receiver was there before the log was read
      have hsince : e ∈ w.hist.pushed.drop c := by
        have hsuf := List.drop_suffix (w.mark - c) (w.hist.pushed.drop c)
        rw [List.drop_drop, Nat.add_sub_of_le hsnap.since] at hsuf
        exact hsuf.subset hlater
      have hstream := hfed.all e hsince hsent
      rwa [Receiver.stream, hempty, List.append_nil] at hstream
    · exact decide_eq_true (hsnap.lastSeq_lt h.serial hlater)

def Holding : ActionPc → Prop
  | .gap .. | .send .. | .storeSeq _ | .storeStarted | .notify | .unlock => True
  | _ => False

structure Woken (sender : Option Task) (sendPc : SendPc) (actionPc : ActionPc)
    (replayStarted : Bool) (notifies : ℕ) : Prop where
  sendTask : sender = some .sendTask → ∃ e, sendPc = .send e
  actionTask : sender = some .actionTask → Holding actionPc
  unstarted : replayStarted = false → notifies = 0
  notified : actionPc = .unlock ∨ actionPc = .done → 0 < notifies
  checking : ∀ seen, sendPc = .check seen → seen ≤ notifies
  awaiting : ∀ seen, sendPc = .await seen → seen = 0

def WokenIn (w : Socket) : Prop :=
  Woken w.sender w.sendPc w.actionPc w.replayStarted w.notifies

theorem Woken.send {sender : Option Task} {sendPc sendPc' : SendPc} {actionPc : ActionPc}
    {started : Bool} {notifies : ℕ} (h : Woken sender sendPc actionPc started notifies)
    (hpc : ∀ e, sendPc ≠ .send e) (hcheck : ∀ seen, sendPc' = .check seen → seen ≤ notifies)
    (hawait : ∀ seen, sendPc' = .await seen → seen = 0) :
    Woken sender sendPc' actionPc started notifies := by
  refine ⟨?_, h.actionTask, h.unstarted, h.notified, hcheck, hawait⟩
  intro hsender
  obtain ⟨e, he⟩ := h.sendTask hsender
  exact absurd he (hpc e)

theorem Woken.action {sender : Option Task} {sendPc : SendPc} {actionPc actionPc' : ActionPc}
    {started started' : Bool} {notifies : ℕ}
    (h : Woken sender sendPc actionPc started notifies)
    (hhold : Holding actionPc → Holding actionPc')
    (hstarted : started' = false → started = false)
    (hnot : ¬ (actionPc' = .unlock ∨ actionPc' = .done)) :
    Woken sender sendPc actionPc' started' notifies :=
  ⟨h.sendTask, fun hsender => hhold (h.actionTask hsender), fun hs => h.unstarted (hstarted hs),
    fun hpc => absurd hpc hnot, h.checking, h.awaiting⟩

theorem connect_woken (h : History) (fromSeq : ℕ) : WokenIn (connect h fromSeq) :=
  ⟨nofun, nofun, fun _ => rfl, nofun, nofun, nofun⟩

theorem sendStep_woken {w w' : Socket} (h : WokenIn w) (hs : w.sendStep true = some w') :
    WokenIn w' := by
  have hgo : ∀ pc, w.sendPc = pc → (∀ e, pc ≠ .send e) → ∀ e, w.sendPc ≠ .send e := by
    rintro pc rfl hpc
    exact hpc
  cases hpc : w.sendPc <;> simp only [Socket.sendStep, hpc, Option.some.injEq] at hs
  case notified =>
    subst hs
    refine Woken.send h (hgo _ hpc nofun) ?_ nofun
    rintro seen hseen
    cases hseen
    exact le_rfl
  case check seen =>
    subst hs
    cases hstart : w.replayStarted with
    | true =>
      simp only [if_true]
      exact Woken.send (by rw [← hstart]; exact h) (hgo _ hpc nofun) nofun nofun
    | false =>
      simp only [Bool.false_eq_true, if_false]
      refine Woken.send (by rw [← hstart]; exact h) (hgo _ hpc nofun) nofun ?_
      rintro n hn
      cases hn
      have hle := h.checking seen hpc
      have hzero := h.unstarted hstart
      omega
  case await seen =>
    split at hs
    · cases hs
      exact Woken.send h (hgo _ hpc nofun) nofun nofun
    · cases hs
  case recv =>
    unfold Socket.recvStep at hs
    split at hs
    · split at hs
      · cases hs
        exact Woken.send h (hgo _ hpc nofun) nofun nofun
      · cases hs
        exact h
      · cases hs
    · cases hs
  case load e =>
    subst hs
    by_cases hle : e.seq ≤ w.replaySeq
    · simp only [if_pos hle]
      exact Woken.send h (hgo _ hpc nofun) nofun nofun
    · simp only [if_neg hle]
      exact Woken.send h (hgo _ hpc nofun) nofun nofun
  case store e =>
    subst hs
    exact Woken.send h (hgo _ hpc nofun) nofun nofun
  case lock e =>
    split at hs
    · cases hs
      exact ⟨fun _ => ⟨e, rfl⟩, nofun, h.unstarted, h.notified, nofun, nofun⟩
    · cases hs
  case send e =>
    cases hs
    exact ⟨nofun, nofun, h.unstarted, h.notified, nofun, nofun⟩
  case ended => cases hs

theorem actionStep_woken {c : ℕ} {w w' : Socket} (hinv : Inv c w) (h : WokenIn w)
    (hs : w.actionStep true = some w') : WokenIn w' := by
  cases hpc : w.actionPc <;> simp only [Socket.actionStep, hpc, Option.some.injEq] at hs
  case recv | loadMin | read =>
    subst hs
    exact Woken.action h (by rw [hpc]; exact id) id nofun
  case lock replay =>
    split at hs
    · cases hs
      refine ⟨nofun, ?_, h.unstarted, ?_, h.checking, h.awaiting⟩
      · intro _
        cases replay <;> trivial
      · intro hend
        cases replay <;> simp [ActionPc.locked] at hend
    · cases hs
  case gap =>
    subst hs
    exact Woken.action h (fun _ => trivial) id nofun
  case send events maxReplayedSeq =>
    cases events with
    | nil =>
      cases hs
      exact Woken.action h (fun _ => trivial) id nofun
    | cons e events =>
      cases hs
      exact Woken.action h (fun _ => trivial) id nofun
  case storeSeq =>
    subst hs
    exact Woken.action h (fun _ => trivial) id nofun
  case storeStarted =>
    subst hs
    exact Woken.action h (fun _ => trivial) nofun nofun
  case notify =>
    subst hs
    obtain ⟨r, -, -, hp⟩ := hinv.fed
    have hstart := (hp.replayed (by rw [hpc]; trivial)).1
    refine ⟨h.sendTask, fun _ => trivial, ?_, fun _ => Nat.succ_pos _, ?_, h.awaiting⟩
    · intro hfalse
      exact absurd (hfalse.symm.trans hstart) nofun
    · intro seen hseen
      exact (h.checking seen hseen).trans (Nat.le_succ _)
  case unlock =>
    subst hs
    exact ⟨nofun, nofun, h.unstarted, fun _ => h.notified (.inl hpc), h.checking, h.awaiting⟩
  case done | ended => cases hs

theorem step_woken {c : ℕ} (w : Socket) (a : WebSocket.Action) (w' : Socket)
    (h : Inv c w ∧ WokenIn w) (hcalm : w.Calm a) (hs : w.step a = some w') :
    Inv c w' ∧ WokenIn w' := by
  refine ⟨step_inv w a w' h.1 hcalm hs, ?_⟩
  cases a with
  | log a =>
    simp only [Socket.step] at hs
    split at hs
    · cases hs
    · obtain ⟨hist, -, rfl⟩ := Option.map_eq_some_iff.mp hs
      exact h.2
  | sendTask sent =>
    cases hcalm
    exact sendStep_woken h.2 hs
  | actionTask sent =>
    cases hcalm
    exact actionStep_woken h.1 h.2 hs

theorem consumed_of_still {c : ℕ} {w : Socket} (hinv : Inv c w) (h : WokenIn w)
    (hdone : w.actionPc = .done) (hstill : w.sendStep true = none) : w.Consumed := by
  obtain ⟨r, hr, hfed, hp⟩ := hinv.fed
  cases hpc : w.sendPc <;> simp only [Socket.sendStep, hpc, reduceCtorEq] at hstill
  case await seen =>
    have hseen := h.awaiting seen hpc
    have hnotified := h.notified (.inr hdone)
    rw [if_pos (by omega)] at hstill
    cases hstill
  case recv =>
    refine ⟨hpc, ?_⟩
    rw [hr]
    rcases Receiver.recv_of_lagged_eq_zero hfed.lagged with ⟨-, hqueue⟩ | ⟨e, q, hqueue, hrec⟩
    · exact decide_eq_true hqueue
    · have hget : w.hist.sys.channel.receivers[w.rx]? = some r := hr
      simp [Socket.recvStep, hr, History.step, LogSys.step, Channel.recv, hget, hrec] at hstill
  case lock e =>
    cases hsender : w.sender with
    | none =>
      rw [hsender] at hstill
      cases hstill
    | some task =>
      cases task with
      | sendTask =>
        obtain ⟨d, hd⟩ := h.sendTask hsender
        rw [hpc] at hd
        cases hd
      | actionTask =>
        have hhold := h.actionTask hsender
        rw [hdone] at hhold
        cases hhold
  case send e => cases hstill
  case ended =>
    have hlive := hp.live (by rw [hpc]; exact id)
    rw [hpc] at hlive
    cases hlive.2.2

theorem run_serial {maxEntries : ℕ} {acts : List LogAction} {h : History}
    (hrun : run History.step (.new maxEntries) acts = some h)
    (hone : Along History.step History.OneAtATime (.new maxEntries) acts) : h.Serial :=
  invariant (fun _ _ _ hser hC hs => hser.step hC hs) (History.new_serial maxEntries) hone hrun

section
variable {maxEntries fromSeq : ℕ} {before : List LogAction} {h : History}
  {acts : List WebSocket.Action} {w : Socket}

theorem run_fromSeq (hrun : run Socket.step (connect h fromSeq) acts = some w) :
    w.fromSeq = fromSeq :=
  preserved (I := fun w => w.fromSeq = fromSeq)
    (fun w a w' hfrom hs => (step_fromSeq w a w' hs).trans hfrom) rfl hrun

theorem run_inv (hbefore : run History.step (.new maxEntries) before = some h)
    (hone : Along History.step History.OneAtATime (.new maxEntries) before)
    (hrun : run Socket.step (connect h fromSeq) acts = some w)
    (hcalm : Along Socket.step Socket.Calm (connect h fromSeq) acts) :
    Inv h.pushed.length w ∧ WokenIn w ∧ w.fromSeq = fromSeq := by
  have hserial := run_serial hbefore hone
  obtain ⟨hinv, hwoken⟩ := invariant step_woken
    ⟨connect_inv hserial fromSeq, connect_woken h fromSeq⟩ hcalm hrun
  exact ⟨hinv, hwoken, run_fromSeq hrun⟩

/-- The send task misses no notification: once the replay is over and the send
task can take no step, it has consumed its channel. -/
theorem consumed_at_rest (hbefore : run History.step (.new maxEntries) before = some h)
    (hone : Along History.step History.OneAtATime (.new maxEntries) before)
    (hrun : run Socket.step (connect h fromSeq) acts = some w)
    (hcalm : Along Socket.step Socket.Calm (connect h fromSeq) acts)
    (hdone : w.actionPc = .done) (hstill : w.sendStep true = none) : w.Consumed := by
  obtain ⟨hinv, hwoken, -⟩ := run_inv hbefore hone hrun hcalm
  exact consumed_of_still hinv hwoken hdone hstill

/-- The client is sent events in strictly increasing order, and once the send
task has consumed its channel it has got every event from `fromSeq` on that the
log held at the replay or that came after it. -/
theorem handed_over (hbefore : run History.step (.new maxEntries) before = some h)
    (hone : Along History.step History.OneAtATime (.new maxEntries) before)
    (hrun : run Socket.step (connect h fromSeq) acts = some w)
    (hcalm : Along Socket.step Socket.Calm (connect h fromSeq) acts) :
    Increasing w.sent ∧
      (w.Consumed → ∀ e, fromSeq ≤ e.seq → w.Owed e → e ∈ w.sent) := by
  obtain ⟨hinv, -, hfrom⟩ := run_inv hbefore hone hrun hcalm
  refine ⟨hinv.increasing, ?_⟩
  intro hdone e hseq howed
  exact hinv.complete hdone (hfrom.le.trans hseq) howed

end

/-- Three events: one broadcast before the connection, one pushed before the
replay reads the log and broadcast after it, one pushed while the replay is sent. -/
def threeBefore : List LogAction :=
  [.draw "s" "codex" (.messageChunk "a"), .push 0, .send 0,
    .draw "s" "codex" (.messageChunk "b"), .push 1]

def threeAfter : List WebSocket.Action :=
  [.actionTask true, .actionTask true, .actionTask true, .log (.send 1),
    .sendTask true, .sendTask true, .actionTask true, .actionTask true, .actionTask true,
    .actionTask true, .log (.draw "s" "codex" (.messageChunk "c")), .log (.push 2),
    .actionTask true, .actionTask true, .actionTask true,
    .sendTask true, .sendTask true, .sendTask true, .sendTask true, .sendTask true,
    .log (.send 2), .sendTask true, .sendTask true, .sendTask true, .actionTask true,
    .sendTask true, .sendTask true]

theorem handed_over_three :
    ∃ h w, run History.step (.new 100) threeBefore = some h ∧
      run Socket.step (connect h 1) threeAfter = some w ∧ w.sent.length = 3 ∧
      Increasing w.sent ∧ ∀ e, 1 ≤ e.seq → w.Owed e → e ∈ w.sent := by
  obtain ⟨h, hbefore, hcalm, w, hrun, hdone, hlen⟩ :
      ∃ h, run History.step (.new 100) threeBefore = some h ∧
        Along Socket.step Socket.Calm (connect h 1) threeAfter ∧
        ∃ w, run Socket.step (connect h 1) threeAfter = some w ∧ w.Consumed ∧
          w.sent.length = 3 := by
    obtain ⟨h, hbefore, hcalm, hany⟩ := exists_run (s := History.new 100)
      (fun h => Along Socket.step Socket.Calm (connect h 1) threeAfter ∧
        (run Socket.step (connect h 1) threeAfter).any
          (fun w : Socket => decide (w.Consumed ∧ w.sent.length = 3)) = true)
      (by decide : (run History.step (.new 100) threeBefore).any _ = true)
    exact ⟨h, hbefore, hcalm, exists_run (fun w : Socket => w.Consumed ∧ w.sent.length = 3) hany⟩
  obtain ⟨hincreasing, hall⟩ := handed_over hbefore (by decide) hrun hcalm
  exact ⟨h, w, hbefore, hrun, hlen, hincreasing, hall hdone⟩

end Ccgonext.Handover
