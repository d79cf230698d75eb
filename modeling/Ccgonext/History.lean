import Ccgonext.EventOrder
import Mathlib.Data.List.Nodup

/-!
# The log and everything pushed to it

`pushed` is every event ever pushed, in the order of the pushes. The deque is
its end, `min_seq` the number of the first event the deque holds, and every
event was drawn before it was pushed.
-/

namespace Ccgonext.Events
open Lib EventOrder

structure History where
  sys : LogSys
  pushed : List SessionEvent
  deriving DecidableEq, Repr

namespace History

def new (maxEntries : ℕ) : History := ⟨.new maxEntries, []⟩

def log (h : History) : EventLog := h.sys.log

def pushedBy (h : History) : LogAction → List SessionEvent
  | .push k => (h.sys.appends[k]?.map AppendCall.event).toList
  | _ => []

def step (h : History) (a : LogAction) : Option History :=
  (h.sys.step a).map fun sys => ⟨sys, h.pushed ++ h.pushedBy a⟩

theorem step_inv {h h' : History} {a : LogAction} (hs : h.step a = some h') :
    h.sys.step a = some h'.sys ∧ h'.pushed = h.pushed ++ h.pushedBy a := by
  simp only [step, Option.map_eq_some_iff] at hs
  obtain ⟨sys, hsys, rfl⟩ := hs
  exact ⟨hsys, rfl⟩

theorem step_push {h h' : History} {k : ℕ} (hs : h.step (.push k) = some h') :
    ∃ e, h.sys.appends[k]? = some ⟨e, .push⟩ ∧ h'.pushed = h.pushed ++ [e] ∧
      h'.sys =
        { h.sys with log := h.sys.log.push e, appends := h.sys.appends.set k ⟨e, .send⟩ } := by
  obtain ⟨hsys, hpushed⟩ := step_inv hs
  obtain ⟨e, ha, hsys'⟩ := LogSys.step_push hsys
  refine ⟨e, ha, ?_, hsys'⟩
  rw [hpushed]
  simp [pushedBy, ha]

theorem step_send {h h' : History} {k : ℕ} (hs : h.step (.send k) = some h') :
    ∃ e, h.sys.appends[k]? = some ⟨e, .send⟩ ∧ h'.pushed = h.pushed ∧
      h'.sys =
        { h.sys with
          channel := h.sys.channel.send e
          appends := h.sys.appends.set k ⟨e, .done⟩ } := by
  obtain ⟨hsys, hpushed⟩ := step_inv hs
  obtain ⟨e, ha, hsys'⟩ := LogSys.step_send hsys
  exact ⟨e, ha, by simpa [pushedBy] using hpushed, hsys'⟩

theorem step_recv {h h' : History} {i : ℕ} (hs : h.step (.recv i) = some h') :
    ∃ c, h.sys.channel.recv i = some c ∧ h'.pushed = h.pushed ∧
      h'.sys = { h.sys with channel := c } := by
  obtain ⟨hsys, hpushed⟩ := step_inv hs
  obtain ⟨c, hc, hsys'⟩ := LogSys.step_recv hsys
  exact ⟨c, hc, by simpa [pushedBy] using hpushed, hsys'⟩

theorem map_event_set {appends : List AppendCall} {k : ℕ} {e : SessionEvent} {st st' : Stage}
    (hk : appends[k]? = some ⟨e, st⟩) :
    (appends.set k ⟨e, st'⟩).map AppendCall.event = appends.map AppendCall.event := by
  obtain ⟨hlt, hget⟩ := List.getElem?_eq_some_iff.mp hk
  have hlt' : k < (appends.map AppendCall.event).length := by rwa [List.length_map]
  have hat : (appends.map AppendCall.event)[k] = e := by rw [List.getElem_map, hget]
  rw [List.map_set]
  nth_rewrite 1 [← hat]
  exact List.set_getElem_self hlt'

def firstSeq (events : List SessionEvent) : ℕ :=
  match events with
  | [] => 0
  | first :: _ => first.seq

structure Kept (h : History) : Prop where
  numbered : Numbered h.sys
  events : h.log.events = h.pushed.rtake h.log.maxEntries
  min : h.log.minSeq = firstSeq h.log.events
  drawn : ∀ e ∈ h.pushed, ∃ (k : ℕ) (a : AppendCall),
    h.sys.appends[k]? = some a ∧ a.event = e ∧ a.stage ≠ .push
  nodup : h.pushed.Nodup

theorem new_kept (maxEntries : ℕ) : Kept (.new maxEntries) := by
  refine ⟨⟨rfl, ?_⟩, ?_, rfl, ?_, List.nodup_nil⟩
  · intro k a hk
    simp [new, LogSys.new] at hk
  · simp [new, log, LogSys.new, EventLog.new, List.rtake]
  · intro e he
    cases he

theorem Kept.append_eq {h : History} (hk : Kept h) {e : SessionEvent} (he : e ∈ h.pushed) :
    ∃ a, h.sys.appends[e.seq - 1]? = some a ∧ a.event = e ∧ a.stage ≠ .push ∧ 0 < e.seq := by
  obtain ⟨k, a, ha, rfl, hst⟩ := hk.drawn e he
  have hseq := hk.numbered.seqs k a ha
  exact ⟨a, by rw [hseq]; exact ha, rfl, hst, by omega⟩

theorem Kept.seq_lt {h : History} (hk : Kept h) {e : SessionEvent} (he : e ∈ h.pushed) :
    e.seq < h.log.nextSeq := by
  obtain ⟨a, ha, -, -, hpos⟩ := hk.append_eq he
  have hlt := (List.getElem?_eq_some_iff.mp ha).1
  have hnext : h.log.nextSeq = h.sys.appends.length + 1 := hk.numbered.next
  omega

theorem Kept.fresh {h : History} (hk : Kept h) {k : ℕ} {e : SessionEvent}
    (ha : h.sys.appends[k]? = some ⟨e, .push⟩) : e ∉ h.pushed := by
  intro he
  obtain ⟨b, hb, -, hst, -⟩ := hk.append_eq he
  rw [hk.numbered.seqs k _ ha, Nat.add_sub_cancel, ha, Option.some.injEq] at hb
  exact hst (by rw [← hb])

theorem Kept.events_subset {h : History} (hk : Kept h) : h.log.events ⊆ h.pushed := by
  rw [hk.events]
  exact (BoundedQueue.rtake_suffix _ _).subset

theorem firstSeq_push {log : EventLog} (e : SessionEvent) (h : log.minSeq = firstSeq log.events)
    (hsmall : log.events.length ≤ log.maxEntries) :
    (log.push e).minSeq = firstSeq (log.push e).events := by
  simp only [EventLog.push]
  cases hq : BoundedQueue.push log.maxEntries log.events e with
  | cons first rest => rfl
  | nil =>
    -- only a deque without room is empty after a push, and then it always was
    have hlen := congrArg List.length hq
    simp only [BoundedQueue.push, BoundedQueue.trim_eq_rtake, List.rtake, List.length_drop,
      List.length_append, List.length_cons, List.length_nil] at hlen
    have hnil : log.events = [] := by
      apply List.eq_nil_of_length_eq_zero
      omega
    rw [h, hnil]

theorem push_kept {h h' : History} (hk : Kept h) {k : ℕ} (hs : h.step (.push k) = some h') :
    Kept h' := by
  obtain ⟨e, ha, hpushed', hsys'⟩ := step_push hs
  have hevents : h'.log.events = h'.pushed.rtake h'.log.maxEntries := by
    have hold := hk.events
    simp only [log] at hold ⊢
    rw [hpushed', hsys']
    simp only [EventLog.push_events, EventLog.push_maxEntries, hold]
    exact BoundedQueue.push_rtake h.pushed e
  constructor
  · rw [hsys']
    exact hk.numbered.set (b := ⟨e, .send⟩) ha rfl (h.sys.log.push_nextSeq e)
  · exact hevents
  · simp only [log, hsys']
    refine firstSeq_push e hk.min ?_
    have hold := hk.events
    simp only [log] at hold
    rw [hold]
    exact BoundedQueue.rtake_length_le _ _
  · intro d hd
    rw [hpushed', List.mem_append, List.mem_singleton] at hd
    rw [hsys']
    rcases hd with hd | rfl
    · obtain ⟨j, a, hj, haj, hst⟩ := hk.drawn d hd
      by_cases hjk : k = j
      · subst hjk
        rw [ha, Option.some.injEq] at hj
        exact absurd (by rw [← hj]) hst
      · exact ⟨j, a, by rw [List.getElem?_set_ne hjk]; exact hj, haj, hst⟩
    · have hlt := (List.getElem?_eq_some_iff.mp ha).1
      exact ⟨k, ⟨d, .send⟩, by rw [List.getElem?_set_self hlt], rfl, by simp⟩
  · rw [hpushed']
    rw [← List.concat_eq_append]
    exact List.Nodup.concat (hk.fresh ha) hk.nodup

theorem step_kept {h h' : History} {a : LogAction} (hk : Kept h) (hs : h.step a = some h') :
    Kept h' := by
  cases a with
  | push k => exact push_kept hk hs
  | draw sid agent payload =>
    cases hs
    refine ⟨hk.numbered.draw sid agent payload, ?_, hk.min, ?_, ?_⟩
    · simpa [pushedBy, log, EventLog.fetchAdd] using hk.events
    · intro e he
      obtain ⟨j, a, hj, ha, hst⟩ := hk.drawn e (by simpa [pushedBy] using he)
      have hlt := (List.getElem?_eq_some_iff.mp hj).1
      exact ⟨j, a, by rw [List.getElem?_append_left hlt]; exact hj, ha, hst⟩
    · simpa [pushedBy] using hk.nodup
  | send k =>
    obtain ⟨e, ha, hpushed', hsys'⟩ := step_send hs
    refine ⟨?_, ?_, ?_, ?_, hpushed' ▸ hk.nodup⟩
    · rw [hsys']
      exact hk.numbered.set (b := ⟨e, .done⟩) ha rfl rfl
    · simp only [log, hpushed', hsys']
      exact hk.events
    · simp only [log, hsys']
      exact hk.min
    · intro d hd
      rw [hpushed'] at hd
      rw [hsys']
      obtain ⟨j, a, hj, haj, hst⟩ := hk.drawn d hd
      by_cases hjk : k = j
      · subst hjk
        have hlt := (List.getElem?_eq_some_iff.mp ha).1
        rw [ha, Option.some.injEq] at hj
        refine ⟨k, ⟨e, .done⟩, List.getElem?_set_self hlt, ?_, by simp⟩
        rw [← haj, ← hj]
      · exact ⟨j, a, by rw [List.getElem?_set_ne hjk]; exact hj, haj, hst⟩
  | subscribe =>
    cases hs
    refine ⟨⟨hk.numbered.next, hk.numbered.seqs⟩, ?_, hk.min, ?_, ?_⟩
    · simpa [pushedBy, log] using hk.events
    · simpa [pushedBy] using hk.drawn
    · simpa [pushedBy] using hk.nodup
  | recv i =>
    obtain ⟨c, -, hpushed', hsys'⟩ := step_recv hs
    refine ⟨?_, ?_, ?_, ?_, hpushed' ▸ hk.nodup⟩
    · rw [hsys']
      exact ⟨hk.numbered.next, hk.numbered.seqs⟩
    · simp only [log, hpushed', hsys']
      exact hk.events
    · simp only [log, hsys']
      exact hk.min
    · rw [hpushed', hsys']
      exact hk.drawn

theorem step_pushed {h h' : History} {a : LogAction} (hs : h.step a = some h') :
    h.pushed <+: h'.pushed := by
  rw [(step_inv hs).2]
  exact List.prefix_append _ _

theorem step_maxEntries {h h' : History} {a : LogAction} (hs : h.step a = some h') :
    h'.log.maxEntries = h.log.maxEntries := by
  simp only [log]
  cases a with
  | push k =>
    obtain ⟨e, -, -, hsys⟩ := step_push hs
    rw [hsys, EventLog.push_maxEntries]
  | send k =>
    obtain ⟨e, -, -, hsys⟩ := step_send hs
    rw [hsys]
  | recv i =>
    obtain ⟨c, -, -, hsys⟩ := step_recv hs
    rw [hsys]
  | draw sid agent payload | subscribe =>
    cases hs
    rfl

end History

end Ccgonext.Events
