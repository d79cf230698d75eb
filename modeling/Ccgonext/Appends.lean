import Ccgonext.History
import Ccgonext.Lib.Runs

/-!
# Appends one after another

`append` and `replay_from` of `events.rs` as a single caller sees them, which
waits for each append to return: the log is a window of the events appended, and
`min_seq`, `next_seq` and the deque agree on where it lies.
-/

namespace Ccgonext.Events
open Lib Lib.Runs EventOrder History

structure AppendArgs where
  sessionId : String
  agent : String
  payload : EventPayload
  deriving DecidableEq, Repr

def AppendArgs.event (args : AppendArgs) (seq : ℕ) : SessionEvent :=
  ⟨seq, args.sessionId, args.agent, args.payload⟩

namespace EventLog

def append (log : EventLog) (args : AppendArgs) : EventLog × ℕ :=
  (log.fetchAdd.push (args.event log.nextSeq), log.nextSeq)

def appendAll (log : EventLog) : List AppendArgs → EventLog × List ℕ
  | [] => (log, [])
  | args :: calls =>
    let (log, seq) := log.append args
    let (log, seqs) := log.appendAll calls
    (log, seq :: seqs)

/-- `replay_from` while nothing is appended. -/
def replay (log : EventLog) (fromSeq : ℕ) : ReplayResult := log.replayFrom log.minSeq fromSeq

def numbered (seq : ℕ) : List AppendArgs → List SessionEvent
  | [] => []
  | args :: calls => args.event seq :: numbered (seq + 1) calls

/-- `replay_from` is partial, with all there is and the number of its oldest event,
where it is asked for a number that is lower; else it is complete, and has what
there is from that number on. -/
def Replays (log : EventLog) (fromSeq : ℕ) : Prop :=
  (∃ oldest ∈ log.events.head?, 0 < fromSeq ∧ fromSeq < oldest.seq ∧
    log.replay fromSeq = .partly log.events oldest.seq) ∨
  (∀ oldest ∈ log.events.head?, fromSeq = 0 ∨ oldest.seq ≤ fromSeq) ∧
    ∃ events, log.replay fromSeq = .complete events ∧ Increasing events ∧
      ∀ e, e ∈ events ↔ e ∈ log.events ∧ fromSeq ≤ e.seq

/-- The log as a window of what was appended to it. -/
structure Window (log : EventLog) (appended : List SessionEvent) : Prop where
  events : log.events = appended.rtake log.maxEntries
  oldest : log.minSeq = firstSeq log.events
  next : log.nextSeq = appended.length + 1
  seqs : appended.map SessionEvent.seq = List.range' 1 appended.length

variable {log : EventLog} {appended : List SessionEvent} {calls : List AppendArgs}

theorem length_numbered (seq : ℕ) : (numbered seq calls).length = calls.length := by
  induction calls generalizing seq with
  | nil => rfl
  | cons args calls ih => rw [numbered, List.length_cons, ih, List.length_cons]

theorem window_new (maxEntries : ℕ) : Window (.new maxEntries) [] :=
  ⟨List.drop_nil.symm, rfl, rfl, rfl⟩

theorem Window.append (h : Window log appended) (args : AppendArgs) :
    Window (log.append args).1 (appended ++ [args.event log.nextSeq]) := by
  have hevents : log.fetchAdd.events = appended.rtake log.fetchAdd.maxEntries := h.events
  have hsmall : log.fetchAdd.events.length ≤ log.fetchAdd.maxEntries := by
    rw [hevents]
    exact BoundedQueue.rtake_length_le _ _
  refine ⟨?_, firstSeq_push _ h.oldest hsmall, ?_, ?_⟩
  · rw [EventLog.append, push_events, push_maxEntries, hevents]
    exact BoundedQueue.push_rtake _ _
  · rw [List.length_append, List.length_singleton, ← h.next]
    rfl
  · rw [List.map_append, h.seqs, List.length_append, List.length_singleton, List.range'_1_concat,
      Nat.add_comm 1, ← h.next]
    rfl

theorem Window.appendAll (h : Window log appended) (calls : List AppendArgs) :
    Window (log.appendAll calls).1 (appended ++ numbered log.nextSeq calls) ∧
      (log.appendAll calls).2 = List.range' log.nextSeq calls.length := by
  induction calls generalizing log appended with
  | nil =>
    rw [numbered, List.append_nil]
    exact ⟨h, rfl⟩
  | cons args calls ih =>
    obtain ⟨hwindow, hseqs⟩ := ih (h.append args)
    rw [List.append_assoc] at hwindow
    refine ⟨hwindow, ?_⟩
    rw [EventLog.appendAll, List.length_cons, List.range'_succ]
    exact congrArg _ hseqs

theorem appendAll_maxEntries : (log.appendAll calls).1.maxEntries = log.maxEntries := by
  induction calls generalizing log with
  | nil => rfl
  | cons args calls ih => exact ih

theorem Window.rising (h : Window log appended) : Increasing log.events := by
  have hall : Increasing appended := by
    rw [Increasing, ← List.pairwise_map, h.seqs]
    exact List.pairwise_lt_range'
  rw [h.events]
  exact hall.sublist (BoundedQueue.rtake_suffix _ _).sublist

theorem Window.seqs_retained (h : Window log appended) :
    log.events.map SessionEvent.seq =
      List.range' (appended.length - log.maxEntries + 1) (min appended.length log.maxEntries) := by
  rw [h.events, List.rtake, List.map_drop, h.seqs, List.drop_range']
  congr 1 <;> omega

theorem Window.replays (h : Window log appended) (fromSeq : ℕ) : Replays log fromSeq := by
  have hrising := h.rising
  unfold Replays
  rw [EventLog.replay, replayFrom, h.oldest]
  split
  · next hpartly =>
    obtain ⟨hpos, hlt, -⟩ := hpartly
    cases hevents : log.events with
    | nil =>
      rw [hevents] at hlt
      exact absurd hlt (Nat.not_lt_zero fromSeq)
    | cons oldest rest =>
      rw [hevents] at hlt
      exact .inl ⟨oldest, rfl, hpos, hlt, rfl⟩
  · next hcomplete =>
    refine .inr ⟨fun oldest hold => ?_, _, rfl, hrising.filter _, fun e => ?_⟩
    · obtain ⟨rest, hevents⟩ := List.head?_eq_some_iff.mp hold
      rw [hevents] at hcomplete
      by_contra hwithin
      obtain ⟨hpos, hlt⟩ := not_or.mp hwithin
      have hbelow : fromSeq < oldest.seq := not_le.mp hlt
      exact hcomplete ⟨Nat.pos_of_ne_zero hpos, hbelow, (Nat.zero_le _).trans_lt hbelow⟩
    · rw [List.mem_filter, decide_eq_true_iff]

end EventLog

open EventLog

def appendSteps (k : ℕ) (args : AppendArgs) : List LogAction :=
  [.draw args.sessionId args.agent args.payload, .push k, .send k]

theorem run_appendSteps (s : LogSys) (args : AppendArgs) :
    ∃ t, run LogSys.step s (appendSteps s.appends.length args) = some t ∧
      t.log = (s.log.append args).1 ∧
      t.appends = s.appends ++ [⟨args.event (s.log.append args).2, .done⟩] := by
  refine ⟨⟨(s.log.append args).1, s.appends ++ [⟨args.event s.log.nextSeq, .done⟩],
    s.channel.send (args.event s.log.nextSeq)⟩, ?_, rfl, rfl⟩
  simp [appendSteps, run, LogSys.step, LogSys.drawn, EventLog.append, AppendArgs.event]

/-- The steps of the calls, each call begun when the one before it has returned. -/
def appendAllSteps (k : ℕ) : List AppendArgs → List LogAction
  | [] => []
  | args :: calls => appendSteps k args ++ appendAllSteps (k + 1) calls

theorem run_appendAllSteps (s : LogSys) (calls : List AppendArgs) :
    ∃ t, run LogSys.step s (appendAllSteps s.appends.length calls) = some t ∧
      t.log = (s.log.appendAll calls).1 := by
  induction calls generalizing s with
  | nil => exact ⟨s, rfl, rfl⟩
  | cons args calls ih =>
    obtain ⟨u, hu, hlog, happends⟩ := run_appendSteps s args
    obtain ⟨t, ht, htlog⟩ := ih u
    have hlen : u.appends.length = s.appends.length + 1 := by
      rw [happends, List.length_append, List.length_singleton]
    rw [hlen] at ht
    refine ⟨t, (run_append hu _).trans ht, ?_⟩
    rw [htlog, hlog]
    rfl

/-- However many calls were made on a new log, they were numbered from 1 on, and
the log is the window of the last `maxEntries` of them. -/
theorem appends_window (maxEntries : ℕ) (calls : List AppendArgs) (fromSeq : ℕ) :
    let (log, seqs) := (EventLog.new maxEntries).appendAll calls
    seqs = List.range' 1 calls.length ∧
      log.events = (numbered 1 calls).drop (calls.length - maxEntries) ∧
      log.events.map SessionEvent.seq =
        List.range' (calls.length - maxEntries + 1) (min calls.length maxEntries) ∧
      Replays log fromSeq := by
  obtain ⟨hwindow, hseqs⟩ := (window_new maxEntries).appendAll calls
  rw [List.nil_append] at hwindow
  have hlen : (numbered 1 calls).length = calls.length := length_numbered 1
  have hmax := @appendAll_maxEntries (.new maxEntries) calls
  refine ⟨hseqs, ?_, ?_, hwindow.replays fromSeq⟩
  · rw [hwindow.events, List.rtake, hmax, ← hlen]
    rfl
  · rw [hwindow.seqs_retained, hmax, ← hlen]
    rfl

end Ccgonext.Events
