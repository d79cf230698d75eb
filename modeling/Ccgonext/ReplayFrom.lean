import Ccgonext.SerialLog
import Ccgonext.Lib.Runs

/-!
# Replaying a log that is being written

`replay_from` loads `min_seq` and only then takes the read lock, so an append may
evict between the two. What it calls complete has a gap, and the oldest number it
reports is stale, exactly if an event it was asked for is evicted there.
-/

namespace Ccgonext.Events
open Lib EventOrder

def EventLog.evicted (log : EventLog) : List SessionEvent :=
  log.events.take (log.events.length + 1 - log.maxEntries)

theorem EventLog.evicted_append {log : EventLog} (hmax : 0 < log.maxEntries) (e : SessionEvent) :
    log.evicted ++ (log.push e).events = log.events ++ [e] := by
  have hk : log.events.length + 1 - log.maxEntries ≤ log.events.length := by omega
  have htake : log.evicted =
      (log.events ++ [e]).take (log.events.length + 1 - log.maxEntries) := by
    rw [evicted, List.take_append_of_le_length hk]
  have hdrop : (log.push e).events =
      (log.events ++ [e]).drop (log.events.length + 1 - log.maxEntries) := by
    rw [push_events, BoundedQueue.push, BoundedQueue.trim_eq_rtake, List.rtake]
    simp only [List.length_append, List.length_cons, List.length_nil]
  rw [htake, hdrop, List.take_append_drop]

namespace History

/-- An event from number `fromSeq` on was pushed and is no longer in the deque. -/
def Missed (h : History) (fromSeq : ℕ) : Prop :=
  ∃ e ∈ h.pushed, fromSeq ≤ e.seq ∧ e ∉ h.log.events

theorem Serial.split {h : History} (hser : h.Serial) :
    ∃ gone, h.pushed = gone ++ h.log.events ∧
      ∀ d ∈ gone, ∀ e ∈ h.log.events, d.seq < e.seq := by
  obtain ⟨gone, hgone⟩ := BoundedQueue.rtake_suffix h.log.maxEntries h.pushed
  rw [← hser.kept.events] at hgone
  refine ⟨gone, hgone.symm, ?_⟩
  have hrising := hser.rising
  rw [← hgone, Increasing, List.pairwise_append] at hrising
  exact hrising.2.2

theorem Serial.minSeq_le {h : History} (hser : h.Serial) :
    ∀ e ∈ h.log.events, h.log.minSeq ≤ e.seq := by
  intro e he
  have hrising : Increasing h.log.events := by
    rw [hser.kept.events]
    exact hser.rising.sublist (BoundedQueue.rtake_suffix _ _).sublist
  rw [hser.kept.min]
  cases hevents : h.log.events with
  | nil =>
    rw [hevents] at he
    cases he
  | cons first rest =>
    rw [hevents] at he hrising
    rcases List.mem_cons.mp he with rfl | he
    · exact le_rfl
    · exact ((List.pairwise_cons.mp hrising).1 e he).le

theorem Kept.events_ne_nil {h : History} (hk : h.Kept) (hmax : 0 < h.log.maxEntries)
    (hpushed : h.pushed ≠ []) : h.log.events ≠ [] := by
  intro hnil
  have hlen := congrArg List.length hk.events
  have hpos := List.length_pos_of_ne_nil hpushed
  simp only [hnil, List.length_nil, List.rtake, List.length_drop] at hlen
  omega

theorem Kept.minSeq_mem {h : History} (hk : h.Kept) (hne : h.log.events ≠ []) :
    ∃ first rest, h.log.events = first :: rest ∧ h.log.minSeq = first.seq := by
  obtain ⟨first, rest, hevents⟩ := List.exists_cons_of_ne_nil hne
  exact ⟨first, rest, hevents, by rw [hk.min, hevents, firstSeq]⟩

theorem Serial.lt_minSeq {h : History} (hser : h.Serial) (hmax : 0 < h.log.maxEntries)
    {e : SessionEvent} (he : e ∈ h.pushed) (hgone : e ∉ h.log.events) :
    e.seq < h.log.minSeq := by
  obtain ⟨gone, hsplit, hlt⟩ := hser.split
  obtain ⟨first, rest, hevents, hmin⟩ :=
    hser.kept.minSeq_mem (hser.kept.events_ne_nil hmax (List.ne_nil_of_mem he))
  rw [hsplit, List.mem_append] at he
  rw [hmin]
  exact hlt e (he.resolve_right hgone) first (by rw [hevents]; exact List.mem_cons_self)

theorem Serial.not_missed {h : History} (hser : h.Serial) (hmax : 0 < h.log.maxEntries)
    {fromSeq : ℕ} (hmin : h.log.minSeq ≤ fromSeq) : ¬ h.Missed fromSeq := by
  rintro ⟨e, he, hfrom, hgone⟩
  have hlt := hser.lt_minSeq hmax he hgone
  omega

theorem step_log {h h' : History} {a : LogAction} (hs : h.step a = some h') :
    (∃ k, a = .push k) ∨
      h'.pushed = h.pushed ∧ h'.log.events = h.log.events ∧ h'.log.minSeq = h.log.minSeq := by
  cases a with
  | push k => exact .inl ⟨k, rfl⟩
  | draw sid agent payload =>
    cases hs
    exact .inr ⟨by simp [pushedBy], rfl, rfl⟩
  | send k =>
    obtain ⟨e, -, hpushed, hsys⟩ := step_send hs
    exact .inr ⟨hpushed, by simp only [log, hsys], by simp only [log, hsys]⟩
  | subscribe =>
    cases hs
    exact .inr ⟨by simp [pushedBy], rfl, rfl⟩
  | recv i =>
    obtain ⟨c, -, hpushed, hsys⟩ := step_recv hs
    exact .inr ⟨hpushed, by simp only [log, hsys], by simp only [log, hsys]⟩

theorem push_log {h h' : History} {k : ℕ} (hk : h.Kept) (hmax : 0 < h.log.maxEntries)
    (hs : h.step (.push k) = some h') :
    ∃ e, e ∉ h.pushed ∧ h'.pushed = h.pushed ++ [e] ∧
      h.log.evicted ++ h'.log.events = h.log.events ++ [e] := by
  obtain ⟨e, ha, hpushed, hsys⟩ := step_push hs
  refine ⟨e, hk.fresh ha, hpushed, ?_⟩
  have hevents : h'.log.events = (h.log.push e).events := by simp only [log, hsys]
  rw [hevents, EventLog.evicted_append hmax]

theorem Missed.step {h h' : History} {a : LogAction} {fromSeq : ℕ} (hk : h.Kept)
    (hmax : 0 < h.log.maxEntries) (hs : h.step a = some h') (hmiss : h.Missed fromSeq) :
    h'.Missed fromSeq := by
  obtain ⟨d, hd, hfrom, hgone⟩ := hmiss
  rcases step_log hs with ⟨k, rfl⟩ | ⟨hpushed, hevents, -⟩
  · obtain ⟨e, hfresh, hpushed, hsplit⟩ := push_log hk hmax hs
    refine ⟨d, by rw [hpushed]; exact List.mem_append_left _ hd, hfrom, ?_⟩
    intro hd'
    have hold : d ∈ h.log.events ++ [e] := by
      rw [← hsplit]
      exact List.mem_append_right _ hd'
    rcases List.mem_append.mp hold with hold | hold
    · exact hgone hold
    · rw [List.mem_singleton.mp hold] at hd
      exact hfresh hd
  · exact ⟨d, by rw [hpushed]; exact hd, hfrom, by rw [hevents]; exact hgone⟩

theorem push_missed {h h' : History} {k fromSeq : ℕ} (hk : h.Kept)
    (hmax : 0 < h.log.maxEntries) (hs : h.step (.push k) = some h')
    (hheld : ¬ h.Missed fromSeq) (hkept : ∀ d ∈ h.log.evicted, d.seq < fromSeq) :
    ¬ h'.Missed fromSeq := by
  obtain ⟨e, -, hpushed, hsplit⟩ := push_log hk hmax hs
  rintro ⟨d, hd, hfrom, hgone⟩
  have hold : d ∈ h.log.events ++ [e] := by
    rw [hpushed, List.mem_append] at hd
    rw [List.mem_append]
    refine hd.imp_left fun hd => ?_
    by_contra hout
    exact hheld ⟨d, hd, hfrom, hout⟩
  rw [← hsplit, List.mem_append] at hold
  rcases hold with hold | hold
  · have hlt := hkept d hold
    omega
  · exact hgone hold

theorem evicted_gone {h h' : History} {k : ℕ} (hk : h.Kept) (hk' : h'.Kept)
    (hmax : 0 < h.log.maxEntries) (hs : h.step (.push k) = some h') {d : SessionEvent}
    (hd : d ∈ h.log.evicted) : d ∈ h'.pushed ∧ d ∉ h'.log.events := by
  obtain ⟨e, hfresh, hpushed, hsplit⟩ := push_log hk hmax hs
  have hheld : d ∈ h.log.events := List.mem_of_mem_take hd
  refine ⟨by rw [hpushed]; exact List.mem_append_left _ (hk.events_subset hheld), ?_⟩
  intro hd'
  have hnodup : (h.log.events ++ [e]).Nodup := by
    have hsub : (h.log.events ++ [e]).Sublist (h.pushed ++ [e]) := by
      rw [hk.events]
      exact (BoundedQueue.rtake_suffix _ _).sublist.append_right [e]
    exact hsub.nodup (hpushed ▸ hk'.nodup)
  rw [← hsplit] at hnodup
  exact (List.nodup_append.mp hnodup).2.2 d hd d hd' rfl

theorem Serial.minSeq_mono {h h' : History} {a : LogAction} (hser : h.Serial)
    (hser' : h'.Serial) (hmax : 0 < h.log.maxEntries) (hs : h.step a = some h') :
    h.log.minSeq ≤ h'.log.minSeq := by
  rcases step_log hs with ⟨k, rfl⟩ | ⟨-, -, hmin⟩
  · obtain ⟨e, -, hpushed, hsplit⟩ := push_log hser.kept hmax hs
    by_cases hempty : h.log.events = []
    · rw [hser.kept.min, hempty]
      exact Nat.zero_le _
    have hmax' : 0 < h'.log.maxEntries := by
      rw [step_maxEntries hs]
      exact hmax
    obtain ⟨first', rest', hevents', hmin'⟩ :=
      hser'.kept.minSeq_mem (hser'.kept.events_ne_nil hmax' (by rw [hpushed]; simp))
    obtain ⟨first, rest, hevents, hmin⟩ := hser.kept.minSeq_mem hempty
    rw [hmin']
    have hold : first' ∈ h.log.events ++ [e] := by
      rw [← hsplit, hevents']
      exact List.mem_append_right _ List.mem_cons_self
    rcases List.mem_append.mp hold with hold | hold
    · exact hser.minSeq_le first' hold
    · -- the event just pushed comes after all the others
      rw [List.mem_singleton.mp hold, hmin]
      have hrising := hser'.rising
      rw [hpushed, Increasing, List.pairwise_append] at hrising
      have hfirst : first ∈ h.pushed := hser.kept.events_subset (by simp [hevents])
      exact (hrising.2.2 first hfirst e List.mem_cons_self).le
  · exact hmin.ge

end History

end Ccgonext.Events

namespace Ccgonext.ReplayFrom
open Lib Lib.Runs Events EventOrder

/-- Where a call of `replay_from` is; `pushed` is what had been pushed when it
held the lock. -/
inductive Call
  | load
  | read (min : ℕ)
  | returned (result : ReplayResult) (pushed : List SessionEvent)
  deriving DecidableEq, Repr

structure Replay where
  hist : History
  fromSeq : ℕ
  call : Call
  deriving DecidableEq, Repr

inductive Action
  | log (a : LogAction)
  | load
  | read
  deriving DecidableEq, Repr

def start (maxEntries fromSeq : ℕ) : Replay := ⟨.new maxEntries, fromSeq, .load⟩

namespace Replay

def step (r : Replay) : Action → Option Replay
  | .log a => (r.hist.step a).map fun hist => { r with hist := hist }
  | .load =>
    match r.call with
    | .load => some { r with call := .read r.hist.log.minSeq }
    | _ => none
  | .read =>
    match r.call with
    | .read min => some
      { r with call := .returned (r.hist.log.replayFrom min r.fromSeq) r.hist.pushed }
    | _ => none

def OneAtATime (r : Replay) : Action → Prop
  | .log a => r.hist.OneAtATime a
  | .load | .read => True

instance (r : Replay) (a : Action) : Decidable (r.OneAtATime a) := by
  rcases a <;> dsimp only [OneAtATime] <;> infer_instance

/-- Between the two steps of the call no event it was asked for is evicted. -/
def Spares (r : Replay) (a : Action) : Prop :=
  match a, r.call with
  | .log (.push _), .read _ => ∀ e ∈ r.hist.log.evicted, e.seq < r.fromSeq
  | _, _ => True

instance (r : Replay) (a : Action) : Decidable (r.Spares a) := by
  unfold Spares
  split <;> infer_instance

end Replay

/-- A complete replay has every event asked for that had been pushed, and one
that is not names the first event it has. -/
def Honest (fromSeq : ℕ) (pushed : List SessionEvent) : ReplayResult → Prop
  | .complete events => ∀ e ∈ pushed, fromSeq ≤ e.seq → e ∈ events
  | .partly events oldest => events.head?.map (·.seq) = some oldest

instance (fromSeq : ℕ) (pushed : List SessionEvent) (result : ReplayResult) :
    Decidable (Honest fromSeq pushed result) := by
  cases result <;> dsimp only [Honest] <;> infer_instance

def Fresh (h : History) (fromSeq min : ℕ) : Prop :=
  min = h.log.minSeq ∨ min ≤ fromSeq ∧ ¬ h.Missed fromSeq

def Stale (h : History) (fromSeq min : ℕ) : Prop :=
  min < h.log.minSeq ∧ h.Missed fromSeq

theorem honest_of_fresh {h : History} {fromSeq min : ℕ} (hser : h.Serial)
    (hmax : 0 < h.log.maxEntries) (hpos : 0 < fromSeq) (hfresh : Fresh h fromSeq min) :
    Honest fromSeq h.pushed (h.log.replayFrom min fromSeq) := by
  unfold EventLog.replayFrom
  split
  · next hpart =>
    obtain ⟨-, hlt, hmin⟩ := hpart
    obtain rfl : min = h.log.minSeq := hfresh.resolve_right (by omega)
    cases hevents : h.log.events with
    | nil =>
      rw [hser.kept.min, hevents] at hmin
      exact absurd hmin (Nat.lt_irrefl 0)
    | cons first rest =>
      rw [hser.kept.min, hevents]
      rfl
  · next hcomplete =>
    have hle : min ≤ fromSeq := by omega
    have hheld : ¬ h.Missed fromSeq := by
      rcases hfresh with rfl | ⟨-, hheld⟩
      · exact hser.not_missed hmax hle
      · exact hheld
    intro e he hfrom
    rw [List.mem_filter]
    refine ⟨?_, by simpa using hfrom⟩
    by_contra hgone
    exact hheld ⟨e, he, hfrom, hgone⟩

theorem not_honest_of_stale {h : History} {fromSeq min : ℕ} (hser : h.Serial)
    (hstale : Stale h fromSeq min) :
    ¬ Honest fromSeq h.pushed (h.log.replayFrom min fromSeq) := by
  obtain ⟨hlt, d, hd, hfrom, hgone⟩ := hstale
  unfold EventLog.replayFrom
  split
  · intro hfirst
    cases hevents : h.log.events with
    | nil => simp [Honest, hevents] at hfirst
    | cons first rest =>
      simp only [Honest, hevents, List.head?_cons, Option.map_some, Option.some.injEq] at hfirst
      rw [hser.kept.min, hevents, History.firstSeq] at hlt
      omega
  · intro hall
    exact hgone (List.mem_of_mem_filter (hall d hd hfrom))

structure Inv (r : Replay) : Prop where
  serial : r.hist.Serial
  room : 0 < r.hist.log.maxEntries
  asked : 0 < r.fromSeq
  loaded : ∀ min, r.call = .read min → min ≤ r.hist.log.minSeq
  call : match r.call with
    | .load => True
    | .read min => Fresh r.hist r.fromSeq min
    | .returned result pushed => Honest r.fromSeq pushed result

structure Misled (r : Replay) : Prop where
  serial : r.hist.Serial
  room : 0 < r.hist.log.maxEntries
  call : match r.call with
    | .load => False
    | .read min => Stale r.hist r.fromSeq min
    | .returned result pushed => ¬ Honest r.fromSeq pushed result

theorem start_inv {maxEntries fromSeq : ℕ} (hmax : 0 < maxEntries) (hfrom : 0 < fromSeq) :
    Inv (start maxEntries fromSeq) :=
  ⟨History.new_serial maxEntries, hmax, hfrom, fun _ h => (by cases h), trivial⟩

theorem Fresh.push {h h' : History} {k fromSeq min : ℕ} (hser : h.Serial) (hser' : h'.Serial)
    (hmax : 0 < h.log.maxEntries) (hs : h.step (.push k) = some h')
    (hspares : ∀ e ∈ h.log.evicted, e.seq < fromSeq) (hfresh : Fresh h fromSeq min) :
    Fresh h' fromSeq min := by
  have hgo : min ≤ fromSeq → ¬ h.Missed fromSeq → Fresh h' fromSeq min :=
    fun hle hheld => .inr ⟨hle, History.push_missed hser.kept hmax hs hheld hspares⟩
  rcases hfresh with rfl | ⟨hle, hheld⟩
  · obtain ⟨e, -, hpushed, hsplit⟩ := History.push_log hser.kept hmax hs
    by_cases hempty : h.log.events = []
    · have hzero : h.log.minSeq = 0 := by rw [hser.kept.min, hempty, History.firstSeq]
      refine hgo (by omega) (hser.not_missed hmax (by omega))
    obtain ⟨first, rest, hevents, hmin⟩ := hser.kept.minSeq_mem hempty
    cases hgone : h.log.evicted with
    | nil =>
      -- nothing is evicted, so the deque starts where it did
      rw [hgone, hevents, List.nil_append, List.cons_append] at hsplit
      left
      rw [hser'.kept.min, hsplit, hmin, History.firstSeq]
    | cons d gone =>
      rw [hgone, hevents, List.cons_append, List.cons_append] at hsplit
      have hd : d = first := (List.cons.inj hsplit).1
      have hlt := hspares d (by rw [hgone]; exact List.mem_cons_self)
      rw [hd, ← hmin] at hlt
      exact hgo hlt.le (hser.not_missed hmax hlt.le)
  · exact hgo hle hheld

theorem stale_of_evicted {h h' : History} {k fromSeq min : ℕ} (hser : h.Serial)
    (hser' : h'.Serial) (hmax : 0 < h.log.maxEntries) (hs : h.step (.push k) = some h')
    (hmin : min ≤ h.log.minSeq) {d : SessionEvent} (hd : d ∈ h.log.evicted)
    (hfrom : fromSeq ≤ d.seq) : Stale h' fromSeq min := by
  obtain ⟨hd', hgone⟩ := History.evicted_gone hser.kept hser'.kept hmax hs hd
  have hmax' : 0 < h'.log.maxEntries := by
    rw [History.step_maxEntries hs]
    exact hmax
  have hle := hser.minSeq_le d (List.mem_of_mem_take hd)
  have hlt := hser'.lt_minSeq hmax' hd' hgone
  exact ⟨by omega, d, hd', hfrom, hgone⟩

theorem step_log_inv {r r' : Replay} {a : LogAction} (hs : r.step (.log a) = some r') :
    r.hist.step a = some r'.hist ∧ r'.fromSeq = r.fromSeq ∧ r'.call = r.call := by
  simp only [Replay.step, Option.map_eq_some_iff] at hs
  obtain ⟨hist, hhist, rfl⟩ := hs
  exact ⟨hhist, rfl, rfl⟩

theorem step_load {r r' : Replay} (hs : r.step .load = some r') :
    r.call = .load ∧ r' = { r with call := .read r.hist.log.minSeq } := by
  simp only [Replay.step] at hs
  split at hs
  · next hc =>
    cases hs
    exact ⟨hc, rfl⟩
  · cases hs

theorem step_read {r r' : Replay} (hs : r.step .read = some r') :
    ∃ min, r.call = .read min ∧ r' =
      { r with call := .returned (r.hist.log.replayFrom min r.fromSeq) r.hist.pushed } := by
  simp only [Replay.step] at hs
  split at hs
  · next min hc =>
    cases hs
    exact ⟨min, hc, rfl⟩
  · cases hs

theorem Fresh.step {h h' : History} {a : LogAction} {fromSeq min : ℕ} (hser : h.Serial)
    (hser' : h'.Serial) (hmax : 0 < h.log.maxEntries) (hs : h.step a = some h')
    (hspares : ∀ k, a = .push k → ∀ e ∈ h.log.evicted, e.seq < fromSeq)
    (hfresh : Fresh h fromSeq min) : Fresh h' fromSeq min := by
  rcases History.step_log hs with ⟨k, rfl⟩ | ⟨hpushed, hevents, hmin⟩
  · exact hfresh.push hser hser' hmax hs (hspares k rfl)
  · unfold Fresh History.Missed
    rw [hpushed, hevents, hmin]
    exact hfresh

theorem step_inv (r : Replay) (a : Action) (r' : Replay) (h : Inv r)
    (hC : r.Spares a ∧ r.OneAtATime a) (hs : r.step a = some r') : Inv r' := by
  obtain ⟨hspares, hone⟩ := hC
  obtain ⟨hser, hmax, hfrom, hloaded, hcall⟩ := h
  cases a with
  | log a =>
    obtain ⟨hhist, hfrom', hcall'⟩ := step_log_inv hs
    have hser' := hser.step hone hhist
    refine ⟨hser', ?_, by rw [hfrom']; exact hfrom, ?_, ?_⟩
    · rw [History.step_maxEntries hhist]
      exact hmax
    · intro min hread
      rw [hcall'] at hread
      exact (hloaded min hread).trans (hser.minSeq_mono hser' hmax hhist)
    · rw [hcall', hfrom']
      cases hc : r.call with
      | load => trivial
      | returned result pushed => simpa only [hc] using hcall
      | read min =>
        refine Fresh.step hser hser' hmax hhist ?_ (by simpa only [hc] using hcall)
        rintro k rfl
        simpa only [Replay.Spares, hc] using hspares
  | load =>
    obtain ⟨-, rfl⟩ := step_load hs
    refine ⟨hser, hmax, hfrom, ?_, .inl rfl⟩
    rintro min hread
    cases hread
    exact le_rfl
  | read =>
    obtain ⟨min, hc, rfl⟩ := step_read hs
    refine ⟨hser, hmax, hfrom, fun _ h => (by cases h), ?_⟩
    exact honest_of_fresh hser hmax hfrom (by simpa only [hc] using hcall)

theorem misled_step (r : Replay) (a : Action) (r' : Replay) (h : Misled r)
    (hone : r.OneAtATime a) (hs : r.step a = some r') : Misled r' := by
  obtain ⟨hser, hmax, hcall⟩ := h
  cases a with
  | log a =>
    obtain ⟨hhist, hfrom', hcall'⟩ := step_log_inv hs
    have hser' := hser.step hone hhist
    refine ⟨hser', ?_, ?_⟩
    · rw [History.step_maxEntries hhist]
      exact hmax
    · rw [hcall', hfrom']
      cases hc : r.call with
      | load => simp only [hc] at hcall
      | returned result pushed => simpa only [hc] using hcall
      | read min =>
        simp only [hc] at hcall
        have hmono := hser.minSeq_mono hser' hmax hhist
        exact ⟨hcall.1.trans_le hmono, hcall.2.step hser.kept hmax hhist⟩
  | load =>
    obtain ⟨hc, -⟩ := step_load hs
    simp only [hc] at hcall
  | read =>
    obtain ⟨min, hc, rfl⟩ := step_read hs
    exact ⟨hser, hmax, not_honest_of_stale hser (by simpa only [hc] using hcall)⟩

theorem misled_of_evicted (r : Replay) (a : Action) (r' : Replay) (h : Inv r)
    (hone : r.OneAtATime a) (hnot : ¬ r.Spares a) (hs : r.step a = some r') : Misled r' := by
  unfold Replay.Spares at hnot
  split at hnot
  · next k min hc =>
    obtain ⟨hhist, hfrom', hcall'⟩ := step_log_inv hs
    have hser' : r'.hist.Serial := h.serial.step (a := .push k) hone hhist
    refine ⟨hser', ?_, ?_⟩
    · rw [History.step_maxEntries hhist]
      exact h.room
    · simp only [not_forall, not_lt] at hnot
      obtain ⟨d, hd, hfrom⟩ := hnot
      rw [hcall', hfrom', hc]
      exact stale_of_evicted h.serial hser' h.room hhist (h.loaded min hc) hd hfrom
  · exact absurd trivial hnot

theorem step_fromSeq {r r' : Replay} {a : Action} (hs : r.step a = some r') :
    r'.fromSeq = r.fromSeq := by
  cases a with
  | log a => exact (step_log_inv hs).2.1
  | load =>
    obtain ⟨-, rfl⟩ := step_load hs
    rfl
  | read =>
    obtain ⟨min, -, rfl⟩ := step_read hs
    rfl

/-- One call of `replay_from` beside appends that run one at a time. -/
theorem honest_iff_spares {maxEntries fromSeq : ℕ} (hmax : 0 < maxEntries) (hfrom : 0 < fromSeq)
    {acts : List Action} {r : Replay} {result : ReplayResult} {pushed : List SessionEvent}
    (hone : Along Replay.step Replay.OneAtATime (start maxEntries fromSeq) acts)
    (hrun : run Replay.step (start maxEntries fromSeq) acts = some r)
    (hcall : r.call = .returned result pushed) :
    Honest fromSeq pushed result ↔
      Along Replay.step Replay.Spares (start maxEntries fromSeq) acts := by
  have hfromSeq : r.fromSeq = fromSeq :=
    invariant (I := fun r => r.fromSeq = fromSeq)
      (fun _ _ _ hu _ hs => (step_fromSeq hs).trans hu) rfl hone hrun
  constructor
  · intro hhonest
    have halong := along_of_end (C := fun r a => r.Spares a ∧ r.OneAtATime a) step_inv
      ?_ misled_step (start_inv hmax hfrom) hone hrun ?_
    · exact halong.mono fun _ _ h => h.1
    · intro u a u' hu hone' hnot hs
      exact misled_of_evicted u a u' hu hone' (fun hspares => hnot ⟨hspares, hone'⟩) hs
    · intro hmisled
      have hbad := hmisled.call
      rw [hcall, hfromSeq] at hbad
      exact hbad hhonest
  · intro hspares
    have hinv := invariant step_inv (start_inv hmax hfrom) (hspares.and hone) hrun
    have hgood := hinv.call
    rw [hcall, hfromSeq] at hgood
    exact hgood

def evictedAround : List Action :=
  [.log (.draw "a" "codex" (.messageChunk "1")), .log (.push 0), .log (.send 0),
    .log (.draw "a" "codex" (.messageChunk "2")), .log (.push 1), .log (.send 1), .load,
    .log (.draw "a" "codex" (.messageChunk "3")), .log (.push 2), .read]

/-- A log of two entries, asked for what comes from 2 on: the third event evicts
the first one while the call is under way. -/
theorem honest_evictedAround :
    ∃ r result pushed, run Replay.step (start 2 2) evictedAround = some r ∧
      r.call = .returned result pushed ∧ Honest 2 pushed result := by
  have hone : Along Replay.step Replay.OneAtATime (start 2 2) evictedAround := by decide
  refine ⟨_, _, _, rfl, rfl, ?_⟩
  exact (honest_iff_spares (by decide) (by decide) hone rfl rfl).mpr (by decide)

def evictedBetween : List Action :=
  [.log (.draw "a" "codex" (.messageChunk "1")), .log (.push 0), .log (.send 0), .load,
    .log (.draw "a" "codex" (.messageChunk "2")), .log (.push 1), .read]

/-- A log of one entry, asked for what comes from 1 on: event 1 is evicted
between the two steps, and the replay without it is called complete. -/
theorem evictedBetween_not_honest :
    Along Replay.step Replay.OneAtATime (start 1 1) evictedBetween ∧
      ∃ r, run Replay.step (start 1 1) evictedBetween = some r ∧
        ∃ first second, r.call = .returned (.complete [second]) [first, second] ∧
          first.seq = 1 ∧ ¬ Honest 1 [first, second] (.complete [second]) := by
  refine ⟨by decide, _, rfl, _, _, rfl, rfl, by decide⟩

end Ccgonext.ReplayFrom
