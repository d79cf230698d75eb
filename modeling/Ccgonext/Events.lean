import Ccgonext.Lib.Broadcast

/-!
# The event log

`EventLog` of `events.rs`. One log is shared by all sessions: `append` draws a
sequence number with `fetch_add`, pushes the event under the write lock, where
the oldest entries are evicted and `min_seq` is stored, and then broadcasts it.
`replay_from` loads `min_seq` first and reads the deque under the lock after
that. The counters are natural numbers: a `u64` that goes up by one for each
event does not wrap. Timestamps are left out, nothing reads them.
-/

namespace Ccgonext.Events
open Lib Lib.Broadcast

structure PlanEntry where
  content : String
  status : String
  deriving DecidableEq, Repr

inductive EventPayload
  | messageChunk (text : String)
  | thoughtChunk (text : String)
  | toolCall (id title status : String)
  | toolCallUpdate (id status : String) (output : Option String)
  | plan (entries : List PlanEntry)
  | permissionRequest (id method description : String)
  | permissionResponse (id : String) (granted : Bool)
  | turnComplete (stopReason : String)
  | stateChange (process turn : String)
  deriving DecidableEq, Repr

def EventPayload.chunkText : EventPayload → Option String
  | .messageChunk text => some text
  | _ => none

structure SessionEvent where
  seq : ℕ
  sessionId : String
  agent : String
  payload : EventPayload
  deriving DecidableEq, Repr

inductive ReplayResult
  | complete (events : List SessionEvent)
  | partly (events : List SessionEvent) (oldestAvailableSeq : ℕ)
  deriving DecidableEq, Repr

def ReplayResult.events : ReplayResult → List SessionEvent
  | .complete events => events
  | .partly events _ => events

structure EventLog where
  events : List SessionEvent
  minSeq : ℕ
  nextSeq : ℕ
  maxEntries : ℕ
  deriving DecidableEq, Repr

namespace EventLog

def new (maxEntries : ℕ) : EventLog := ⟨[], 0, 1, maxEntries⟩

def fetchAdd (log : EventLog) : EventLog := { log with nextSeq := log.nextSeq + 1 }

/-- The part of `append` under the write lock: `push_back`, the eviction loop
and the store of `min_seq`, which an empty deque leaves as it was. -/
def push (log : EventLog) (event : SessionEvent) : EventLog :=
  let events := BoundedQueue.push log.maxEntries log.events event
  { log with
    events := events
    minSeq := match events with
      | [] => log.minSeq
      | first :: _ => first.seq }

/-- The part of `replay_from` under the read lock; `min` was loaded before. -/
def replayFrom (log : EventLog) (min fromSeq : ℕ) : ReplayResult :=
  if 0 < fromSeq ∧ fromSeq < min ∧ 0 < min then .partly log.events min
  else .complete (log.events.filter fun e => fromSeq ≤ e.seq)

@[simp] theorem push_nextSeq (log : EventLog) (e : SessionEvent) :
    (log.push e).nextSeq = log.nextSeq := rfl

@[simp] theorem push_maxEntries (log : EventLog) (e : SessionEvent) :
    (log.push e).maxEntries = log.maxEntries := rfl

@[simp] theorem push_events (log : EventLog) (e : SessionEvent) :
    (log.push e).events = BoundedQueue.push log.maxEntries log.events e := rfl

theorem replayFrom_sublist (log : EventLog) (min fromSeq : ℕ) :
    (log.replayFrom min fromSeq).events.Sublist log.events := by
  unfold replayFrom
  split
  · exact List.Sublist.refl _
  · exact List.filter_sublist

theorem mem_replayFrom {log : EventLog} {min fromSeq : ℕ} {e : SessionEvent}
    (h : e ∈ log.events) (hs : fromSeq ≤ e.seq) :
    e ∈ (log.replayFrom min fromSeq).events := by
  unfold replayFrom
  split
  · exact h
  · simpa [ReplayResult.events] using ⟨h, hs⟩

end EventLog

inductive Stage
  | push
  | send
  | done
  deriving DecidableEq, Repr

structure AppendCall where
  event : SessionEvent
  stage : Stage
  deriving DecidableEq, Repr

/-- A log with the calls of `append` made on it, in the order in which they drew
their numbers, and its broadcast channel. -/
structure LogSys where
  log : EventLog
  appends : List AppendCall
  channel : Channel SessionEvent
  deriving DecidableEq, Repr

inductive LogAction
  | draw (sessionId agent : String) (payload : EventPayload)
  | push (k : ℕ)
  | send (k : ℕ)
  | subscribe
  | recv (i : ℕ)
  deriving DecidableEq, Repr

namespace LogSys

def new (maxEntries : ℕ) : LogSys := ⟨.new maxEntries, [], .new 1024⟩

def drawn (s : LogSys) (sessionId agent : String) (payload : EventPayload) : SessionEvent :=
  ⟨s.log.nextSeq, sessionId, agent, payload⟩

def step (s : LogSys) : LogAction → Option LogSys
  | .draw sessionId agent payload => some
    { s with
      log := s.log.fetchAdd
      appends := s.appends ++ [⟨s.drawn sessionId agent payload, .push⟩] }
  | .push k =>
    match s.appends[k]? with
    | some ⟨event, .push⟩ => some
      { s with log := s.log.push event, appends := s.appends.set k ⟨event, .send⟩ }
    | _ => none
  | .send k =>
    match s.appends[k]? with
    | some ⟨event, .send⟩ => some
      { s with channel := s.channel.send event, appends := s.appends.set k ⟨event, .done⟩ }
    | _ => none
  | .subscribe => some { s with channel := s.channel.subscribe }
  | .recv i => (s.channel.recv i).map fun channel => { s with channel := channel }

theorem step_push {s s' : LogSys} {k : ℕ} (h : s.step (.push k) = some s') :
    ∃ e, s.appends[k]? = some ⟨e, .push⟩ ∧
      s' = { s with log := s.log.push e, appends := s.appends.set k ⟨e, .send⟩ } := by
  simp only [step] at h
  split at h
  · next e he => exact ⟨e, he, (Option.some.inj h).symm⟩
  · cases h

theorem step_send {s s' : LogSys} {k : ℕ} (h : s.step (.send k) = some s') :
    ∃ e, s.appends[k]? = some ⟨e, .send⟩ ∧
      s' = { s with channel := s.channel.send e, appends := s.appends.set k ⟨e, .done⟩ } := by
  simp only [step] at h
  split at h
  · next e he => exact ⟨e, he, (Option.some.inj h).symm⟩
  · cases h

theorem step_recv {s s' : LogSys} {i : ℕ} (h : s.step (.recv i) = some s') :
    ∃ c, s.channel.recv i = some c ∧ s' = { s with channel := c } := by
  simp only [step, Option.map_eq_some_iff] at h
  obtain ⟨c, hc, hs⟩ := h
  exact ⟨c, hc, hs.symm⟩

end LogSys

end Ccgonext.Events
