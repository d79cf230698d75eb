import Mathlib.Data.List.Basic

/-!
# Bounded queues between tasks

A queue with one reader and a number of sender handles. A sender waits while the
queue is full and fails once the reader has dropped its end; the reader waits
while the queue is empty and is told that it is over once every handle has been
dropped. `accepted` records what senders put in and `taken` what the reader took
out.
-/

namespace Ccgonext.Lib.Mpsc

variable {α : Type*}

structure Queue (α : Type*) where
  capacity : ℕ
  waiting : List α
  senders : ℕ
  reading : Bool
  accepted : List α
  taken : List α
  deriving DecidableEq, Repr

def Queue.new (capacity senders : ℕ) : Queue α := ⟨capacity, [], senders, true, [], []⟩

inductive Sent (α : Type*)
  | queued (q : Queue α)
  | full
  | closed

inductive Got (α : Type*)
  | value (x : α) (q : Queue α)
  | empty
  | disconnected

namespace Queue

def send (q : Queue α) (x : α) : Sent α :=
  if q.reading then
    if q.waiting.length < q.capacity then
      .queued { q with waiting := q.waiting ++ [x], accepted := q.accepted ++ [x] }
    else .full
  else .closed

def recv (q : Queue α) : Got α :=
  match q.waiting with
  | x :: waiting => .value x { q with waiting := waiting, taken := q.taken ++ [x] }
  | [] => if q.senders = 0 then .disconnected else .empty

def dropSender (q : Queue α) : Queue α := { q with senders := q.senders - 1 }

def dropReader (q : Queue α) : Queue α := { q with reading := false, waiting := [] }

/-- What went in came out, in order, or is still there. -/
structure Sound (q : Queue α) : Prop where
  bound : q.waiting.length ≤ q.capacity
  order : q.taken ++ q.waiting <+: q.accepted
  whole : q.reading = true → q.accepted = q.taken ++ q.waiting

theorem new_sound (capacity senders : ℕ) : Sound (Queue.new capacity senders : Queue α) :=
  ⟨Nat.zero_le _, List.prefix_refl _, fun _ => rfl⟩

theorem send_queued {q q' : Queue α} {x : α} (h : q.send x = .queued q') :
    q.reading = true ∧ q.waiting.length < q.capacity ∧
      q' = { q with waiting := q.waiting ++ [x], accepted := q.accepted ++ [x] } := by
  unfold send at h
  split at h
  · next hread =>
    split at h
    · next hroom =>
      cases h
      exact ⟨hread, hroom, rfl⟩
    · cases h
  · cases h

theorem send_closed {q : Queue α} {x : α} (h : q.send x = .closed) : q.reading = false := by
  unfold send at h
  split at h
  · split at h <;> cases h
  · next hread => exact eq_false_of_ne_true hread

theorem recv_value {q q' : Queue α} {x : α} (h : q.recv = .value x q') :
    ∃ waiting, q.waiting = x :: waiting ∧
      q' = { q with waiting := waiting, taken := q.taken ++ [x] } := by
  unfold recv at h
  split at h
  · next y waiting hq =>
    cases h
    exact ⟨waiting, hq, rfl⟩
  · split at h <;> cases h

theorem recv_disconnected {q : Queue α} (h : q.recv = .disconnected) :
    q.waiting = [] ∧ q.senders = 0 := by
  unfold recv at h
  split at h
  · cases h
  · next hq =>
    split at h
    · next hsenders => exact ⟨hq, hsenders⟩
    · cases h

theorem recv_empty {q : Queue α} (h : q.recv = .empty) : q.waiting = [] ∧ q.senders ≠ 0 := by
  unfold recv at h
  split at h
  · cases h
  · next hq =>
    split at h
    · cases h
    · next hsenders => exact ⟨hq, hsenders⟩

theorem Sound.send {q q' : Queue α} {x : α} (h : Sound q) (hs : q.send x = .queued q') :
    Sound q' := by
  obtain ⟨hread, hroom, rfl⟩ := send_queued hs
  have hwhole := h.whole hread
  refine ⟨?_, ?_, fun _ => ?_⟩
  · rw [List.length_append, List.length_singleton]
    exact hroom
  · refine ⟨[], ?_⟩
    change q.taken ++ (q.waiting ++ [x]) ++ [] = q.accepted ++ [x]
    rw [hwhole, List.append_nil, List.append_assoc]
  · change q.accepted ++ [x] = q.taken ++ (q.waiting ++ [x])
    rw [hwhole, List.append_assoc]

theorem Sound.recv {q q' : Queue α} {x : α} (h : Sound q) (hs : q.recv = .value x q') :
    Sound q' := by
  obtain ⟨waiting, hq, rfl⟩ := recv_value hs
  have hmove : q.taken ++ q.waiting = q.taken ++ [x] ++ waiting := by
    rw [hq, List.append_assoc, List.singleton_append]
  refine ⟨?_, ?_, fun hread => ?_⟩
  · have hbound := h.bound
    rw [hq, List.length_cons] at hbound
    exact Nat.le_of_succ_le hbound
  · rw [← hmove]
    exact h.order
  · rw [← hmove]
    exact h.whole hread

theorem Sound.dropSender {q : Queue α} (h : Sound q) : Sound q.dropSender :=
  ⟨h.bound, h.order, h.whole⟩

theorem Sound.dropReader {q : Queue α} (h : Sound q) : Sound q.dropReader := by
  refine ⟨Nat.zero_le _, ?_, fun hread => by cases hread⟩
  have hprefix := (List.prefix_append q.taken q.waiting).trans h.order
  simpa only [Queue.dropReader, List.append_nil] using hprefix

end Queue

end Ccgonext.Lib.Mpsc
