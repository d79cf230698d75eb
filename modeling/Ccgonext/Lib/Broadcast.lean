import Ccgonext.Lib.BoundedQueue

/-!
# Broadcast channels

Every receiver is handed a copy of each value sent after it subscribed. The
channel keeps the newest `capacity` values a receiver has not read; one that
falls behind is told at its next `recv` how many it lost and goes on with the
oldest that is left. `taken` records what a receiver was handed.
-/

namespace Ccgonext.Lib.Broadcast
open BoundedQueue

variable {α : Type*}

structure Receiver (α : Type*) where
  queue : List α
  lagged : ℕ
  taken : List α
  deriving DecidableEq, Repr

def Receiver.new : Receiver α := ⟨[], 0, []⟩

def Receiver.offer (capacity : ℕ) (r : Receiver α) (x : α) : Receiver α :=
  { r with
    queue := push capacity r.queue x
    lagged := r.lagged + ((r.queue.length + 1) - capacity) }

def Receiver.dropped (capacity : ℕ) (r : Receiver α) (x : α) : List α :=
  (r.queue ++ [x]).take ((r.queue.length + 1) - capacity)

inductive Recv (α : Type*)
  | value (x : α)
  | lagged (n : ℕ)
  | empty
  deriving DecidableEq, Repr

def Receiver.recv (r : Receiver α) : Recv α × Receiver α :=
  if 0 < r.lagged then (.lagged r.lagged, { r with lagged := 0 })
  else
    match r.queue with
    | [] => (.empty, r)
    | x :: q => (.value x, { r with queue := q, taken := r.taken ++ [x] })

structure Channel (α : Type*) where
  capacity : ℕ
  receivers : List (Receiver α)
  deriving DecidableEq, Repr

def Channel.new (capacity : ℕ) : Channel α := ⟨capacity, []⟩

def Channel.send (c : Channel α) (x : α) : Channel α :=
  { c with receivers := c.receivers.map fun r => r.offer c.capacity x }

def Channel.subscribe (c : Channel α) : Channel α :=
  { c with receivers := c.receivers ++ [Receiver.new] }

def Channel.recv (c : Channel α) (i : ℕ) : Option (Channel α) :=
  match c.receivers[i]? with
  | none => none
  | some r => some { c with receivers := c.receivers.set i r.recv.2 }

/-- What a receiver was handed, followed by what it will be handed next. -/
def Receiver.stream (r : Receiver α) : List α := r.taken ++ r.queue

section Stream
variable {r : Receiver α} {x y : α}

theorem Receiver.stream_recv (r : Receiver α) : r.recv.2.stream = r.stream := by
  unfold Receiver.recv
  split
  · rfl
  · split
    · rfl
    · next x q hq => simp [Receiver.stream, hq]

theorem Receiver.recv_of_lagged_eq_zero (h : r.lagged = 0) :
    r.recv = (.empty, r) ∧ r.queue = [] ∨
      ∃ x q, r.queue = x :: q ∧
        r.recv = (.value x, { r with queue := q, taken := r.taken ++ [x] }) := by
  unfold Receiver.recv
  rw [if_neg (by omega)]
  cases hq : r.queue with
  | nil => exact .inl ⟨rfl, rfl⟩
  | cons x q => exact .inr ⟨x, q, rfl, rfl⟩

theorem Receiver.mem_stream_offer {capacity : ℕ} (h : y ∈ (r.offer capacity x).stream) :
    y ∈ r.stream ∨ y = x := by
  simp only [Receiver.stream, Receiver.offer, List.mem_append] at h ⊢
  rcases h with h | h
  · exact .inl (.inl h)
  · rcases mem_push h with h | h
    · exact .inl (.inr h)
    · exact .inr h

theorem Receiver.offer_room {capacity : ℕ} (h : r.queue.length < capacity) (x : α) :
    r.offer capacity x = { r with queue := r.queue ++ [x] } := by
  have hlag : r.queue.length + 1 - capacity = 0 := by omega
  have hfit : (r.queue ++ [x]).length - capacity = 0 := by
    simp only [List.length_append, List.length_cons, List.length_nil]
    omega
  simp only [Receiver.offer, push, trim_eq_rtake, List.rtake, hlag, hfit, Nat.add_zero,
    List.drop_zero]

theorem Receiver.dropped_append (capacity : ℕ) (r : Receiver α) (x : α) :
    r.dropped capacity x ++ (r.offer capacity x).queue = r.queue ++ [x] := by
  have hlen : (r.queue ++ [x]).length = r.queue.length + 1 := by simp
  simp only [Receiver.dropped, Receiver.offer, push, trim_eq_rtake, List.rtake, hlen]
  exact List.take_append_drop _ _

theorem Receiver.mem_offer {capacity : ℕ} (h : y ∈ r.stream ∨ y = x) :
    y ∈ (r.offer capacity x).stream ∨ y ∈ r.dropped capacity x := by
  have hsplit : y ∈ r.queue ++ [x] →
      y ∈ r.dropped capacity x ∨ y ∈ (r.offer capacity x).queue := by
    rw [← Receiver.dropped_append capacity, List.mem_append]
    exact id
  simp only [Receiver.stream, List.mem_append] at h hsplit ⊢
  rcases h with (htaken | hqueue) | rfl
  · exact .inl (.inl htaken)
  · exact (hsplit (.inl hqueue)).symm.imp_left .inr
  · exact (hsplit (.inr (List.mem_singleton_self _))).symm.imp_left .inr

theorem Receiver.recv_cases (r : Receiver α) :
    r.recv = (.lagged r.lagged, { r with lagged := 0 }) ∨ r.recv = (.empty, r) ∨
      ∃ x q, r.queue = x :: q ∧
        r.recv = (.value x, { r with queue := q, taken := r.taken ++ [x] }) := by
  unfold Receiver.recv
  split
  · exact .inl rfl
  · cases hq : r.queue with
    | nil => exact .inr (.inl rfl)
    | cons x q => exact .inr (.inr ⟨x, q, rfl, rfl⟩)

theorem Receiver.stream_offer_sublist (capacity : ℕ) (r : Receiver α) (x : α) :
    (r.offer capacity x).stream.Sublist (r.stream ++ [x]) := by
  simp only [Receiver.stream, Receiver.offer, List.append_assoc]
  exact (List.Sublist.refl _).append (push_suffix r.queue x).sublist

/-- A receiver keeps getting values in an order `R` as long as what is sent
comes after everything it has got or is going to get. -/
theorem Receiver.offer_pairwise {R : α → α → Prop} {capacity : ℕ}
    (h : r.stream.Pairwise R) (hx : ∀ y ∈ r.stream, R y x) :
    (r.offer capacity x).stream.Pairwise R := by
  refine List.Pairwise.sublist (r.stream_offer_sublist capacity x) ?_
  rw [List.pairwise_append]
  refine ⟨h, List.pairwise_singleton R x, ?_⟩
  intro y hy z hz
  rw [List.mem_singleton] at hz
  subst hz
  exact hx y hy

theorem Receiver.taken_pairwise {R : α → α → Prop} (h : r.stream.Pairwise R) :
    r.taken.Pairwise R :=
  List.Pairwise.sublist (List.sublist_append_left r.taken r.queue) h

end Stream

theorem Channel.forall_send {P Q : Receiver α → Prop} {c : Channel α} {x : α}
    (h : ∀ r ∈ c.receivers, P r) (hPQ : ∀ r ∈ c.receivers, P r → Q (r.offer c.capacity x)) :
    ∀ r ∈ (c.send x).receivers, Q r := by
  simp only [Channel.send, List.mem_map, forall_exists_index, and_imp]
  rintro _ r hr rfl
  exact hPQ r hr (h r hr)

theorem Channel.forall_subscribe {P : Receiver α → Prop} {c : Channel α}
    (h : ∀ r ∈ c.receivers, P r) (hnew : P Receiver.new) :
    ∀ r ∈ c.subscribe.receivers, P r := by
  intro r hr
  simp only [Channel.subscribe, List.mem_append, List.mem_singleton] at hr
  rcases hr with hr | rfl
  · exact h r hr
  · exact hnew

theorem Channel.forall_recv {P : Receiver α → Prop} {c c' : Channel α} {i : ℕ}
    (h : ∀ r ∈ c.receivers, P r) (hP : ∀ r, P r → P r.recv.2) (hc : c.recv i = some c') :
    ∀ r ∈ c'.receivers, P r := by
  unfold Channel.recv at hc
  split at hc
  · cases hc
  · next r hr =>
    cases hc
    intro q hq
    rcases List.mem_or_eq_of_mem_set hq with hq | rfl
    · exact h q hq
    · exact hP r (h r (List.mem_of_getElem? hr))

end Ccgonext.Lib.Broadcast
