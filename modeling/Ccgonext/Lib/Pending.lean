import Mathlib.Data.List.Basic

/-!
# Tables of waiting calls

Calls wait for one answer each. A call makes a one-shot channel, leaves its
sender in the table under a key, and waits at the receiver; whoever answers
takes the sender out and sends. Call `i` owns channel `i`: `answers` is what has
been sent on it, and the sender is in the table while an entry carries `i`.

`key i` is the key under which call `i` enters itself. In a table where every
entry stands under the key of its call and its channel is empty (`Inv`), an
answer for a key reaches the calls of that key and no others.
-/

namespace Ccgonext.Lib

structure Pending (κ ν : Type*) where
  entries : List (κ × ℕ)
  answers : List (Option ν)
  deriving DecidableEq, Repr

/-- What a receiver finds: nothing yet, the value sent, or no sender any more. -/
inductive Polled (ν : Type*)
  | empty
  | ready (v : ν)
  | closed
  deriving DecidableEq, Repr

namespace Pending
variable {κ ν : Type*}

def new : Pending κ ν := ⟨[], []⟩

def openChannel (p : Pending κ ν) : Pending κ ν := { p with answers := p.answers ++ [none] }

def retain (p : Pending κ ν) (keep : ℕ → Bool) : Pending κ ν :=
  { p with entries := p.entries.filter fun e => keep e.2 }

def send (p : Pending κ ν) (i : ℕ) (v : ν) : Pending κ ν :=
  { p with answers := p.answers.set i (some v) }

def drain (p : Pending κ ν) (v : ν) : Pending κ ν :=
  ⟨[], p.entries.foldl (fun answers e => answers.set e.2 (some v)) p.answers⟩

def poll (p : Pending κ ν) (i : ℕ) : Polled ν :=
  match p.answers[i]? with
  | some (some v) => .ready v
  | _ => if p.entries.any (fun e => e.2 = i) then .empty else .closed

section Keys
variable [DecidableEq κ]

def remove (p : Pending κ ν) (k : κ) : Pending κ ν :=
  { p with entries := p.entries.filter fun e => e.1 ≠ k }

def insert (p : Pending κ ν) (k : κ) (i : ℕ) : Pending κ ν :=
  { p with entries := (p.remove k).entries ++ [(k, i)] }

def resolve (p : Pending κ ν) (k : κ) (v : ν) : Pending κ ν :=
  match p.entries.lookup k with
  | none => p
  | some i => (p.remove k).send i v

end Keys

def Answered (p : Pending κ ν) (i : ℕ) (v : ν) : Prop := p.answers[i]? = some (some v)

instance (p : Pending κ ν) (i : ℕ) (v : ν) [DecidableEq ν] : Decidable (p.Answered i v) :=
  inferInstanceAs (Decidable (_ = _))

structure Inv (p : Pending κ ν) (key : ℕ → Option κ) : Prop where
  keyed : ∀ k i, (k, i) ∈ p.entries → key i = some k
  unanswered : ∀ k i, (k, i) ∈ p.entries → p.answers[i]? = some none

section Rules
variable {p : Pending κ ν} {k k' : κ} {i j : ℕ} {v w : ν}

@[simp] theorem drain_entries : (p.drain v).entries = [] := rfl
@[simp] theorem retain_answers {keep : ℕ → Bool} : (p.retain keep).answers = p.answers := rfl
@[simp] theorem openChannel_entries : p.openChannel.entries = p.entries := rfl

@[simp] theorem mem_retain {keep : ℕ → Bool} :
    (k, i) ∈ (p.retain keep).entries ↔ (k, i) ∈ p.entries ∧ keep i = true := by
  simp [retain]

theorem openChannel_answered : p.openChannel.Answered i v ↔ p.Answered i v := by
  unfold Answered openChannel
  rcases Nat.lt_trichotomy i p.answers.length with hlt | rfl | hgt
  · rw [List.getElem?_append_left hlt]
  · simp
  · have hnone : p.answers[i]? = none := List.getElem?_eq_none_iff.mpr (Nat.le_of_lt hgt)
    have hnone' : (p.answers ++ [none])[i]? = none := by
      rw [List.getElem?_eq_none_iff, List.length_append, List.length_singleton]
      exact hgt
    rw [hnone, hnone']

theorem foldl_send_other {es : List (κ × ℕ)} (h : ∀ e ∈ es, e.2 ≠ i) (as : List (Option ν)) :
    (es.foldl (fun as e => as.set e.2 (some v)) as)[i]? = as[i]? := by
  induction es generalizing as with
  | nil => rfl
  | cons e es ih =>
    rw [List.foldl_cons, ih fun e' he' => h e' (List.mem_cons_of_mem e he')]
    exact List.getElem?_set_ne (h e List.mem_cons_self)

theorem foldl_send_mem {es : List (κ × ℕ)} (h : ∃ e ∈ es, e.2 = i) (as : List (Option ν))
    (hi : i < as.length) :
    (es.foldl (fun as e => as.set e.2 (some v)) as)[i]? = some (some v) := by
  induction es generalizing as with
  | nil =>
    obtain ⟨e, he, -⟩ := h
    exact absurd he List.not_mem_nil
  | cons e es ih =>
    rw [List.foldl_cons]
    by_cases hes : ∃ e' ∈ es, e'.2 = i
    · exact ih hes _ (by rwa [List.length_set])
    · have hlast : e.2 = i := by
        obtain ⟨e', he', hi'⟩ := h
        rcases List.mem_cons.mp he' with rfl | he'
        · exact hi'
        · exact absurd ⟨e', he', hi'⟩ hes
      rw [foldl_send_other fun e' he' hi' => hes ⟨e', he', hi'⟩, hlast]
      exact List.getElem?_set_self hi

theorem drain_answer (h : (k, i) ∈ p.entries) (hi : i < p.answers.length) :
    (p.drain v).Answered i v :=
  foldl_send_mem ⟨_, h, rfl⟩ p.answers hi

theorem drain_other (h : ∀ k, (k, i) ∉ p.entries) : (p.drain v).answers[i]? = p.answers[i]? := by
  refine foldl_send_other (fun e he hi => ?_) p.answers
  subst hi
  exact h e.1 he

theorem drain_length : (p.drain v).answers.length = p.answers.length := by
  have h : ∀ (es : List (κ × ℕ)) (as : List (Option ν)),
      (es.foldl (fun as e => as.set e.2 (some v)) as).length = as.length := by
    intro es
    induction es with
    | nil => intro as; rfl
    | cons e es ih => intro as; rw [List.foldl_cons, ih, List.length_set]
  exact h _ _

theorem poll_closed : p.poll i = .closed ↔
    (∀ v, ¬ p.Answered i v) ∧ ∀ k, (k, i) ∉ p.entries := by
  unfold poll Answered
  cases ha : p.answers[i]? with
  | none => simp
  | some a => cases a <;> simp

theorem poll_empty : p.poll i = .empty ↔
    (∀ v, ¬ p.Answered i v) ∧ ∃ k, (k, i) ∈ p.entries := by
  unfold poll Answered
  cases ha : p.answers[i]? with
  | none => simp
  | some a => cases a <;> simp

theorem poll_ready : p.poll i = .ready v ↔ p.Answered i v := by
  unfold poll Answered
  split
  · next w hw => simp [hw]
  · next hno =>
    constructor
    · intro h
      split at h <;> cases h
    · intro h
      exact absurd h (hno v)

variable [DecidableEq κ]

theorem mem_of_lookup (h : p.entries.lookup k = some i) : (k, i) ∈ p.entries := by
  obtain ⟨l₁, l₂, hl, -⟩ := List.lookup_eq_some_iff.mp h
  rw [hl]
  exact List.mem_append_right l₁ List.mem_cons_self

theorem lookup_of_mem (hkey : ∀ i, (k, i) ∈ p.entries → i = j) (h : (k, j) ∈ p.entries) :
    p.entries.lookup k = some j := by
  cases hl : p.entries.lookup k with
  | none =>
    have hne := List.lookup_eq_none_iff.mp hl _ h
    simp at hne
  | some i => rw [hkey i (mem_of_lookup hl)]

@[simp] theorem mem_remove : (k', i) ∈ (p.remove k).entries ↔ (k', i) ∈ p.entries ∧ k' ≠ k := by
  simp [remove]

@[simp] theorem mem_insert :
    (k', i) ∈ (p.insert k j).entries ↔ (k', i) ∈ p.entries ∧ k' ≠ k ∨ k' = k ∧ i = j := by
  simp [insert, remove]

@[simp] theorem remove_answers : (p.remove k).answers = p.answers := rfl
@[simp] theorem insert_answers : (p.insert k i).answers = p.answers := rfl

theorem lookup_remove : (p.remove k).entries.lookup k = none := by
  rw [List.lookup_eq_none_iff]
  intro e he
  have hne : e.1 ≠ k := of_decide_eq_true (List.mem_filter.mp he).2
  simpa using Ne.symm hne

theorem resolve_of_mem (h : p.entries.lookup k = some i) :
    p.resolve k v = (p.remove k).send i v := by
  simp only [resolve, h]

theorem resolve_of_none (h : p.entries.lookup k = none) : p.resolve k v = p := by
  simp only [resolve, h]

theorem resolve_length : (p.resolve k v).answers.length = p.answers.length := by
  unfold resolve
  split
  · rfl
  · exact List.length_set

@[simp] theorem mem_resolve :
    (k', i) ∈ (p.resolve k v).entries ↔ (k', i) ∈ p.entries ∧ k' ≠ k := by
  cases hl : p.entries.lookup k with
  | none =>
    rw [resolve_of_none hl]
    refine ⟨fun h => ⟨h, ?_⟩, And.left⟩
    rintro rfl
    have hne := List.lookup_eq_none_iff.mp hl _ h
    simp at hne
  | some j =>
    rw [resolve_of_mem hl]
    exact mem_remove

theorem resolve_answer (h : p.entries.lookup k = some i) (hi : i < p.answers.length) :
    (p.resolve k v).Answered i v := by
  rw [resolve_of_mem h]
  exact List.getElem?_set_self hi

theorem resolve_other (h : p.entries.lookup k ≠ some i) :
    (p.resolve k v).answers[i]? = p.answers[i]? := by
  cases hl : p.entries.lookup k with
  | none => rw [resolve_of_none hl]
  | some j =>
    rw [resolve_of_mem hl]
    refine List.getElem?_set_ne ?_
    rintro rfl
    exact h hl

end Rules

namespace Inv
variable {p : Pending κ ν} {key key' : ℕ → Option κ} {k : κ} {i : ℕ} {v : ν}

theorem lt (h : p.Inv key) (hm : (k, i) ∈ p.entries) : i < p.answers.length :=
  (List.getElem?_eq_some_iff.mp (h.unanswered k i hm)).1

theorem new : (Pending.new : Pending κ ν).Inv key :=
  ⟨fun _ _ hm => absurd hm List.not_mem_nil, fun _ _ hm => absurd hm List.not_mem_nil⟩

theorem congr (h : p.Inv key) (hkey : ∀ k i, (k, i) ∈ p.entries → key' i = key i) :
    p.Inv key' :=
  ⟨fun k i hm => (hkey k i hm).trans (h.keyed k i hm), h.unanswered⟩

theorem openChannel (h : p.Inv key) : p.openChannel.Inv key := by
  refine ⟨h.keyed, fun k i hm => ?_⟩
  rw [Pending.openChannel, List.getElem?_append_left (h.lt hm)]
  exact h.unanswered k i hm

theorem retain (h : p.Inv key) (keep : ℕ → Bool) : (p.retain keep).Inv key :=
  ⟨fun k' j hm => h.keyed k' j (mem_retain.mp hm).1,
    fun k' j hm => h.unanswered k' j (mem_retain.mp hm).1⟩

theorem drain : (p.drain v).Inv key :=
  ⟨fun _ _ hm => absurd hm List.not_mem_nil, fun _ _ hm => absurd hm List.not_mem_nil⟩

theorem drain_keeps {w : ν} (h : p.Inv key) (ha : p.Answered i v) : (p.drain w).Answered i v := by
  rw [Answered, drain_other]
  · exact ha
  · intro k hm
    rw [Answered, h.unanswered k i hm] at ha
    cases ha

variable [DecidableEq κ]

theorem insert (h : p.Inv key) (hk : key i = some k) (ha : p.answers[i]? = some none) :
    (p.insert k i).Inv key := by
  constructor
  · intro k' j hm
    rcases mem_insert.mp hm with ⟨hm, -⟩ | ⟨rfl, rfl⟩
    · exact h.keyed k' j hm
    · exact hk
  · intro k' j hm
    rcases mem_insert.mp hm with ⟨hm, -⟩ | ⟨rfl, rfl⟩
    · exact h.unanswered k' j hm
    · exact ha

theorem remove (h : p.Inv key) : (p.remove k).Inv key :=
  ⟨fun k' j hm => h.keyed k' j (mem_remove.mp hm).1,
    fun k' j hm => h.unanswered k' j (mem_remove.mp hm).1⟩

theorem resolve (h : p.Inv key) : (p.resolve k v).Inv key := by
  constructor
  · intro k' j hm
    exact h.keyed k' j (mem_resolve.mp hm).1
  · intro k' j hm
    obtain ⟨hm, hne⟩ := mem_resolve.mp hm
    have hkey := h.keyed k' j hm
    rw [resolve_other]
    · exact h.unanswered k' j hm
    · intro hl
      rw [h.keyed k j (mem_of_lookup hl)] at hkey
      exact hne (Option.some.inj hkey).symm

theorem resolve_keeps {w : ν} (h : p.Inv key) (ha : p.Answered i v) :
    (p.resolve k w).Answered i v := by
  rw [Answered, resolve_other]
  · exact ha
  · intro hl
    rw [Answered, h.unanswered k i (mem_of_lookup hl)] at ha
    cases ha

theorem resolve_frame (h : p.Inv key) (hk : key i ≠ some k) :
    (p.resolve k v).answers[i]? = p.answers[i]? :=
  resolve_other fun hl => hk (h.keyed k i (mem_of_lookup hl))

end Inv

end Pending

end Ccgonext.Lib
