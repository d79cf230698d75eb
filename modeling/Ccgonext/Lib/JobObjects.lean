import Mathlib.Data.List.Nodup

/-!
# Handles, jobs and processes

A program opens handles, and a value that it has open is given to no other
object before it is closed. A process that runs may fork, and a process is in the
job its parent was in. A job that is limited kills its members when the last
handle to it is closed, also when the program ends and all its handles with it.

Several parties of the program make their calls in turn. A party makes one job
and starts one process, suspended; the other processes of its tree come of that
one. A call comes with what it has come to, since the system decides that.
-/

namespace Ccgonext.Lib.JobObjects

inductive Kind
  | job
  | aux
  deriving DecidableEq, Repr

structure Handle (η κ : Type*) where
  value : η
  party : κ
  kind : Kind
  deriving DecidableEq, Repr

/-- `party` has started the first process of the tree, `job` is the party whose
job the process is in. -/
structure Process (κ : Type*) where
  party : κ
  job : Option κ
  alive : Bool
  suspended : Bool
  deriving DecidableEq, Repr

structure Machine (η κ : Type*) where
  handles : List (Handle η κ)
  limited : List κ
  procs : List (Process κ)
  deriving DecidableEq, Repr

/-- A call with what it came to: `none` and `false` are failures. `walk` reads an
entry of a snapshot, `inJob` asks whether a process is in the job, or in any, and
`release` gives a handle up without a call. -/
inductive Call (η : Type*)
  | createJob (h : Option η)
  | limit (h : η) (ok : Bool)
  | query (h : η)
  | spawn (pid : Option ℕ)
  | assign (h : η) (pid : ℕ) (ok : Bool)
  | inJob (h : Option η) (pid : ℕ)
  | openAux (h : Option η)
  | walk (h : η)
  | resume (h : η) (pid : ℕ) (ok : Bool)
  | terminate (pid : ℕ) (ok : Bool)
  | terminateJob (h : η) (ok : Bool)
  | close (h : η) (kind : Kind)
  | release (h : η)
  deriving DecidableEq, Repr

def Call.uses {η : Type*} : Call η → Option (η × Kind)
  | .limit h _ | .query h | .assign h _ _ | .terminateJob h _ | .release h => some (h, .job)
  | .inJob h _ => h.map fun h => (h, .job)
  | .walk h | .resume h _ _ => some (h, .aux)
  | .close h kind => some (h, kind)
  | .createJob _ | .spawn _ | .openAux _ | .terminate _ _ => none

def Call.process {η : Type*} : Call η → Option ℕ
  | .assign _ pid _ | .inJob _ pid | .terminate pid _ => some pid
  | _ => none

inductive Event
  | fork (pid : ℕ)
  | exit (pid : ℕ)
  | ended
  deriving DecidableEq, Repr

variable {η κ : Type*}

namespace Machine

def new : Machine η κ := ⟨[], [], []⟩

def killWhere (m : Machine η κ) (doomed : Process κ → Bool) : Machine η κ :=
  { m with procs := m.procs.map fun p => { p with alive := p.alive && !doomed p } }

def update (m : Machine η κ) (pid : ℕ) (f : Process κ → Process κ) : Machine η κ :=
  { m with procs := m.procs.modify pid f }

section Keys
variable [DecidableEq η] [DecidableEq κ]

def addHandle (m : Machine η κ) (x : Handle η κ) : Option (Machine η κ) :=
  if x.value ∈ m.handles.map Handle.value then none
  else some { m with handles := x :: m.handles }

def jobOf (m : Machine η κ) (h : η) : Option κ :=
  (m.handles.find? fun x => x.value = h ∧ x.kind = .job).map Handle.party

def killJob (m : Machine η κ) (j : κ) : Machine η κ := m.killWhere fun p => p.job = some j

def drop (m : Machine η κ) (h : η) : Machine η κ :=
  { m with handles := m.handles.filter fun x => x.value ≠ h }

def close (m : Machine η κ) (h : η) : Machine η κ :=
  match m.jobOf h with
  | none => m.drop h
  | some j =>
    if j ∈ m.limited ∧ ∀ x ∈ (m.drop h).handles, ¬ (x.party = j ∧ x.kind = .job) then
      (m.drop h).killJob j
    else m.drop h

/-- The call made by a party, or `none` where the system does not answer so. -/
def call (k : κ) (m : Machine η κ) : Call η → Option (Machine η κ)
  | .createJob none | .openAux none | .spawn none | .query _ | .inJob _ _ | .walk _ |
    .release _ => some m
  | .createJob (some h) => m.addHandle ⟨h, k, .job⟩
  | .openAux (some h) => m.addHandle ⟨h, k, .aux⟩
  | .limit h ok =>
    some (if ok then { m with limited := (m.jobOf h).toList ++ m.limited } else m)
  | .spawn (some pid) =>
    if pid = m.procs.length then some { m with procs := m.procs ++ [⟨k, none, true, true⟩] }
    else none
  | .assign h pid ok =>
    some (if ok then m.update pid fun p => { p with job := (m.jobOf h).or p.job } else m)
  | .resume _ pid ok =>
    some (if ok then m.update pid fun p => { p with suspended := false } else m)
  | .terminate pid ok =>
    some (if ok then m.update pid fun p => { p with alive := false } else m)
  | .terminateJob h ok =>
    some (if ok then (m.jobOf h).elim m m.killJob else m)
  | .close h _ => some (m.close h)

def event (m : Machine η κ) : Event → Option (Machine η κ)
  | .fork pid =>
    match m.procs[pid]? with
    | none => none
    | some p =>
      if p.alive && !p.suspended then
        some { m with procs := m.procs ++ [⟨p.party, p.job, true, false⟩] }
      else none
  | .exit pid =>
    if (m.procs[pid]?).any Process.alive then
      some (m.update pid fun p => { p with alive := false })
    else none
  | .ended =>
    some { m.killWhere fun p => p.job.any (· ∈ m.limited) with handles := [] }

end Keys

end Machine

/-- A handle value is open once, and a member of a job comes of the party that
has made the job. While it lives there is a handle to its job. -/
structure Sound (m : Machine η κ) : Prop where
  keys : (m.handles.map Handle.value).Nodup
  member : ∀ (i : ℕ) p j, m.procs[i]? = some p → p.job = some j →
    p.party = j ∧ j ∈ m.limited ∧ (p.alive = true → ∃ h, ⟨h, j, .job⟩ ∈ m.handles)

structure Untouched (k : κ) (m m' : Machine η κ) : Prop where
  handles : ∀ x : Handle η κ, x.party = k → (x ∈ m'.handles ↔ x ∈ m.handles)
  limited : k ∈ m.limited → k ∈ m'.limited
  procs : ∀ (i : ℕ) p, p.party = k → (m'.procs[i]? = some p ↔ m.procs[i]? = some p)

section Machine
variable {m m' : Machine η κ} {h : η} {j k : κ} {x : Handle η κ} {p : Process κ} {i pid : ℕ}

theorem Machine.getElem?_update (f : Process κ → Process κ) :
    (m.update pid f).procs[i]? = (m.procs[i]?).map fun p => if pid = i then f p else p := by
  simp only [Machine.update, List.getElem?_modify]
  rfl

theorem Machine.getElem?_killWhere (doomed : Process κ → Bool) :
    (m.killWhere doomed).procs[i]? =
      (m.procs[i]?).map fun p => { p with alive := p.alive && !doomed p } :=
  List.getElem?_map ..

theorem Sound.eq_of_value (hs : Sound m) {y : Handle η κ} (hx : x ∈ m.handles)
    (hy : y ∈ m.handles) (hxy : x.value = y.value) : x = y :=
  List.inj_on_of_nodup_map hs.keys hx hy hxy

section Keys
variable [DecidableEq η]

theorem Machine.mem_drop {x : Handle η κ} :
    x ∈ (m.drop h).handles ↔ x ∈ m.handles ∧ x.value ≠ h := by
  simp [Machine.drop]

theorem Machine.jobOf_mem (hm : m.jobOf h = some k) : ⟨h, k, .job⟩ ∈ m.handles := by
  obtain ⟨x, hx, rfl⟩ := Option.map_eq_some_iff.mp hm
  have hmem := List.mem_of_find?_eq_some hx
  have hp := List.find?_some hx
  rw [decide_eq_true_eq] at hp
  obtain ⟨value, party, kind⟩ := x
  obtain ⟨rfl, rfl⟩ := hp
  exact hmem

theorem Sound.jobOf (hs : Sound m) (hmem : ⟨h, k, .job⟩ ∈ m.handles) :
    m.jobOf h = some k := by
  cases hj : m.jobOf h with
  | some k' =>
    have heq := hs.eq_of_value hmem (Machine.jobOf_mem hj) rfl
    cases heq
    rfl
  | none =>
    have hnone := List.find?_eq_none.mp (Option.map_eq_none_iff.mp hj) _ hmem
    simp at hnone

end Keys

end Machine

section Changes
variable {m m' : Machine η κ} {j k : κ}

theorem Untouched.refl (j : κ) (m : Machine η κ) : Untouched j m m :=
  ⟨fun _ _ => Iff.rfl, id, fun _ _ _ => Iff.rfl⟩

structure Changes (m m' : Machine η κ) (k : κ) (f : ℕ → Process κ → Process κ) : Prop where
  handles : m'.handles = m.handles
  limited : m'.limited = m.limited
  procs : ∀ i : ℕ, m'.procs[i]? = (m.procs[i]?).map (f i)
  own : ∀ (i : ℕ) p, m.procs[i]? = some p → f i p ≠ p → p.party = k
  party : ∀ i p, (f i p).party = p.party
  alive : ∀ i p, (f i p).alive = true → p.alive = true

variable {f : ℕ → Process κ → Process κ}

theorem Changes.inv (h : Changes m m' k f) {i : ℕ} {p : Process κ} (hp : m'.procs[i]? = some p) :
    ∃ q, m.procs[i]? = some q ∧ f i q = p := by
  rw [h.procs] at hp
  exact Option.map_eq_some_iff.mp hp

theorem Changes.untouched (h : Changes m m' k f) (hj : j ≠ k) : Untouched j m m' where
  handles x _ := by rw [h.handles]
  limited hl := h.limited ▸ hl
  procs i p hp := by
    constructor
    · intro hi
      obtain ⟨q, hq, rfl⟩ := h.inv hi
      by_cases hf : f i q = q
      · rwa [hf]
      · exact absurd ((h.party i q).symm.trans hp).symm (by rw [h.own i q hq hf]; exact hj)
    · intro hi
      rw [h.procs, hi, Option.map_some]
      by_cases hf : f i p = p
      · rw [hf]
      · exact absurd (hp.symm.trans (h.own i p hi hf)) hj

theorem Changes.sound (h : Changes m m' k f) (hs : Sound m)
    (hjob : ∀ (i : ℕ) p, m.procs[i]? = some p → (f i p).job = p.job ∨
      (f i p).job = some k ∧ k ∈ m.limited ∧ ∃ x, ⟨x, k, .job⟩ ∈ m.handles) : Sound m' where
  keys := h.handles ▸ hs.keys
  member i p j hp hj := by
    obtain ⟨q, hq, rfl⟩ := h.inv hp
    rw [h.party, h.limited, h.handles]
    rcases hjob i q hq with hsame | ⟨hnew, hlim, hopen⟩
    · obtain ⟨hparty, hlim, hopen⟩ := hs.member i q j hq (hsame ▸ hj)
      exact ⟨hparty, hlim, fun ha => hopen (h.alive i q ha)⟩
    · rw [hnew] at hj
      cases hj
      have hparty : q.party = k := by
        by_cases hf : f i q = q
        · exact (hs.member i q k hq (hf ▸ hnew)).1
        · exact h.own i q hq hf
      exact ⟨hparty, hlim, fun _ => hopen⟩

theorem Machine.update_changes {pid : ℕ} {g : Process κ → Process κ}
    (hown : ∀ p, m.procs[pid]? = some p → p.party = k) (hparty : ∀ p, (g p).party = p.party)
    (halive : ∀ p, (g p).alive = true → p.alive = true) :
    Changes m (m.update pid g) k fun i p => if pid = i then g p else p where
  handles := rfl
  limited := rfl
  procs i := m.getElem?_update g
  own i p hp hne := by
    split at hne
    · next hi =>
      subst hi
      exact hown p hp
    · exact absurd rfl hne
  party i p := by
    split
    · exact hparty p
    · rfl
  alive i p hp := by
    split at hp
    · exact halive p hp
    · exact hp

theorem Machine.killJob_changes [DecidableEq κ]
    (hown : ∀ (i : ℕ) p, m.procs[i]? = some p → p.job = some k → p.party = k) :
    Changes m (m.killJob k) k fun _ p => { p with alive := p.alive && !decide (p.job = some k) }
    where
  handles := rfl
  limited := rfl
  procs i := Machine.getElem?_killWhere _
  own i p hp hne := by
    by_cases hj : p.job = some k
    · exact hown i p hp hj
    · simp [hj] at hne
  party _ _ := rfl
  alive _ p hp := by
    simp only [Bool.and_eq_true] at hp
    exact hp.1

end Changes

def Machine.Dead (m : Machine η κ) (pid : ℕ) : Prop :=
  ∃ p, m.procs[pid]? = some p ∧ p.alive = false

section Dead
variable {m m' : Machine η κ} {pid : ℕ}

theorem Machine.Dead.update (h : m.Dead pid) {pid' : ℕ} {f : Process κ → Process κ}
    (hf : ∀ p, (f p).alive = true → p.alive = true) : (m.update pid' f).Dead pid := by
  obtain ⟨p, hp, hdead⟩ := h
  rw [Machine.Dead, Machine.getElem?_update, hp]
  refine ⟨_, rfl, ?_⟩
  split
  · cases hal : (f p).alive with
    | false => rfl
    | true => rw [hf p hal] at hdead; cases hdead
  · exact hdead

theorem Machine.Dead.killWhere (h : m.Dead pid) (doomed : Process κ → Bool) :
    (m.killWhere doomed).Dead pid := by
  obtain ⟨p, hp, hdead⟩ := h
  rw [Machine.Dead, Machine.getElem?_killWhere, hp]
  exact ⟨_, rfl, by simp only [hdead, Bool.false_and]⟩

theorem Machine.Dead.concat (h : m.Dead pid) (q : Process κ) :
    Machine.Dead { m with procs := m.procs ++ [q] } pid := by
  obtain ⟨p, hp, hdead⟩ := h
  exact ⟨p, by rw [List.getElem?_append_left (List.getElem?_eq_some_iff.mp hp).1, hp], hdead⟩

variable [DecidableEq κ]

theorem Machine.Dead.event (h : m.Dead pid) {e : Event} (hm : m.event e = some m') :
    m'.Dead pid := by
  cases e with
  | fork pid' =>
    simp only [Machine.event] at hm
    split at hm
    · cases hm
    split at hm <;> cases hm
    exact h.concat _
  | exit pid' =>
    simp only [Machine.event] at hm
    split at hm <;> cases hm
    exact h.update (by intros; contradiction)
  | ended =>
    cases hm
    exact h.killWhere _

variable [DecidableEq η]

theorem Machine.Dead.close (h : m.Dead pid) (x : η) : (m.close x).Dead pid := by
  have hdrop : (m.drop x).Dead pid := h
  unfold Machine.close
  split
  · exact hdrop
  split
  · exact hdrop.killWhere _
  · exact hdrop

theorem Machine.Dead.call (h : m.Dead pid) {k : κ} {c : Call η} (hc : m.call k c = some m') :
    m'.Dead pid := by
  have hadd : ∀ {x : Handle η κ}, m.addHandle x = some m' → m'.Dead pid := by
    intro x hx
    unfold Machine.addHandle at hx
    split at hx <;> cases hx
    exact h
  cases c with
  | createJob x =>
    cases x with
    | none =>
      cases hc
      exact h
    | some x => exact hadd hc
  | openAux x =>
    cases x with
    | none =>
      cases hc
      exact h
    | some x => exact hadd hc
  | spawn x =>
    cases x with
    | none =>
      cases hc
      exact h
    | some x =>
      simp only [Machine.call] at hc
      split at hc <;> cases hc
      exact h.concat _
  | limit x ok =>
    cases hc
    split
    · exact h
    · exact h
  | query _ | inJob _ _ | walk _ | release _ =>
    cases hc
    exact h
  | assign x pid' ok | resume x pid' ok =>
    cases hc
    split
    · exact h.update fun _ => id
    · exact h
  | terminate pid' ok =>
    cases hc
    split
    · exact h.update (by intros; contradiction)
    · exact h
  | terminateJob x ok =>
    cases hc
    split
    · cases m.jobOf x with
      | none => exact h
      | some j => exact h.killWhere _
    · exact h
  | close x kind =>
    cases hc
    exact h.close x

end Dead

end Ccgonext.Lib.JobObjects
