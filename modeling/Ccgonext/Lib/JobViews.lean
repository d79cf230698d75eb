import Ccgonext.Lib.JobObjects
import Ccgonext.Lib.Pool

/-!
# What a party knows of its job

`View` is what a party knows of its own handles and of its process, and
`View.step` which calls it may make: it uses and closes what it has open, and it
does not resume its process outside of its job. `Accepts` is the weakest
precondition of a list of calls. The calls a party may make keep its own view
true and leave the part of all the others as it was; then a process that runs is
in the job of its party, and a party that has closed its job has no process left.
-/

namespace Ccgonext.Lib.JobObjects

variable {η κ : Type*}

/-- `borrows`: it may ask about a job of somebody else. `leaked` is a handle it
has released. -/
structure View (η : Type*) where
  borrows : Bool
  job : Option η
  leaked : Option η
  limited : Bool
  aux : List η
  root : Option ℕ
  assigned : Bool
  resumed : Bool
  killed : Bool
  deriving DecidableEq, Repr

namespace View

def new (borrows : Bool) : View η :=
  ⟨borrows, none, none, false, [], none, false, false, false⟩

def owns (v : View η) (h : η) : Prop := v.job = some h ∨ v.leaked = some h ∨ h ∈ v.aux

def Fresh (v : View η) : Call η → Prop
  | .createJob (some h) | .openAux (some h) => ¬ v.owns h
  | _ => True

section Keys
variable [DecidableEq η]

def step (v : View η) : Call η → Option (View η)
  | .createJob none | .openAux none | .spawn none => some v
  | .createJob (some h) =>
    if v.job = none ∧ v.leaked = none ∧ v.limited = false ∧ v.root = none then
      some { v with job := some h }
    else none
  | .openAux (some h) => some { v with aux := h :: v.aux }
  | .limit h ok =>
    if v.job = some h then some { v with limited := v.limited || ok } else none
  | .query h => if v.job = some h ∨ v.borrows = true then some v else none
  | .inJob h pid => if (h = none ∨ v.job = h) ∧ v.root = some pid then some v else none
  | .walk h => if h ∈ v.aux then some v else none
  | .spawn (some pid) =>
    if v.root = none ∧ v.limited = true ∧ v.assigned = false ∧ v.resumed = false ∧
        v.killed = false then
      some { v with root := some pid }
    else none
  | .assign h pid ok =>
    if v.job = some h ∧ v.root = some pid ∧ v.limited = true then
      some { v with assigned := v.assigned || ok }
    else none
  | .resume h pid ok =>
    if h ∈ v.aux ∧ v.root = some pid ∧ v.assigned = true then
      some { v with resumed := v.resumed || ok }
    else none
  | .terminate pid ok =>
    if v.root = some pid then some { v with killed := v.killed || ok } else none
  | .terminateJob h _ => if v.job = some h then some v else none
  | .close h .job =>
    if v.job = some h ∧ v.leaked = none then some { v with job := none } else none
  | .close h .aux =>
    if h ∈ v.aux then some { v with aux := v.aux.filter (· ≠ h) } else none
  | .release h =>
    if v.job = some h ∧ v.leaked = none then some { v with job := none, leaked := some h }
    else none

/-- From the view the calls may be made one after the other, and `Q` holds of it
then. -/
def Accepts (Q : View η → Prop) : View η → List (Call η) → Prop
  | v, [] => Q v
  | v, c :: cs => v.Fresh c → ∃ v', v.step c = some v' ∧ Accepts Q v' cs

end Keys

end View

theorem View.fresh_of_uses {v : View η} {c : Call η} {x : η × Kind} (hu : c.uses = some x) :
    v.Fresh c := by
  cases c with
  | createJob h | openAux h => cases hu
  | _ => trivial

theorem View.fresh_of_process {v : View η} {c : Call η} {pid : ℕ} (hp : c.process = some pid) :
    v.Fresh c := by
  cases c with
  | createJob h | openAux h => cases hp
  | _ => trivial

structure Agrees (m : Machine η κ) (k : κ) (v : View η) : Prop where
  job : ∀ h, ⟨h, k, .job⟩ ∈ m.handles ↔ v.job = some h ∨ v.leaked = some h
  aux : ∀ h, ⟨h, k, .aux⟩ ∈ m.handles ↔ h ∈ v.aux
  limited : v.limited = true → k ∈ m.limited
  root : ∀ pid, v.root = some pid → ∃ p, m.procs[pid]? = some p ∧ p.party = k
  unrooted : v.root = none → ∀ (i : ℕ) p, m.procs[i]? = some p → p.party ≠ k
  unassigned : v.assigned = false → ∀ (i : ℕ) p, m.procs[i]? = some p → p.party = k →
    v.root = some i ∧ p.suspended = true ∧ p.job = none
  assigned : v.assigned = true → ∀ (i : ℕ) p, m.procs[i]? = some p → p.party = k →
    p.job = some k
  resumed : v.resumed = true → ∀ pid p, v.root = some pid → m.procs[pid]? = some p →
    p.suspended = false
  killed : v.killed = true → ∀ pid p, v.root = some pid → m.procs[pid]? = some p →
    p.alive = false

section Accepts
variable [DecidableEq η] {Q R : View η → Prop} {v : View η} {c : Call η} {cs ds : List (Call η)}

theorem View.Accepts.mono (hQR : ∀ w, Q w → R w) (h : v.Accepts Q cs) : v.Accepts R cs := by
  induction cs generalizing v with
  | nil => exact hQR v h
  | cons c cs ih =>
    intro hfresh
    obtain ⟨w, hw, hcs⟩ := h hfresh
    exact ⟨w, hw, ih hcs⟩

theorem View.Accepts.append (h : v.Accepts (fun w => w.Accepts Q ds) cs) :
    v.Accepts Q (cs ++ ds) := by
  induction cs generalizing v with
  | nil => exact h
  | cons c cs ih =>
    intro hfresh
    obtain ⟨w, hw, hcs⟩ := h hfresh
    exact ⟨w, hw, ih hcs⟩

theorem View.accepts_cons {w : View η} (hstep : v.Fresh c → v.step c = some w)
    (h : v.Fresh c → w.Accepts Q cs) : v.Accepts Q (c :: cs) :=
  fun hfresh => ⟨w, hstep hfresh, h hfresh⟩

def View.Keeps (v : View η) (cs : List (Call η)) : Prop := v.Accepts (· = v) cs

theorem View.Keeps.accepts (h : v.Keeps cs) (hds : v.Accepts Q ds) : v.Accepts Q (cs ++ ds) :=
  View.Accepts.append (View.Accepts.mono (Q := (· = v)) (fun _ hw => hw ▸ hds) h)

theorem View.Keeps.nil (v : View η) : v.Keeps [] := rfl

theorem View.Keeps.append (h : v.Keeps cs) (hds : v.Keeps ds) : v.Keeps (cs ++ ds) := h.accepts hds

theorem View.Keeps.flatMap {α : Type*} {f : α → List (Call η)} (h : ∀ x, v.Keeps (f x))
    (xs : List α) : v.Keeps (xs.flatMap f) := by
  induction xs with
  | nil => exact .nil v
  | cons x xs ih => exact (h x).append ih

theorem filter_cons_ne {x : η} {xs : List η} (hx : x ∉ xs) :
    (x :: xs).filter (fun y => decide (y ≠ x)) = xs := by
  rw [List.filter_cons_of_neg (by simp), List.filter_eq_self]
  intro y hy
  exact decide_eq_true fun hyx => hx (hyx ▸ hy)

theorem View.Keeps.bracket {x : η} (h : ∀ w : View η, w = { v with aux := x :: v.aux } →
    x ∉ v.aux → w.Keeps cs) : v.Keeps (.openAux (some x) :: cs ++ [.close x .aux]) := by
  refine View.accepts_cons (fun _ => rfl) fun hfresh => ?_
  have hx : x ∉ v.aux := fun hx => hfresh (.inr (.inr hx))
  refine (h _ rfl hx).accepts (View.accepts_cons (fun _ => if_pos List.mem_cons_self) fun _ => ?_)
  simp only [filter_cons_ne hx]
  rfl

end Accepts

theorem Agrees.new {m : Machine η κ} {k : κ} (hhandles : ∀ x ∈ m.handles, x.party ≠ k)
    (hprocs : ∀ (i : ℕ) p, m.procs[i]? = some p → p.party ≠ k) (borrows : Bool) :
    Agrees m k (.new borrows) where
  job h := ⟨fun hh => absurd rfl (hhandles _ hh), by rintro (h | h) <;> cases h⟩
  aux h := ⟨fun hh => absurd rfl (hhandles _ hh), fun h => absurd h List.not_mem_nil⟩
  limited := nofun
  root := nofun
  unrooted _ := hprocs
  unassigned _ i p hp hk := absurd hk (hprocs i p hp)
  assigned := nofun
  resumed := nofun
  killed := nofun

section Frame
variable {m m' : Machine η κ} {k : κ} {v w : View η} {f : ℕ → Process κ → Process κ}

theorem Agrees.of_untouched (h : Agrees m k v) (hu : Untouched k m m') : Agrees m' k v where
  job x := (hu.handles _ rfl).trans (h.job x)
  aux x := (hu.handles _ rfl).trans (h.aux x)
  limited hl := hu.limited (h.limited hl)
  root pid hpid := by
    obtain ⟨p, hp, hk⟩ := h.root pid hpid
    exact ⟨p, (hu.procs pid p hk).mpr hp, hk⟩
  unrooted hr i p hp hk := h.unrooted hr i p ((hu.procs i p hk).mp hp) hk
  unassigned ha i p hp hk := h.unassigned ha i p ((hu.procs i p hk).mp hp) hk
  assigned ha i p hp hk := h.assigned ha i p ((hu.procs i p hk).mp hp) hk
  resumed hres pid p hpid hp := by
    obtain ⟨q, hq, hk⟩ := h.root pid hpid
    have hq' := (hu.procs pid q hk).mpr hq
    rw [hp] at hq'
    cases hq'
    exact h.resumed hres pid p hpid hq
  killed hkill pid p hpid hp := by
    obtain ⟨q, hq, hk⟩ := h.root pid hpid
    have hq' := (hu.procs pid q hk).mpr hq
    rw [hp] at hq'
    cases hq'
    exact h.killed hkill pid p hpid hq

structure Kept (m m' : Machine η κ) (k : κ) (w : View η) : Prop where
  sound : Sound m'
  agrees : Agrees m' k w
  others : ∀ j ≠ k, Untouched j m m'

theorem Kept.same (hs : Sound m) (ha : Agrees m k w) : Kept m m k w :=
  ⟨hs, ha, fun j _ => .refl j m⟩

theorem Changes.agrees (h : Changes m m' k f) (ha : Agrees m k v)
    (hown : w.job = v.job ∧ w.leaked = v.leaked ∧ w.aux = v.aux)
    (hlimited : w.limited = v.limited) (hroot : w.root = v.root)
    (hun : w.assigned = false → v.assigned = false ∧ ∀ (i : ℕ) p, m.procs[i]? = some p →
      p.party = k → (f i p).suspended = p.suspended ∧ (f i p).job = p.job)
    (has : w.assigned = true → ∀ (i : ℕ) p, m.procs[i]? = some p → p.party = k →
      (f i p).job = some k)
    (hres : w.resumed = true → ∀ pid p, v.root = some pid → m.procs[pid]? = some p →
      (f pid p).suspended = false)
    (hkill : w.killed = true → ∀ pid p, v.root = some pid → m.procs[pid]? = some p →
      (f pid p).alive = false) : Agrees m' k w where
  job x := by rw [h.handles, hown.1, hown.2.1]; exact ha.job x
  aux x := by rw [h.handles, hown.2.2]; exact ha.aux x
  limited hl := by rw [h.limited]; exact ha.limited (hlimited ▸ hl)
  root pid hpid := by
    obtain ⟨p, hp, hk⟩ := ha.root pid (hroot ▸ hpid)
    exact ⟨f pid p, by rw [h.procs, hp, Option.map_some], (h.party pid p).trans hk⟩
  unrooted hr i p hp := by
    obtain ⟨q, hq, rfl⟩ := h.inv hp
    rw [h.party]
    exact ha.unrooted (hroot ▸ hr) i q hq
  unassigned hw i p hp hk := by
    obtain ⟨q, hq, rfl⟩ := h.inv hp
    obtain ⟨hv, hsame⟩ := hun hw
    rw [h.party] at hk
    obtain ⟨hsusp, hjob⟩ := hsame i q hq hk
    rw [hroot, hsusp, hjob]
    exact ha.unassigned hv i q hq hk
  assigned hw i p hp hk := by
    obtain ⟨q, hq, rfl⟩ := h.inv hp
    rw [h.party] at hk
    exact has hw i q hq hk
  resumed hw pid p hpid hp := by
    obtain ⟨q, hq, rfl⟩ := h.inv hp
    exact hres hw pid q (hroot ▸ hpid) hq
  killed hw pid p hpid hp := by
    obtain ⟨q, hq, rfl⟩ := h.inv hp
    exact hkill hw pid q (hroot ▸ hpid) hq

theorem Kept.killJob [DecidableEq κ] (hs : Sound m) (ha : Agrees m k v) :
    Kept m (m.killJob k) k v := by
  have hch := Machine.killJob_changes fun i p hp hj => (hs.member i p k hp hj).1
  refine ⟨hch.sound hs fun i p _ => .inl rfl, hch.agrees ha ⟨rfl, rfl, rfl⟩ rfl rfl
    (fun hv => ⟨hv, fun _ _ _ _ => ⟨rfl, rfl⟩⟩) ha.assigned ha.resumed
    fun hkill pid p hpid hp => ?_, fun j hj => hch.untouched hj⟩
  simp only [ha.killed hkill pid p hpid hp, Bool.false_and]

theorem Kept.spawn {pid : ℕ} (hs : Sound m) (ha : Agrees m k v) (hroot : v.root = none)
    (hassigned : v.assigned = false) (hresumed : v.resumed = false) (hkilled : v.killed = false)
    (hpid : pid = m.procs.length) :
    Kept m { m with procs := m.procs ++ [⟨k, none, true, true⟩] } k
      { v with root := some pid } := by
  subst hpid
  have hnone := ha.unrooted hroot
  refine ⟨⟨hs.keys, fun i p j hp hj => ?_⟩, ⟨ha.job, ha.aux, ha.limited, ?_, nofun, ?_, ?_, ?_,
    ?_⟩,
    fun j hj => ⟨fun _ _ => .rfl, id, fun i p hp => ⟨fun hi => ?_, fun hi => ?_⟩⟩⟩
  · rcases Pool.spawn_cases hp with hp | ⟨-, rfl⟩
    · exact hs.member i p j hp hj
    · cases hj
  · intro pid hpid
    cases hpid
    exact ⟨_, List.getElem?_concat_length .., rfl⟩
  · intro _ i p hp hk
    rcases Pool.spawn_cases hp with hp | ⟨rfl, rfl⟩
    · exact absurd hk (hnone i p hp)
    · exact ⟨rfl, rfl, rfl⟩
  · intro hv
    exact absurd (hassigned.symm.trans hv) Bool.false_ne_true
  · intro hv
    exact absurd (hresumed.symm.trans hv) Bool.false_ne_true
  · intro hv
    exact absurd (hkilled.symm.trans hv) Bool.false_ne_true
  · rcases Pool.spawn_cases hi with hi | ⟨-, rfl⟩
    · exact hi
    · exact absurd hp.symm hj
  · rw [List.getElem?_append_left (List.getElem?_eq_some_iff.mp hi).1]
    exact hi

theorem Kept.limit (hs : Sound m) (ha : Agrees m k v) :
    Kept m { m with limited := k :: m.limited } k { v with limited := true } where
  sound := ⟨hs.keys, fun i p j hp hj => by
    obtain ⟨hparty, hlim, hopen⟩ := hs.member i p j hp hj
    exact ⟨hparty, List.mem_cons_of_mem k hlim, hopen⟩⟩
  agrees := ⟨ha.job, ha.aux, fun _ => List.mem_cons_self, ha.root, ha.unrooted, ha.unassigned,
    ha.assigned, ha.resumed, ha.killed⟩
  others _ _ := ⟨fun _ _ => .rfl, List.mem_cons_of_mem k, fun _ _ _ => .rfl⟩

section Update
variable {p : Process κ} {h : η} {pid : ℕ} (hroot : v.root = some pid)
include hroot

theorem Agrees.root_party (ha : Agrees m k v) (hp : m.procs[pid]? = some p) : p.party = k := by
  obtain ⟨q, hq, hk⟩ := ha.root pid hroot
  rw [hp] at hq
  cases hq
  exact hk

theorem Kept.assign (hs : Sound m) (ha : Agrees m k v) (hjob : v.job = some h)
    (hlim : v.limited = true) :
    Kept m (m.update pid fun p => { p with job := some k }) k { v with assigned := true } := by
  have hch := Machine.update_changes (g := fun p => { p with job := some k })
    (fun p hp => ha.root_party hroot hp) (fun _ => rfl) fun _ => id
  refine ⟨hch.sound hs fun i p _ => ?_, hch.agrees ha ⟨rfl, rfl, rfl⟩ rfl rfl nofun
    (fun _ i p hp hk => ?_) (fun hres pid' p hpid hp => ?_) (fun hkill pid' p hpid hp => ?_),
    fun j hj => hch.untouched hj⟩
  · split
    · exact .inr ⟨rfl, ha.limited hlim, h, (ha.job h).mpr (.inl hjob)⟩
    · exact .inl rfl
  · cases hva : v.assigned with
    | false =>
      have hi := (ha.unassigned hva i p hp hk).1
      rw [hroot] at hi
      rw [if_pos (Option.some.inj hi)]
    | true =>
      split
      · rfl
      · exact ha.assigned hva i p hp hk
  · have hruns := ha.resumed hres pid' p hpid hp
    split
    · exact hruns
    · exact hruns
  · have hdead := ha.killed hkill pid' p hpid hp
    split
    · exact hdead
    · exact hdead

theorem Kept.resume (hs : Sound m) (ha : Agrees m k v) (hassigned : v.assigned = true) :
    Kept m (m.update pid fun p => { p with suspended := false }) k { v with resumed := true } := by
  have hch := Machine.update_changes (g := fun p => { p with suspended := false })
    (fun p hp => ha.root_party hroot hp) (fun _ => rfl) fun _ => id
  refine ⟨hch.sound hs fun i p _ => .inl ?_, hch.agrees ha ⟨rfl, rfl, rfl⟩ rfl rfl
    (fun hw => ?_) (fun hw i p hp hk => ?_) (fun _ pid' p hpid _ => ?_)
    (fun hkill pid' p hpid hp => ?_), fun j hj => hch.untouched hj⟩
  · split <;> rfl
  · exact absurd (hassigned.symm.trans hw) Bool.true_eq_false.mp
  · have hjob := ha.assigned hw i p hp hk
    split
    · exact hjob
    · exact hjob
  · rw [hroot] at hpid
    rw [if_pos (Option.some.inj hpid)]
  · have hdead := ha.killed hkill pid' p hpid hp
    split
    · exact hdead
    · exact hdead

theorem Kept.terminate (hs : Sound m) (ha : Agrees m k v) :
    Kept m (m.update pid fun p => { p with alive := false }) k { v with killed := true } := by
  have hch := Machine.update_changes (g := fun p => { p with alive := false })
    (fun p hp => ha.root_party hroot hp) (fun _ => rfl) nofun
  refine ⟨hch.sound hs fun i p _ => .inl ?_, hch.agrees ha ⟨rfl, rfl, rfl⟩ rfl rfl
    (fun hw => ⟨hw, fun i p _ _ => ?_⟩) (fun hw i p hp hk => ?_)
    (fun hres pid' p hpid hp => ?_) (fun _ pid' p hpid _ => ?_), fun j hj => hch.untouched hj⟩
  · split <;> rfl
  · split
    · exact ⟨rfl, rfl⟩
    · exact ⟨rfl, rfl⟩
  · have hjob := ha.assigned hw i p hp hk
    split
    · exact hjob
    · exact hjob
  · have hruns := ha.resumed hres pid' p hpid hp
    split
    · exact hruns
    · exact hruns
  · rw [hroot] at hpid
    rw [if_pos (Option.some.inj hpid)]

end Update

end Frame

section Calls
variable [DecidableEq η] {m m' : Machine η κ} {k : κ} {v w : View η} {h : η} {pid : ℕ}

theorem Kept.addHandle (hs : Sound m) (ha : Agrees m k v) {kind : Kind}
    (hadd : m.addHandle ⟨h, k, kind⟩ = some m')
    (hjob : ∀ x, w.job = some x ∨ w.leaked = some x ↔
      (kind = .job ∧ x = h) ∨ v.job = some x ∨ v.leaked = some x)
    (haux : ∀ x, x ∈ w.aux ↔ (kind = .aux ∧ x = h) ∨ x ∈ v.aux)
    (hrest : w.limited = v.limited ∧ w.root = v.root ∧ w.assigned = v.assigned ∧
      w.resumed = v.resumed ∧ w.killed = v.killed) : Kept m m' k w := by
  unfold Machine.addHandle at hadd
  split at hadd
  · cases hadd
  next hnew =>
  cases hadd
  obtain ⟨hlimited, hroot, hassigned, hresumed, hkilled⟩ := hrest
  refine ⟨⟨List.nodup_cons.mpr ⟨hnew, hs.keys⟩, ?_⟩, ?_, fun j hj => ⟨?_, id, fun _ _ _ => .rfl⟩⟩
  · intro i p j hp hj
    obtain ⟨hparty, hlim, hopen⟩ := hs.member i p j hp hj
    exact ⟨hparty, hlim, fun hal => (hopen hal).imp fun x hx => List.mem_cons_of_mem _ hx⟩
  · refine ⟨fun x => ?_, fun x => ?_, ?_, ?_, ?_, ?_, ?_, ?_, ?_⟩
    · rw [hjob, List.mem_cons, ← ha.job x, Handle.mk.injEq]
      simp only [true_and, and_comm, eq_comm]
    · rw [haux, List.mem_cons, ← ha.aux x, Handle.mk.injEq]
      simp only [true_and, and_comm, eq_comm]
    · rw [hlimited]; exact ha.limited
    · rw [hroot]; exact ha.root
    · rw [hroot]; exact ha.unrooted
    · rw [hassigned, hroot]; exact ha.unassigned
    · rw [hassigned]; exact ha.assigned
    · rw [hresumed, hroot]; exact ha.resumed
    · rw [hkilled, hroot]; exact ha.killed
  · intro x hx
    rw [List.mem_cons]
    refine ⟨fun hmem => hmem.resolve_left ?_, .inr⟩
    rintro rfl
    exact hj hx.symm

theorem drop_agrees (hs : Sound m) (ha : Agrees m k v) {kind : Kind}
    (hmem : ⟨h, k, kind⟩ ∈ m.handles)
    (hjob : ∀ x, w.job = some x ∨ w.leaked = some x ↔
      (v.job = some x ∨ v.leaked = some x) ∧ ¬ (kind = .job ∧ x = h))
    (haux : ∀ x, x ∈ w.aux ↔ x ∈ v.aux ∧ ¬ (kind = .aux ∧ x = h))
    (hrest : w.limited = v.limited ∧ w.root = v.root ∧ w.assigned = v.assigned ∧
      w.resumed = v.resumed ∧ w.killed = v.killed) :
    Agrees (m.drop h) k w ∧ ∀ j ≠ k, Untouched j m (m.drop h) := by
  have huniq : ∀ x ∈ m.handles, x.value = h ↔ x = ⟨h, k, kind⟩ := by
    intro x hx
    constructor
    · exact fun hv => hs.eq_of_value hx hmem hv
    · rintro rfl
      rfl
  obtain ⟨hlimited, hroot, hassigned, hresumed, hkilled⟩ := hrest
  refine ⟨⟨fun x => ?_, fun x => ?_, ?_, ?_, ?_, ?_, ?_, ?_, ?_⟩, fun j hj =>
    ⟨fun x hx => ?_, id, fun _ _ _ => .rfl⟩⟩
  · rw [Machine.mem_drop, hjob, ← ha.job x]
    refine and_congr_right fun hx => not_congr ((huniq _ hx).trans ?_)
    rw [Handle.mk.injEq]
    constructor
    · exact fun ⟨hxh, _, hkind⟩ => ⟨hkind.symm, hxh⟩
    · exact fun ⟨hkind, hxh⟩ => ⟨hxh, rfl, hkind.symm⟩
  · rw [Machine.mem_drop, haux, ← ha.aux x]
    refine and_congr_right fun hx => not_congr ((huniq _ hx).trans ?_)
    rw [Handle.mk.injEq]
    constructor
    · exact fun ⟨hxh, _, hkind⟩ => ⟨hkind.symm, hxh⟩
    · exact fun ⟨hkind, hxh⟩ => ⟨hxh, rfl, hkind.symm⟩
  · rw [hlimited]; exact ha.limited
  · rw [hroot]; exact ha.root
  · rw [hroot]; exact ha.unrooted
  · rw [hassigned, hroot]; exact ha.unassigned
  · rw [hassigned]; exact ha.assigned
  · rw [hresumed, hroot]; exact ha.resumed
  · rw [hkilled, hroot]; exact ha.killed
  · rw [Machine.mem_drop, and_iff_left_iff_imp]
    rintro hmem' hv
    rw [(huniq x hmem').mp hv] at hx
    exact hj hx.symm

theorem View.step_borrows {c : Call η} (hv : v.step c = some w) : w.borrows = v.borrows := by
  unfold View.step at hv
  split at hv
  all_goals try split at hv
  all_goals cases hv
  all_goals rfl

theorem View.step_root {c : Call η} (hv : v.step c = some w) (hc : ∀ pid, c ≠ .spawn (some pid)) :
    w.root = v.root := by
  unfold View.step at hv
  split at hv
  all_goals try split at hv
  all_goals cases hv
  all_goals try rfl
  exact absurd rfl (hc _)

theorem View.step_assigned {c : Call η} (hv : v.step c = some w) (h : v.assigned = true) :
    w.assigned = true := by
  unfold View.step at hv
  split at hv
  all_goals try split at hv
  all_goals cases hv
  all_goals simp [h]

theorem Agrees.fresh (ha : Agrees m k v) [DecidableEq κ] {c : Call η}
    (hc : m.call k c = some m') : v.Fresh c := by
  have hadd : ∀ {x : Handle η κ}, m.addHandle x = some m' → ¬ v.owns x.value := by
    intro x hx hown
    unfold Machine.addHandle at hx
    split at hx
    · cases hx
    next hnew =>
    refine hnew (List.mem_map.mpr ?_)
    rcases hown with h | h | h
    · exact ⟨_, (ha.job _).mpr (.inl h), rfl⟩
    · exact ⟨_, (ha.job _).mpr (.inr h), rfl⟩
    · exact ⟨_, (ha.aux _).mpr h, rfl⟩
  cases c with
  | createJob h =>
    cases h with
    | none => trivial
    | some h => exact hadd hc
  | openAux h =>
    cases h with
    | none => trivial
    | some h => exact hadd hc
  | _ => trivial

theorem Agrees.job_stays (ha : Agrees m k v) {c : Call η} (hv : v.step c = some w)
    (ha' : Agrees m' k w) (hmem : ⟨h, k, .job⟩ ∈ m.handles) (hne : c ≠ .close h .job) :
    ⟨h, k, .job⟩ ∈ m'.handles := by
  rw [ha'.job]
  have hold := (ha.job h).mp hmem
  cases c with
  | createJob x =>
    cases x with
    | none =>
      cases hv
      exact hold
    | some x =>
      simp only [View.step] at hv
      split at hv <;> cases hv
      next hguard => simp [hguard.1, hguard.2.1] at hold
  | close x kind =>
    cases kind with
    | job =>
      simp only [View.step] at hv
      split at hv <;> cases hv
      next hguard =>
      rw [hguard.1, hguard.2] at hold
      simp only [Option.some.injEq, reduceCtorEq, or_false] at hold
      exact absurd (hold ▸ rfl) hne
    | aux =>
      simp only [View.step] at hv
      split at hv <;> cases hv
      exact hold
  | release x =>
    simp only [View.step] at hv
    split at hv <;> cases hv
    next hguard =>
    rw [hguard.1, hguard.2] at hold
    simp only [reduceCtorEq, or_false] at hold
    exact .inr hold
  | openAux x =>
    cases x <;> cases hv <;> exact hold
  | spawn x =>
    cases x with
    | none =>
      cases hv
      exact hold
    | some x =>
      simp only [View.step] at hv
      split at hv <;> cases hv
      exact hold
  | _ =>
    simp only [View.step] at hv
    split at hv <;> cases hv
    exact hold

theorem View.step_process {c : Call η} (hv : v.step c = some w) (hp : c.process = some pid) :
    v.root = some pid := by
  cases c <;> simp only [Call.process, Option.some.injEq, reduceCtorEq] at hp
  all_goals
    subst hp
    simp only [View.step] at hv
    split at hv <;> cases hv
    rename_i hguard
  case assign => exact hguard.2.1
  case inJob => exact hguard.2
  case terminate => exact hguard

theorem Agrees.uses_open (ha : Agrees m k v) {c : Call η} (hv : v.step c = some w) {kind : Kind}
    (hb : v.borrows = false ∨ kind = .aux) (hu : c.uses = some (h, kind)) :
    ⟨h, k, kind⟩ ∈ m.handles := by
  cases c <;> simp only [Call.uses, Option.map_eq_some_iff, Option.some.injEq, Prod.mk.injEq,
    reduceCtorEq] at hu
  case inJob job pid =>
    obtain ⟨x, rfl, rfl, rfl⟩ := hu
    simp only [View.step] at hv
    split at hv <;> cases hv
    next hguard => exact (ha.job _).mpr (.inl (hguard.1.resolve_left (Option.some_ne_none x)))
  case close h' kind' =>
    obtain ⟨rfl, rfl⟩ := hu
    cases kind' <;> simp only [View.step] at hv <;> split at hv <;> cases hv
    case job => next hguard => exact (ha.job _).mpr (.inl hguard.1)
    case aux => next haux => exact (ha.aux _).mpr haux
  all_goals
    obtain ⟨rfl, rfl⟩ := hu
    simp only [View.step] at hv
    split at hv <;> cases hv
    rename_i hguard
  case walk => exact (ha.aux _).mpr hguard
  case resume => exact (ha.aux _).mpr hguard.1
  case query =>
    simp only [reduceCtorEq, or_false] at hb
    rw [hb] at hguard
    exact (ha.job _).mpr (.inl (hguard.resolve_right Bool.false_ne_true))
  case limit | terminateJob => exact (ha.job _).mpr (.inl hguard)
  case assign | release => exact (ha.job _).mpr (.inl hguard.1)

variable [DecidableEq κ]

theorem Kept.close (hs : Sound m) (ha : Agrees m k v) {kind : Kind}
    (hmem : ⟨h, k, kind⟩ ∈ m.handles)
    (hjob : ∀ x, w.job = some x ∨ w.leaked = some x ↔
      (v.job = some x ∨ v.leaked = some x) ∧ ¬ (kind = .job ∧ x = h))
    (haux : ∀ x, x ∈ w.aux ↔ x ∈ v.aux ∧ ¬ (kind = .aux ∧ x = h))
    (hrest : w.limited = v.limited ∧ w.root = v.root ∧ w.assigned = v.assigned ∧
      w.resumed = v.resumed ∧ w.killed = v.killed) : Kept m (m.close h) k w := by
  obtain ⟨hag, hun⟩ := drop_agrees hs ha hmem hjob haux hrest
  have hkeys : ((m.drop h).handles.map Handle.value).Nodup :=
    hs.keys.sublist (List.filter_sublist.map _)
  -- A member that lives on has a handle left, unless the job was the one of `h`.
  have hsound : (∀ (i : ℕ) p, m.procs[i]? = some p → p.alive = true → p.job = some k →
      m.jobOf h = some k → k ∈ m.limited → ∃ x, ⟨x, k, .job⟩ ∈ (m.drop h).handles) →
      Sound (m.drop h) := by
    intro hleft
    refine ⟨hkeys, fun i p j hp hj => ?_⟩
    obtain ⟨hparty, hlim, hopen⟩ := hs.member i p j hp hj
    refine ⟨hparty, hlim, fun hal => ?_⟩
    obtain ⟨x, hx⟩ := hopen hal
    by_cases hxh : x = h
    · subst hxh
      have hjk := hs.jobOf hx
      have heq := hs.eq_of_value hx hmem rfl
      cases heq
      exact hleft i p hp hal hj hjk hlim
    · exact ⟨x, Machine.mem_drop.mpr ⟨hx, hxh⟩⟩
  unfold Machine.close
  split
  · next hj =>
    refine ⟨hsound fun i p _ _ _ hjk => ?_, hag, hun⟩
    rw [hj] at hjk
    cases hjk
  · next j hj =>
    have heq := hs.eq_of_value (Machine.jobOf_mem hj) hmem rfl
    cases heq
    split
    · next hlast =>
      have hch := Machine.killJob_changes (m := m.drop h)
        fun i p hp hjk => (hs.member i p k hp hjk).1
      refine ⟨⟨hkeys, fun i p j hp hpj => ?_⟩, ?_, fun j hj => ?_⟩
      · obtain ⟨q, hq, rfl⟩ := hch.inv hp
        obtain ⟨hparty, hlim, hopen⟩ := hs.member i q j hq hpj
        refine ⟨hparty, hlim, fun hal => ?_⟩
        simp only [Bool.and_eq_true, Bool.not_eq_true', decide_eq_false_iff_not] at hal
        obtain ⟨x, hx⟩ := hopen hal.1
        refine ⟨x, Machine.mem_drop.mpr ⟨hx, ?_⟩⟩
        rintro rfl
        have heq := hs.eq_of_value hx hmem rfl
        cases heq
        exact hal.2 hpj
      · refine hch.agrees hag ⟨rfl, rfl, rfl⟩ rfl rfl
          (fun hv => ⟨hv, fun _ _ _ _ => ⟨rfl, rfl⟩⟩) hag.assigned hag.resumed
          fun hkill pid p hpid hp => ?_
        simp only [hag.killed hkill pid p hpid hp, Bool.false_and]
      · have hd := hun j hj
        have hk := hch.untouched hj
        exact ⟨fun x hx => (hk.handles x hx).trans (hd.handles x hx), fun hl => hk.limited
          (hd.limited hl), fun i p hp => (hk.procs i p hp).trans (hd.procs i p hp)⟩
    · next hmore =>
      refine ⟨hsound fun i p _ _ _ _ hlim => ?_, hag, hun⟩
      simp only [hlim, true_and, not_forall, not_not] at hmore
      obtain ⟨⟨x, party, kind⟩, hx, rfl, rfl⟩ := hmore
      exact ⟨x, hx⟩

/-- The calls a party may make keep the machine sound, its own view true, and the
part of everybody else as it was. -/
theorem call_kept (hs : Sound m) (ha : Agrees m k v) {c : Call η} (hv : v.step c = some w)
    (hc : m.call k c = some m') : Kept m m' k w := by
  cases c with
  | createJob h =>
    cases h with
    | none =>
      cases hv
      cases hc
      exact .same hs ha
    | some h =>
      simp only [View.step] at hv
      split at hv <;> cases hv
      next hguard =>
      refine .addHandle hs ha hc (fun x => ?_) (fun x => ?_) ⟨rfl, rfl, rfl, rfl, rfl⟩
      · simp [hguard.1, hguard.2.1, eq_comm]
      · simp
  | openAux h =>
    cases h with
    | none =>
      cases hv
      cases hc
      exact .same hs ha
    | some h =>
      cases hv
      refine .addHandle hs ha hc (fun x => ?_) (fun x => ?_) ⟨rfl, rfl, rfl, rfl, rfl⟩
      · simp
      · simp
  | limit h ok =>
    simp only [View.step] at hv
    split at hv <;> cases hv
    next hjob =>
    cases hc
    cases ok with
    | false =>
      rw [Bool.or_false]
      exact .same hs ha
    | true =>
      rw [if_pos rfl, hs.jobOf ((ha.job h).mpr (.inl hjob)), Bool.or_true]
      exact .limit hs ha
  | query _ | inJob _ _ | walk _ =>
    simp only [View.step] at hv
    split at hv <;> cases hv
    cases hc
    exact .same hs ha
  | spawn pid =>
    cases pid with
    | none =>
      cases hv
      cases hc
      exact .same hs ha
    | some pid =>
      simp only [View.step] at hv
      simp only [Machine.call] at hc
      split at hv <;> cases hv
      next hguard =>
      obtain ⟨hroot, -, hassigned, hresumed, hkilled⟩ := hguard
      split at hc <;> cases hc
      next hpid =>
      exact .spawn hs ha hroot hassigned hresumed hkilled hpid
  | assign h pid ok =>
    simp only [View.step] at hv
    split at hv <;> cases hv
    next hguard =>
    obtain ⟨hjob, hroot, hlim⟩ := hguard
    cases hc
    cases ok with
    | false =>
      rw [Bool.or_false]
      exact .same hs ha
    | true =>
      rw [if_pos rfl, hs.jobOf ((ha.job h).mpr (.inl hjob)), Bool.or_true]
      exact .assign hroot hs ha hjob hlim
  | resume h pid ok =>
    simp only [View.step] at hv
    split at hv <;> cases hv
    next hguard =>
    obtain ⟨-, hroot, hassigned⟩ := hguard
    cases hc
    cases ok with
    | false =>
      rw [Bool.or_false]
      exact .same hs ha
    | true =>
      rw [if_pos rfl, Bool.or_true]
      exact .resume hroot hs ha hassigned
  | terminate pid ok =>
    simp only [View.step] at hv
    split at hv <;> cases hv
    next hroot =>
    cases hc
    cases ok with
    | false =>
      rw [Bool.or_false]
      exact .same hs ha
    | true =>
      rw [if_pos rfl, Bool.or_true]
      exact .terminate hroot hs ha
  | terminateJob h ok =>
    simp only [View.step] at hv
    split at hv <;> cases hv
    next hjob =>
    cases hc
    cases ok with
    | false => exact .same hs ha
    | true =>
      rw [if_pos rfl, hs.jobOf ((ha.job h).mpr (.inl hjob))]
      exact .killJob hs ha
  | close h kind =>
    cases hc
    cases kind with
    | job =>
      simp only [View.step] at hv
      split at hv <;> cases hv
      next hguard =>
      obtain ⟨hjob, hleaked⟩ := hguard
      refine .close hs ha (show ⟨h, k, .job⟩ ∈ m.handles from (ha.job h).mpr (.inl hjob))
        (fun x => ?_) (fun x => ?_)
        ⟨rfl, rfl, rfl, rfl, rfl⟩
      · simp [hjob, hleaked, eq_comm]
      · simp
    | aux =>
      simp only [View.step] at hv
      split at hv <;> cases hv
      next haux =>
      refine .close hs ha (show ⟨h, k, .aux⟩ ∈ m.handles from (ha.aux h).mpr haux)
        (fun x => ?_) (fun x => ?_)
        ⟨rfl, rfl, rfl, rfl, rfl⟩
      · simp
      · simp
  | release h =>
    cases hc
    simp only [View.step] at hv
    split at hv <;> cases hv
    next hguard =>
    obtain ⟨hjob, hleaked⟩ := hguard
    refine .same hs ⟨fun x => ?_, ha.aux, ha.limited, ha.root, ha.unrooted, ha.unassigned,
      ha.assigned, ha.resumed, ha.killed⟩
    rw [ha.job x, hjob, hleaked]
    simp

end Calls

section Processes
variable {m m' : Machine η κ} {k : κ} {v : View η} {i : ℕ} {p : Process κ}

theorem Agrees.contained (ha : Agrees m k v) (hs : Sound m) (hp : m.procs[i]? = some p)
    (hk : p.party = k) (hrun : p.suspended = false) : p.job = some k ∧ k ∈ m.limited := by
  cases hv : v.assigned with
  | false =>
    have hsusp := (ha.unassigned hv i p hp hk).2.1
    rw [hrun] at hsusp
    cases hsusp
  | true =>
    have hjob := ha.assigned hv i p hp hk
    exact ⟨hjob, (hs.member i p k hp hjob).2.1⟩

theorem Agrees.tree_dead (ha : Agrees m k v) (hs : Sound m)
    (hgone : v.job = none ∧ v.leaked = none) (hkill : v.assigned = true ∨ v.killed = true)
    (hp : m.procs[i]? = some p) (hk : p.party = k) : p.alive = false := by
  cases hv : v.assigned with
  | true =>
    by_contra hal
    obtain ⟨-, -, hopen⟩ := hs.member i p k hp (ha.assigned hv i p hp hk)
    obtain ⟨h, hh⟩ := hopen (Bool.not_eq_false _ ▸ hal)
    rcases (ha.job h).mp hh with hj | hj
    · rw [hgone.1] at hj
      cases hj
    · rw [hgone.2] at hj
      cases hj
  | false =>
    rw [hv] at hkill
    have hroot := (ha.unassigned hv i p hp hk).1
    exact ha.killed (hkill.resolve_left Bool.false_ne_true) i p hroot hp

variable [DecidableEq κ]

theorem fork_kept {pid : ℕ} (hs : Sound m) (hm : m.event (.fork pid) = some m') :
    Sound m' ∧ ∀ k (v : View η), Agrees m k v → Agrees m' k v := by
  simp only [Machine.event] at hm
  split at hm
  · cases hm
  next q hq =>
  split at hm
  case isFalse => cases hm
  next hrun =>
  cases hm
  simp only [Bool.and_eq_true, Bool.not_eq_true'] at hrun
  refine ⟨⟨hs.keys, fun i p j hp hj => ?_⟩, fun k v ha => ⟨ha.job, ha.aux, ha.limited,
    fun pid hpid => ?_, fun hr i p hp => ?_, fun hv i p hp hk => ?_, fun hv i p hp hk => ?_,
    fun hres pid' p hpid hp => ?_, fun hkill pid' p hpid hp => ?_⟩⟩
  · rcases Pool.spawn_cases hp with hp | ⟨-, rfl⟩
    · exact hs.member i p j hp hj
    · obtain ⟨hparty, hlim, hopen⟩ := hs.member pid q j hq hj
      exact ⟨hparty, hlim, fun _ => hopen hrun.1⟩
  · obtain ⟨p, hp, hk⟩ := ha.root pid hpid
    exact ⟨p, by rw [List.getElem?_append_left (List.getElem?_eq_some_iff.mp hp).1, hp], hk⟩
  · rcases Pool.spawn_cases hp with hp | ⟨-, rfl⟩
    · exact ha.unrooted hr i p hp
    · exact ha.unrooted hr pid q hq
  · rcases Pool.spawn_cases hp with hp | ⟨-, rfl⟩
    · exact ha.unassigned hv i p hp hk
    · have hsusp := (ha.unassigned hv pid q hq hk).2.1
      rw [hrun.2] at hsusp
      cases hsusp
  · rcases Pool.spawn_cases hp with hp | ⟨-, rfl⟩
    · exact ha.assigned hv i p hp hk
    · exact ha.assigned hv pid q hq hk
  · rcases Pool.spawn_cases hp with hp | ⟨-, rfl⟩
    · exact ha.resumed hres pid' p hpid hp
    · rfl
  · rcases Pool.spawn_cases hp with hp | ⟨rfl, -⟩
    · exact ha.killed hkill pid' p hpid hp
    · obtain ⟨p, hp, -⟩ := ha.root _ hpid
      rw [List.getElem?_eq_none_iff.mpr (Nat.le_refl _)] at hp
      cases hp

theorem exit_kept {pid : ℕ} (hs : Sound m) (hm : m.event (.exit pid) = some m') :
    Sound m' ∧ ∀ k (v : View η), Agrees m k v → Agrees m' k v := by
  simp only [Machine.event] at hm
  split at hm <;> cases hm
  have hinv : ∀ {i : ℕ} {p}, (m.update pid fun p => { p with alive := false }).procs[i]? = some p →
      ∃ q, m.procs[i]? = some q ∧ p.party = q.party ∧ p.job = q.job ∧ p.suspended = q.suspended ∧
        (p.alive = true → q.alive = true) := by
    intro i p hp
    rw [Machine.getElem?_update] at hp
    obtain ⟨q, hq, rfl⟩ := Option.map_eq_some_iff.mp hp
    refine ⟨q, hq, ?_⟩
    split
    · exact ⟨rfl, rfl, rfl, by intros; contradiction⟩
    · exact ⟨rfl, rfl, rfl, id⟩
  refine ⟨⟨hs.keys, fun i p j hp hj => ?_⟩, fun k v ha => ⟨ha.job, ha.aux, ha.limited,
    fun pid' hpid => ?_, fun hr i p hp => ?_, fun hv i p hp hk => ?_, fun hv i p hp hk => ?_,
    fun hres pid' p hpid hp => ?_, fun hkill pid' p hpid hp => ?_⟩⟩
  · obtain ⟨q, hq, hparty, hjob, -, hal⟩ := hinv hp
    rw [hjob] at hj
    obtain ⟨hp', hlim, hopen⟩ := hs.member i q j hq hj
    exact ⟨hparty.trans hp', hlim, fun h => hopen (hal h)⟩
  · obtain ⟨p, hp, hk⟩ := ha.root pid' hpid
    rw [Machine.getElem?_update, hp, Option.map_some]
    refine ⟨_, rfl, ?_⟩
    split
    · exact hk
    · exact hk
  · obtain ⟨q, hq, hparty, -⟩ := hinv hp
    rw [hparty]
    exact ha.unrooted hr i q hq
  · obtain ⟨q, hq, hparty, hjob, hsusp, -⟩ := hinv hp
    rw [hjob, hsusp]
    exact ha.unassigned hv i q hq (hparty ▸ hk)
  · obtain ⟨q, hq, hparty, hjob, -⟩ := hinv hp
    rw [hjob]
    exact ha.assigned hv i q hq (hparty ▸ hk)
  · obtain ⟨q, hq, -, -, hsusp, -⟩ := hinv hp
    rw [hsusp]
    exact ha.resumed hres pid' q hpid hq
  · obtain ⟨q, hq, -, -, -, hal⟩ := hinv hp
    have hdead := ha.killed hkill pid' q hpid hq
    cases hpal : p.alive with
    | false => rfl
    | true => rw [hal hpal] at hdead; cases hdead

def Aftermath (m : Machine η κ) : Prop :=
  ∀ (i : ℕ) p, m.procs[i]? = some p → p.alive = true → p.suspended = true ∧ p.job = none

theorem ended_aftermath (hs : Sound m) (hview : ∀ p ∈ m.procs, ∃ v : View η, Agrees m p.party v)
    (hm : m.event .ended = some m') : Aftermath m' := by
  cases hm
  intro i p hp hal
  obtain ⟨q, hq, rfl⟩ := Option.map_eq_some_iff.mp (Machine.getElem?_killWhere _ ▸ hp)
  simp only [Bool.and_eq_true, Bool.not_eq_true'] at hal
  obtain ⟨v, ha⟩ := hview q (List.mem_of_getElem? hq)
  cases hv : v.assigned with
  | false => exact (ha.unassigned hv i q hq rfl).2
  | true =>
    have hjob := ha.assigned hv i q hq rfl
    have hlim := (hs.member i q q.party hq hjob).2.1
    rw [hjob] at hal
    simp [hlim] at hal

end Processes

end Ccgonext.Lib.JobObjects
