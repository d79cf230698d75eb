import Ccgonext.WindowsJob

/-!
# The calls of the functions on a job

Every function of `acp/windows_job.rs` makes calls that its party may make, in
any case of what the system answers: `spawn` from a new view, the methods of the
wrapper from the view of a child that is owned. `Post` is what a party knows when
the function is over.
-/

namespace Ccgonext.WindowsJob
open Lib Lib.Runs Lib.JobObjects

variable {η : Type}

structure Closed (w : View η) : Prop where
  job : w.job = none
  leaked : w.leaked = none
  aux : w.aux = []

structure Ready (child : JobOwnedChild η) (w : View η) : Prop where
  job : ∃ h, child.job = some h ∧ w.job = some h
  leaked : w.leaked = none
  aux : w.aux = []
  root : w.root = some child.rootPid
  inner : ∃ c, child.inner = some c ∧ c.pid = child.rootPid
  assigned : w.assigned = true
  resumed : w.resumed = true

structure Away (w : View η) : Prop where
  job : w.job = none
  leaked : ∃ h, w.leaked = some h
  aux : w.aux = []

/-- What a party knows when no function is in progress. Where `careful` says that no
kill on drop fails, a failed `spawn` has left no process. -/
def Post (careful : Prop) : Owner η → View η → Prop
  | .starting (.error _), w | .failed _, w =>
    Closed w ∧ (careful → w.root = none ∨ w.assigned = true ∨ w.killed = true)
  | .starting (.ok child), w | .owned child, w => Ready child w
  | .taken child, w => Away w ∧ ∀ c, child = some c → w.root = some c.pid
  | .released, w => Away w
  | .dropped, w => Closed w ∧ w.assigned = true

section Status
variable {child : JobOwnedChild η} {v : View η}

theorem Ready.exited (h : Ready child v) (status : ExitStatus) : Ready (child.exited status) v := by
  obtain ⟨c, hc, hpid⟩ := h.inner
  exact ⟨h.job, h.leaked, h.aux, h.root, ⟨{ c with killOnDrop := false },
    by simp [JobOwnedChild.exited, hc], hpid⟩, h.assigned, h.resumed⟩

theorem Ready.tryWait (h : Ready child v) (answer : Except String (Option ExitStatus)) :
    Ready (child.tryWait answer).2 v := by
  unfold JobOwnedChild.tryWait
  split
  · exact h
  split
  · exact h
  split
  · exact h
  · exact h
  · exact h.exited _

theorem Ready.wait (h : Ready child v) (answer : Except String ExitStatus) :
    Ready (child.wait answer).2 v := by
  unfold JobOwnedChild.wait
  split
  · exact h
  split
  · exact h
  split
  · exact h
  · exact h.exited _

end Status

section Calls
variable [DecidableEq η] {v : View η} {Q : View η → Prop} {job : η} {pid : Pid}

theorem walk_keeps {snap : η} (hsnap : snap ∈ v.aux) : v.Keeps [.walk snap] :=
  View.accepts_cons (fun _ => if_pos hsnap) fun _ => rfl

theorem findProcess_keeps {snap : η} (hsnap : snap ∈ v.aux) (pid : Pid) (pids : List Pid) :
    v.Keeps (findProcess snap pid pids) := by
  induction pids with
  | nil => exact walk_keeps hsnap
  | cons entry entries ih =>
    rw [findProcess]
    refine View.accepts_cons (fun _ => if_pos hsnap) fun _ => ?_
    split
    · rfl
    · exact ih

theorem lookupProcessName_keeps (v : View η) (member : Member η) :
    v.Keeps (lookupProcessName member) := by
  unfold lookupProcessName
  split
  · exact View.accepts_cons (fun _ => rfl) fun _ => rfl
  · refine View.Keeps.bracket fun w hw _ => findProcess_keeps ?_ _ _
    rw [hw]
    exact List.mem_cons_self

theorem logJobMembers_keeps (hjob : v.job = some job ∨ v.borrows = true)
    (members : List (Member η)) : v.Keeps (logJobMembers job members) :=
  View.accepts_cons (fun _ => if_pos hjob) fun _ =>
    View.Keeps.flatMap (lookupProcessName_keeps v) _

theorem resumeThread_accepts (hroot : v.root = some pid) (hassigned : v.assigned = true)
    (entry : ThreadEntry η) :
    v.Accepts (· = { v with resumed := v.resumed || entry.resumed pid })
      (resumeThread pid entry) := by
  unfold resumeThread ThreadEntry.resumed
  by_cases hp : entry.th32OwnerProcessID = pid
  · rw [if_pos hp]
    cases hopen : entry.openThread with
    | none => exact View.accepts_cons (fun _ => rfl) fun _ => by simp [View.Accepts, hp]
    | some th =>
      refine View.accepts_cons (fun _ => rfl) fun hfresh => ?_
      have hth : th ∉ v.aux := fun hx => hfresh (.inr (.inr hx))
      refine View.accepts_cons (fun _ => if_pos ⟨List.mem_cons_self, hroot, hassigned⟩) fun _ => ?_
      refine View.accepts_cons (fun _ => if_pos List.mem_cons_self) fun _ => ?_
      simp only [filter_cons_ne hth, View.Accepts, hp, decide_true, Option.isSome_some,
        Bool.true_and]
  · rw [if_neg hp]
    simp [View.Accepts, hp]

theorem resumeThreads_accepts {snap : η} (hsnap : snap ∈ v.aux) (hroot : v.root = some pid)
    (hassigned : v.assigned = true) (threads : List (ThreadEntry η)) :
    v.Accepts (· = { v with resumed := v.resumed || threads.any (ThreadEntry.resumed pid) })
      (threads.flatMap fun entry => resumeThread pid entry ++ [.walk snap]) := by
  induction threads generalizing v with
  | nil => exact (by simp : v = { v with resumed := v.resumed || false })
  | cons entry threads ih =>
    rw [List.flatMap_cons, List.append_assoc]
    refine View.Accepts.append ((resumeThread_accepts hroot hassigned entry).mono ?_)
    rintro w rfl
    refine (walk_keeps (v := { v with resumed := v.resumed || entry.resumed pid }) hsnap).accepts ?_
    refine View.Accepts.mono ?_
      (ih (v := { v with resumed := v.resumed || entry.resumed pid }) hsnap hroot hassigned)
    rintro w rfl
    simp only [List.any_cons, Bool.or_assoc]

def opened (job : η) (limited : Bool) : View η :=
  ⟨false, some job, none, limited, [], none, false, false, false⟩

def started (job : η) (pid : Pid) (assigned resumed killed : Bool) : View η :=
  ⟨false, some job, none, true, [], some pid, assigned, resumed, killed⟩

theorem resumeProcessThreads_accepts (o : Outcome η) (killed : Bool) :
    (started job pid true false killed).Accepts
      (fun w => ∃ resumed, w = started job pid true resumed killed ∧
        ((resumeProcessThreads o pid).2 = .ok () → resumed = true))
      (resumeProcessThreads o pid).1 := by
  unfold resumeProcessThreads
  cases o.snapshot with
  | none => exact View.accepts_cons (fun _ => rfl) fun _ => ⟨false, rfl, nofun⟩
  | some snap =>
    have hcalls : (started job pid true false killed).Accepts
        (· = started job pid true (o.threads.any (ThreadEntry.resumed pid)) killed)
        (.openAux (some snap) :: .walk snap ::
          o.threads.flatMap (fun entry => resumeThread pid entry ++ [.walk snap]) ++
            [.close snap .aux]) := by
      refine View.accepts_cons (fun _ => rfl) fun _ => ?_
      refine View.accepts_cons (fun _ => if_pos List.mem_cons_self) fun _ => View.Accepts.append ?_
      refine (resumeThreads_accepts List.mem_cons_self rfl rfl o.threads).mono ?_
      rintro w rfl
      refine View.accepts_cons (fun _ => if_pos List.mem_cons_self) fun _ => ?_
      simp [View.Accepts, started]
    simp only
    split
    · exact hcalls.mono fun w hw => ⟨_, hw, nofun⟩
    · next hsome =>
      refine hcalls.mono fun w hw => ⟨_, hw, fun _ => ?_⟩
      obtain ⟨entry, hmem, hentry⟩ := List.countP_pos_iff.mp (Nat.pos_of_ne_zero hsome)
      exact List.any_eq_true.mpr ⟨entry, hmem, hentry⟩

theorem startKill_accepts {assigned resumed killed : Bool} (child : Child) (ok : Bool)
    (hpid : child.pid = pid) (harmed : child.killOnDrop = true) :
    (started job pid assigned resumed killed).Accepts
      (fun w => w = started job pid assigned resumed (killed || ok) ∧
        (child.startKill (η := η) ok).2.pid = pid ∧
        ((child.startKill (η := η) ok).2.killOnDrop = true ∨ (killed || ok) = true))
      (child.startKill ok).1 := by
  subst hpid
  refine View.accepts_cons (w := started job child.pid assigned resumed (killed || ok))
    (fun _ => if_pos rfl) fun _ => ⟨rfl, rfl, ?_⟩
  cases ok
  · exact .inl (by simp [Child.startKill, harmed])
  · exact .inr (Bool.or_true killed)

structure SetUp (job : η) (pid : Pid) (r : Child × Option String) (w : View η) : Prop where
  view : ∃ assigned resumed killed, w = started job pid assigned resumed killed ∧
    (r.1.killOnDrop = true ∨ killed = true) ∧ (r.2 = none → assigned = true ∧ resumed = true)
  pid : r.1.pid = pid

theorem setUp_accepts (o : Outcome η) (job : η) (pid : Pid) :
    (started job pid false false false).Accepts (SetUp job pid (setUp o job ⟨pid, true⟩).2)
      (setUp o job ⟨pid, true⟩).1 := by
  have hany : (started job pid false false false).Keeps
      (if o.verbose then [.inJob none pid] else []) := by
    split
    · exact View.accepts_cons (fun _ => if_pos ⟨.inl rfl, rfl⟩) fun _ => rfl
    · exact .nil _
  have hlog : (started job pid true false false).Keeps
      (if o.verbose then .inJob (some job) pid :: logJobMembers job o.members else []) := by
    split
    · exact View.accepts_cons (fun _ => if_pos ⟨.inr rfl, rfl⟩) fun _ =>
        logJobMembers_keeps (.inl rfl) o.members
    · exact .nil _
  have hassign : ∀ {cs Q}, (started job pid true false false).Accepts Q cs →
      (started job pid false false false).Accepts Q (.assign job pid true :: cs) :=
    fun h => View.accepts_cons (fun _ => if_pos ⟨rfl, rfl, rfl⟩) fun _ => h
  unfold setUp
  split
  · exact ⟨⟨_, _, _, rfl, .inl rfl, by intros; contradiction⟩, rfl⟩
  split
  · exact ⟨⟨_, _, _, rfl, .inl rfl, by intros; contradiction⟩, rfl⟩
  extract_lets anyJob log
  split
  · refine hany.accepts (View.accepts_cons (w := started job pid false false false)
      (fun _ => if_pos ⟨rfl, rfl, rfl⟩) fun _ => ?_)
    refine (startKill_accepts ⟨pid, true⟩ o.killed rfl rfl).mono ?_
    rintro w ⟨rfl, hpid, harmed⟩
    exact ⟨⟨_, _, _, rfl, harmed, by intros; contradiction⟩, hpid⟩
  · have hresume : (started job pid true false false).Accepts _ _ :=
      resumeProcessThreads_accepts o false
    cases hr : resumeProcessThreads o pid with
    | mk resume result =>
      rw [hr] at hresume
      cases result with
      | error e =>
        simp only
        rw [List.append_assoc, List.append_assoc, List.cons_append]
        refine hany.accepts (hassign (hlog.accepts (hresume.mono ?_).append))
        rintro w ⟨resumed, rfl, -⟩
        refine (startKill_accepts ⟨pid, true⟩ o.killed rfl rfl).mono ?_
        rintro w ⟨rfl, hpid, harmed⟩
        exact ⟨⟨_, _, _, rfl, harmed, by intros; contradiction⟩, hpid⟩
      | ok u =>
        simp only
        rw [List.append_assoc, List.cons_append]
        refine hany.accepts (hassign (hlog.accepts (hresume.mono ?_)))
        rintro w ⟨resumed, rfl, hok⟩
        exact ⟨⟨_, _, _, rfl, .inl rfl, fun _ => ⟨rfl, hok rfl⟩⟩, rfl⟩

theorem drop_accepts {assigned resumed killed : Bool} (child : Child) (ok : Bool)
    (hpid : child.pid = pid) (harmed : child.killOnDrop = true ∨ killed = true) :
    (started job pid assigned resumed killed).Accepts
      (fun w => ∃ killed', w = started job pid assigned resumed killed' ∧
        (ok = true → killed' = true))
      (child.drop ok) := by
  subst hpid
  unfold Child.drop
  split
  · refine View.accepts_cons (w := started job child.pid assigned resumed (killed || ok))
      (fun _ => if_pos rfl) fun _ => ⟨_, rfl, fun h => ?_⟩
    rw [h, Bool.or_true]
  · next hunarmed => exact ⟨killed, rfl, fun _ => harmed.resolve_left hunarmed⟩

theorem closeGuard_accepts {assigned resumed killed : Bool}
    (h : Q { started job pid assigned resumed killed with job := none }) :
    (started job pid assigned resumed killed).Accepts Q [.close job .job] :=
  View.accepts_cons (fun _ => if_pos ⟨rfl, rfl⟩) fun _ => h

theorem spawn_accepts (o : Outcome η) :
    (View.new false).Accepts (Post (o.dropKills = true) (.starting (spawn o).2)) (spawn o).1 := by
  unfold spawn createJob
  cases o.createJobObject with
  | none => exact View.accepts_cons (fun _ => rfl) fun _ => ⟨⟨rfl, rfl, rfl⟩, fun _ => .inl rfl⟩
  | some job =>
    cases o.setInformation with
    | false =>
      refine View.accepts_cons (w := opened job false)
        (fun _ => rfl) fun _ => ?_
      refine View.accepts_cons (w := opened job false) (fun _ => if_pos rfl) fun _ => ?_
      exact View.accepts_cons (fun _ => if_pos ⟨rfl, rfl⟩) fun _ =>
        ⟨⟨rfl, rfl, rfl⟩, fun _ => .inl rfl⟩
    | true =>
      have hguard : ∀ {cs : List (Call η)} {Q : View η → Prop},
          (opened job true).Accepts Q cs →
          (View.new false).Accepts Q ([.createJob (some job), .limit job true] ++
            (if o.verbose = true then [.query job] else []) ++ cs) := by
        intro cs Q h
        refine View.accepts_cons (w := opened job false)
          (fun _ => rfl) fun _ => ?_
        refine View.accepts_cons (w := opened job true) (fun _ => if_pos rfl) fun _ => ?_
        split
        · exact View.accepts_cons (fun _ => if_pos (.inl rfl)) fun _ => h
        · exact h
      simp only [if_true]
      cases o.spawned with
      | error e =>
        refine hguard (View.accepts_cons (fun _ => rfl) fun _ => ?_)
        exact View.accepts_cons (fun _ => if_pos ⟨rfl, rfl⟩) fun _ =>
          ⟨⟨rfl, rfl, rfl⟩, fun _ => .inl rfl⟩
      | ok pid =>
        have hstart : ∀ {cs : List (Call η)} {Q : View η → Prop},
            (started job pid false false false).Accepts Q cs →
            (opened job true).Accepts Q (.spawn (some pid) :: cs) :=
          fun h => View.accepts_cons (w := started job pid false false false)
            (fun _ => rfl) fun _ => h
        have hsetup := setUp_accepts o job pid
        simp only
        cases hr : setUp o job ⟨pid, true⟩ with
        | mk calls r =>
          rw [hr] at hsetup
          obtain ⟨child, result⟩ := r
          cases result with
          | some e =>
            simp only [List.append_assoc, List.cons_append]
            refine hguard (hstart (View.Accepts.append (hsetup.mono ?_)))
            rintro w ⟨⟨assigned, resumed, killed, rfl, harmed, -⟩, hpid⟩
            refine View.Accepts.append ((drop_accepts child o.dropKills hpid harmed).mono ?_)
            rintro w ⟨killed', rfl, hkilled⟩
            exact closeGuard_accepts ⟨⟨rfl, rfl, rfl⟩, fun h => .inr (.inr (hkilled h))⟩
          | none =>
            simp only
            refine hguard (hstart (hsetup.mono ?_))
            rintro w ⟨⟨assigned, resumed, killed, rfl, -, hok⟩, hpid⟩
            obtain ⟨rfl, rfl⟩ := hok rfl
            exact ⟨⟨job, rfl, rfl⟩, rfl, rfl, rfl, ⟨child, rfl, hpid⟩, rfl, rfl⟩

section Methods
variable {child : JobOwnedChild η} {careful : Prop}

theorem log_keeps {v : View η} (hjob : v.job = some job) (verbose : Bool)
    (members : List (Member η)) :
    v.Keeps (if verbose = true then logJobMembers job members else []) := by
  split
  · exact logJobMembers_keeps (.inl hjob) members
  · exact .nil v

theorem Ready.startKill (h : Ready child v) (members : List (Member η)) (ok : Bool) :
    v.Accepts (Ready child) (child.startKill members ok) := by
  obtain ⟨job, hjob, hv⟩ := h.job
  simp only [JobOwnedChild.startKill, hjob]
  exact (log_keeps hv _ members).accepts (View.accepts_cons (fun _ => if_pos hv) fun _ => h)

theorem Ready.drop (h : Ready child v) (members : List (Member η)) (killed : Bool) :
    v.Accepts (Post careful .dropped) (child.drop members killed) := by
  obtain ⟨job, hjob, hv⟩ := h.job
  obtain ⟨c, hc, hpid⟩ := h.inner
  simp only [JobOwnedChild.drop, hjob, hc, Option.elim_some, List.append_assoc]
  refine (log_keeps hv _ members).accepts
    (View.accepts_cons (fun _ => if_pos ⟨hv, h.leaked⟩) fun _ => ?_)
  unfold Child.drop
  split
  · exact View.accepts_cons (fun _ => if_pos (hpid ▸ h.root)) fun _ =>
      ⟨⟨rfl, h.leaked, h.aux⟩, h.assigned⟩
  · exact ⟨⟨rfl, h.leaked, h.aux⟩, h.assigned⟩

theorem Ready.intoInner (h : Ready child v) :
    v.Accepts (Post careful (.taken child.inner)) child.intoInner := by
  obtain ⟨job, hjob, hv⟩ := h.job
  obtain ⟨c, hc, hpid⟩ := h.inner
  simp only [JobOwnedChild.intoInner, hjob]
  refine View.accepts_cons (fun _ => if_pos ⟨hv, h.leaked⟩) fun _ => ?_
  refine ⟨⟨rfl, ⟨job, rfl⟩, h.aux⟩, fun c' hc' => ?_⟩
  rw [hc] at hc'
  cases hc'
  exact hpid ▸ h.root

theorem taken_drop {child : Option Child} (h : Post careful (.taken child) v) (killed : Bool) :
    v.Accepts (Post careful .released) (child.elim [] fun c => c.drop killed) := by
  obtain ⟨haway, hroot⟩ := h
  cases child with
  | none => exact haway
  | some c =>
    simp only [Option.elim_some, Child.drop]
    split
    · exact View.accepts_cons (fun _ => if_pos (hroot c rfl)) fun _ =>
        ⟨haway.job, haway.leaked, haway.aux⟩
    · exact haway

end Methods

end Calls

end Ccgonext.WindowsJob
