import Ccgonext.JobLives

/-!
# What job objects contain

Over every run of lives, diagnostic tasks and processes: calls get handles that are
open and nothing stays open, a process that runs is in the job of its agent, and
neither a wrapper that is dropped nor the end of the program leaves one behind. The
one exception is a poll of the diagnostic task that is in progress when the task is
aborted: its query of the job may come after the close.
-/

namespace Ccgonext.WindowsJob
open Lib Lib.Runs Lib.JobObjects

variable {η : Type}

/-- A verbose `spawn` with everything going well: the process is 0, the job 8. -/
def codexSpawn : Outcome ℕ where
  verbose := true
  createJobObject := some 8
  setInformation := true
  spawned := .ok 0
  idKnown := true
  handleKnown := true
  assigned := true
  members := [⟨0, some ⟨9, [4, 0]⟩⟩]
  snapshot := some 9
  threads := [⟨7, some 11, true⟩, ⟨0, some 10, true⟩]
  killed := true
  dropKills := true
  stdin := true
  stdout := true
  stderr := true
  lastError := ""

def calls (n : ℕ) : List (Action ℕ) := List.replicate n (.call 0)

def codexOwned : List (Action ℕ) := .spawn codexSpawn :: calls 20 ++ [.returned 0]

def codexPolled : List (Action ℕ) :=
  codexOwned ++ .poll 0 [⟨0, some ⟨9, [4, 0]⟩⟩] :: List.replicate 2 (.pollCall 0) ++
    [.drop 0 [] true]

/-- The wrapper is dropped between the wake-up of the diagnostic task and its query. -/
def codexDropped : List (Action ℕ) :=
  codexOwned ++ [.event (.fork 0), .poll 0 [], .drop 0 [] true] ++ calls 2

section Holds
variable {s : Sys η} {k : Party} {v : View η}

def Holds (s : Sys η) (k : Party) (x : Handle η Party) : Prop :=
  x ∈ s.machine.handles ∧ x.party = k

def Balanced (s : Sys η) (i : ℕ) : Owner η → Prop
  | .starting _ => True
  | .failed _ | .dropped => ∀ x, ¬ Holds s (.main i) x
  | .owned child => ∃ h, child.job = some h ∧ ∀ x, Holds s (.main i) x ↔ x = ⟨h, .main i, .job⟩
  | .taken _ | .released => ∃ h, ∀ x, Holds s (.main i) x ↔ x = ⟨h, .main i, .job⟩

theorem holds_iff (hv : Agrees s.machine k v) (haux : v.aux = [])
    (x : Handle η Party) : Holds s k x ↔ ∃ h, (v.job = some h ∨ v.leaked = some h) ∧
      x = ⟨h, k, .job⟩ := by
  constructor
  · rintro ⟨hx, rfl⟩
    obtain ⟨h, party, kind⟩ := x
    cases kind with
    | job => exact ⟨h, (hv.job h).mp hx, rfl⟩
    | aux =>
      have hmem := (hv.aux h).mp hx
      rw [haux] at hmem
      exact absurd hmem List.not_mem_nil
  · rintro ⟨h, hh, rfl⟩
    exact ⟨(hv.job h).mpr hh, rfl⟩

theorem not_holds (hv : Agrees s.machine k v) (hc : Closed v)
    (x : Handle η Party) : ¬ Holds s k x := by
  rw [holds_iff hv hc.aux, hc.job, hc.leaked]
  rintro ⟨h, hh | hh, -⟩ <;> cases hh

theorem Away.holds (haway : Away v) (hv : Agrees s.machine k v) :
    ∃ h, ∀ x, Holds s k x ↔ x = ⟨h, k, .job⟩ := by
  obtain ⟨h, hh⟩ := haway.leaked
  refine ⟨h, fun x => ?_⟩
  rw [holds_iff hv haway.aux, haway.job, hh]
  simp

end Holds

section Runs
variable [DecidableEq η] {s s' t u : Sys η} {a : Action η} {acts : List (Action η)} {i : ℕ}
  {life : Life η}

theorem run_good {careful : Prop}
    (hkills : Along Sys.step (fun _ a => Kills careful a) Sys.new acts)
    (hr : run Sys.step Sys.new acts = some s) : Good careful s := by
  refine invariant (fun s a s' h ha hs => good_step h ha hs) ?_ hkills hr
  simp only [Good, Sys.new, Bool.false_eq_true, if_false]
  exact inv_new

theorem run_inv (hr : run Sys.step Sys.new acts = some s) (hend : s.ended = false) :
    Inv False s := by
  have hgood : Good False s := by
    refine run_good (along_of_forall fun a _ _ => ?_) hr
    cases a with
    | spawn o => exact False.elim
    | _ => trivial
  simpa only [Good, hend, Bool.false_eq_true, if_false] using hgood

/-- The calls that are next have the handles they use: open, and opened by the same
life, or by the diagnostic task itself. A process handle that they take is the one of
the process that the same life has started. -/
structure UsesOpen (s : Sys η) (i : ℕ) (life : Life η) : Prop where
  main : ∀ c todo, life.todo = c :: todo → ∀ h kind, c.uses = some (h, kind) →
    ⟨h, .main i, kind⟩ ∈ s.machine.handles
  process : ∀ c todo, life.todo = c :: todo → ∀ pid, c.process = some pid →
    ∃ p, s.machine.procs[pid]? = some p ∧ p.party = .main i
  noProcess : ∀ d, life.diagnostic = some d → ∀ c todo, d.todo = c :: todo → c.process = none
  diagnostic : ∀ d, life.diagnostic = some d → ∀ c todo, d.todo = c :: todo →
    ∀ h kind, c.uses = some (h, kind) → ⟨h, .diagnostic i, kind⟩ ∈ s.machine.handles ∨
      kind = .job ∧ h = d.job ∧ (d.aborted = true ∨ ⟨h, .main i, .job⟩ ∈ s.machine.handles)

theorem handles_open (hr : run Sys.step Sys.new acts = some s) (hend : s.ended = false)
    (hlife : s.lives[i]? = some life) : UsesOpen s i life := by
  have hinv := (run_inv hr hend).lives i life hlife
  refine ⟨fun c todo htodo h kind hu => ?_, fun c todo htodo pid hp => ?_,
    fun d hd c todo htodo => ?_, fun d hd c todo htodo h kind hu => ?_⟩
  · obtain ⟨v, hv, hborrows, -, hacc⟩ := hinv.main
    rw [htodo] at hacc
    obtain ⟨w, hw, -⟩ := hacc (View.fresh_of_uses hu)
    exact hv.uses_open hw (.inl hborrows) hu
  · obtain ⟨v, hv, -, -, hacc⟩ := hinv.main
    rw [htodo] at hacc
    obtain ⟨w, hw, -⟩ := hacc (View.fresh_of_process hp)
    exact hv.root pid (View.step_process hw hp)
  · obtain ⟨v, hv, hroot, hacc⟩ := hinv.diagnostic
    rw [hd, Option.elim_some, htodo] at hacc
    cases hp : c.process with
    | none => rfl
    | some pid =>
      obtain ⟨w, hw, -⟩ := hacc (View.fresh_of_process hp)
      have hpid := View.step_process hw hp
      rw [hroot] at hpid
      cases hpid
  · cases kind with
    | job =>
      have hjob := (hinv.reads d hd c (htodo ▸ List.mem_cons_self)).2 h hu
      subst hjob
      refine .inr ⟨rfl, rfl, ?_⟩
      cases ha : d.aborted with
      | true => exact .inl rfl
      | false => exact .inr (hinv.lent d hd ha).2.1
    | aux =>
      obtain ⟨v, hv, -, hacc⟩ := hinv.diagnostic
      rw [hd, Option.elim_some, htodo] at hacc
      obtain ⟨w, hw, -⟩ := hacc (View.fresh_of_uses hu)
      exact .inl (hv.uses_open hw (.inr rfl) hu)

theorem handles_open_polled : ∃ (s : Sys ℕ) (life : Life ℕ),
    run Sys.step Sys.new codexPolled = some s ∧ s.lives[0]? = some life ∧ UsesOpen s 0 life ∧
      life.todo.head? = some (.query 8) ∧ ⟨8, .main 0, .job⟩ ∈ s.machine.handles ∧
      (life.diagnostic.bind fun d => d.todo.head?) = some (.walk 9) ∧
      ⟨9, .diagnostic 0, .aux⟩ ∈ s.machine.handles := by
  obtain ⟨s, hr, ⟨hend, hjob, hsnap⟩, hlife⟩ := exists_run
    (fun s : Sys ℕ => (s.ended = false ∧ ⟨8, .main 0, .job⟩ ∈ s.machine.handles ∧
      ⟨9, .diagnostic 0, .aux⟩ ∈ s.machine.handles) ∧
      ((s.lives[0]?).any fun life => life.todo.head? = some (.query 8) ∧
        (life.diagnostic.bind fun d => d.todo.head?) = some (.walk 9)) = true)
    (show (run Sys.step Sys.new codexPolled).any _ = true by decide +kernel)
  obtain ⟨life, hlife, hnext⟩ := (Option.any_eq_true _ _).mp hlife
  obtain ⟨hmain, hdiag⟩ := of_decide_eq_true hnext
  exact ⟨s, life, hr, hlife, handles_open hr hend hlife, hmain, hjob, hdiag, hsnap⟩

/-- The exception is reached: the query is next, and the job is closed. -/
example : ((run Sys.step Sys.new codexDropped).any fun s => s.machine.handles = [] ∧
    ((s.lives[0]?).any fun life => life.diagnostic.any fun d => d.todo = [.query 8])) = true := by
  decide +kernel

/-- No job, snapshot or thread handle leaks: what `spawn` or a drop has opened is
closed, a wrapper has its job open and nothing else, and `into_inner` leaves the job
open. A diagnostic task has nothing open between two polls. The process handle and
the pipes of the child, which tokio owns, are not counted. -/
theorem handles_balanced (hr : run Sys.step Sys.new acts = some s) (hend : s.ended = false)
    (hlife : s.lives[i]? = some life) :
    (life.todo = [] → Balanced s i life.owner) ∧
    ((∀ d, life.diagnostic = some d → d.todo = []) → ∀ x, ¬ Holds s (.diagnostic i) x) := by
  have hinv := (run_inv hr hend).lives i life hlife
  refine ⟨fun htodo => ?_, fun hidle x => ?_⟩
  · obtain ⟨v, hv, -, -, hacc⟩ := hinv.main
    rw [htodo] at hacc
    cases ho : life.owner with
    | starting r => trivial
    | failed e =>
      rw [ho] at hacc
      exact not_holds hv hacc.1
    | dropped =>
      rw [ho] at hacc
      exact not_holds hv hacc.1
    | owned child =>
      rw [ho] at hacc
      have hready : Ready child v := hacc
      obtain ⟨h, hjob, hvjob⟩ := hready.job
      refine ⟨h, hjob, fun x => ?_⟩
      rw [holds_iff hv hready.aux, hvjob, hready.leaked]
      simp
    | taken child =>
      rw [ho] at hacc
      exact hacc.1.holds hv
    | released =>
      rw [ho] at hacc
      exact Away.holds hacc hv
  · obtain ⟨v, hv, -, hacc⟩ := hinv.diagnostic
    have hnil : life.diagnostic.elim [] Diagnostic.todo = [] := by
      cases hd : life.diagnostic with
      | none => rfl
      | some d => exact hidle d hd
    rw [hnil] at hacc
    cases (hacc : v = View.new true)
    exact not_holds hv ⟨rfl, rfl, rfl⟩ x

theorem handles_balanced_owned : ∃ (s : Sys ℕ) (life : Life ℕ),
    run Sys.step Sys.new codexOwned = some s ∧ s.lives[0]? = some life ∧
      Balanced s 0 life.owner := by
  obtain ⟨s, hr, hend, hlife⟩ := exists_run
    (fun s : Sys ℕ => s.ended = false ∧ ((s.lives[0]?).any fun life => life.todo = []) = true)
    (show (run Sys.step Sys.new codexOwned).any _ = true by decide +kernel)
  obtain ⟨life, hlife, htodo⟩ := (Option.any_eq_true _ _).mp hlife
  exact ⟨s, life, hr, hlife, (handles_balanced hr hend hlife).1 (of_decide_eq_true htodo)⟩

/-- A process that runs is in the job of the life it comes of, whose handle is open
while it lives and which kills it when that is closed. -/
theorem running_contained (hr : run Sys.step Sys.new acts = some s) (hend : s.ended = false)
    {pid : Pid} {p : Process Party} (hp : s.machine.procs[pid]? = some p)
    (hrun : p.suspended = false) :
    p.job = some p.party ∧ p.party ∈ s.machine.limited ∧
      (p.alive = true → ∃ h, Holds s p.party ⟨h, p.party, .job⟩) := by
  have hinv := run_inv hr hend
  obtain ⟨v, hv⟩ := hinv.view p.party
  obtain ⟨hjob, hlim⟩ := hv.contained hinv.sound hp rfl hrun
  refine ⟨hjob, hlim, fun hal => ?_⟩
  obtain ⟨h, hh⟩ := (hinv.sound.member pid p _ hp hjob).2.2 hal
  exact ⟨h, hh, rfl⟩

theorem running_contained_owned : ∃ (s : Sys ℕ) (p : Process Party),
    run Sys.step Sys.new codexOwned = some s ∧ s.machine.procs[0]? = some p ∧
      p.suspended = false ∧ p.job = some p.party := by
  obtain ⟨s, hr, hend, hp⟩ := exists_run
    (fun s : Sys ℕ => s.ended = false ∧
      ((s.machine.procs[0]?).any fun p => p.suspended = false) = true)
    (show (run Sys.step Sys.new codexOwned).any _ = true by decide +kernel)
  obtain ⟨p, hp, hrun⟩ := (Option.any_eq_true _ _).mp hp
  have hrun := of_decide_eq_true hrun
  exact ⟨s, p, hr, hp, hrun, (running_contained hr hend hp hrun).1⟩

/-- Where no kill on drop fails, neither a `spawn` that has failed nor a wrapper that
has been dropped leaves a process, and the end of the program leaves none but, of a
life that is still in its `spawn`, the one that has not been put in the job and has
not run. -/
theorem none_left (hkills : Along Sys.step (fun _ a => Kills True a) Sys.new acts)
    (hr : run Sys.step Sys.new acts = some s) {pid : Pid} {p : Process Party}
    (hp : s.machine.procs[pid]? = some p) (hal : p.alive = true) :
    (s.ended = false → ∀ life, s.lives[i]? = some life → p.party = .main i → life.todo = [] →
      life.owner ≠ .dropped ∧ ∀ e, life.owner ≠ .failed e) ∧
    (s.ended = true → p.suspended = true ∧ p.job = none ∧
      (∀ pid' p', s.machine.procs[pid']? = some p' → p'.party = p.party → pid' = pid) ∧
      ∃ j life r, p.party = .main j ∧ s.lives[j]? = some life ∧ life.owner = .starting r) := by
  have hgood := run_good hkills hr
  refine ⟨fun hend life hlife hparty htodo => ?_, fun hend => ?_⟩
  · have hinv : Inv True s := by simpa only [Good, hend, Bool.false_eq_true, if_false] using hgood
    obtain ⟨v, hv, -, -, hacc⟩ := (hinv.lives i life hlife).main
    rw [htodo] at hacc
    have hdead : ∀ hclosed : Closed v, v.assigned = true ∨ v.killed = true → False := by
      intro hclosed hkill
      have h := hv.tree_dead hinv.sound ⟨hclosed.job, hclosed.leaked⟩ hkill hp hparty
      rw [hal] at h
      cases h
    refine ⟨fun ho => ?_, fun e ho => ?_⟩
    · rw [ho] at hacc
      exact hdead hacc.1 (.inl hacc.2)
    · rw [ho] at hacc
      rcases hacc.2 trivial with hroot | hkill
      · exact hv.unrooted hroot pid p hp hparty
      · exact hdead hacc.1 hkill
  · have hstr : AllStranded True s := by simpa only [Good, hend, if_true] using hgood
    obtain ⟨hsusp, hjob, honly, j, life, hj, hlife, hatt, hnot⟩ := hstr pid p hp hal
    refine ⟨hsusp, hjob, honly, j, life, ?_⟩
    cases ho : life.owner with
    | starting r => exact ⟨r, hj, hlife, rfl⟩
    | failed e => exact absurd ho (hnot trivial e)
    | owned _ | taken _ | released | dropped =>
      rw [ho] at hatt
      cases hatt

theorem none_left_ended : ∃ (s : Sys ℕ) (p : Process Party),
    run Sys.step Sys.new (.spawn codexSpawn :: calls 4 ++ [.event .ended]) = some s ∧
      s.machine.procs[0]? = some p ∧ p.alive = true ∧ p.suspended = true ∧ p.job = none := by
  obtain ⟨s, hr, hend, hp⟩ := exists_run
    (fun s : Sys ℕ => s.ended = true ∧ ((s.machine.procs[0]?).any Process.alive) = true)
    (show (run Sys.step Sys.new (.spawn codexSpawn :: calls 4 ++ [.event .ended])).any _ = true by
      decide +kernel)
  obtain ⟨p, hp, hal⟩ := (Option.any_eq_true _ _).mp hp
  have hkills : ∀ a ∈ (.spawn codexSpawn :: calls 4 ++ [.event .ended] : List (Action ℕ)),
      ∀ _ : Sys ℕ, Kills True a := by
    intro a ha _
    simp only [calls, List.cons_append, List.mem_cons, List.mem_append, List.mem_replicate,
      List.not_mem_nil, or_false] at ha
    rcases ha with rfl | ⟨-, rfl⟩ | rfl
    · exact fun _ => rfl
    · trivial
    · trivial
  obtain ⟨-, hleft⟩ := none_left (i := 0) (along_of_forall hkills) hr hp hal
  exact ⟨s, p, hr, hp, hal, (hleft hend).1, (hleft hend).2.1⟩

theorem program_machine (hs : s.program a = some s') :
    s'.machine = s.machine ∨ (∃ i, a = .call i) ∨ ∃ i, a = .pollCall i := by
  rcases Sys.program_cases hs with ⟨life, rfl⟩ | ⟨i, f, hupdate⟩ | ⟨i, rfl, -⟩ | ⟨i, rfl, -⟩
  · exact .inl rfl
  · obtain ⟨life, -, rfl⟩ := Option.map_eq_some_iff.mp hupdate
    exact .inl rfl
  · exact .inr (.inl ⟨i, rfl⟩)
  · exact .inr (.inr ⟨i, rfl⟩)

def MayKill (i : ℕ) (pid : Pid) (a : Action η) : Prop :=
  a = .call i ∨ a = .event (.exit pid) ∨ a = .event .ended

/-- A process dies of its own, with the program, or by a call of the life it comes
of; no other agent's teardown kills it. -/
theorem killed_by (hr : run Sys.step Sys.new acts = some s) (hend : s.ended = false)
    (hs : s.step a = some s') {pid : Pid} {p p' : Process Party}
    (hp : s.machine.procs[pid]? = some p) (hparty : p.party = .main i) (hal : p.alive = true)
    (hp' : s'.machine.procs[pid]? = some p') (hdead : p'.alive = false) : MayKill i pid a := by
  have hinv := run_inv hr hend
  have hsame : s'.machine.procs[pid]? = s.machine.procs[pid]? → False := by
    intro heq
    rw [heq, hp] at hp'
    cases hp'
    rw [hal] at hdead
    cases hdead
  have huntouched : Untouched (.main i) s.machine s'.machine → False := fun hun =>
    hsame (((hun.procs pid p hparty).mpr hp).trans hp.symm)
  cases a with
  | event e =>
    obtain ⟨machine, hm, rfl⟩ := Option.map_eq_some_iff.mp hs
    cases e with
    | ended => exact .inr (.inr rfl)
    | exit pid' =>
      by_cases hpid : pid' = pid
      · exact .inr (.inl (hpid ▸ rfl))
      · refine (hsame ?_).elim
        simp only [Machine.event] at hm
        split at hm <;> cases hm
        rw [Machine.getElem?_update, hp, Option.map_some, if_neg hpid]
    | fork pid' =>
      refine (hsame ?_).elim
      simp only [Machine.event] at hm
      split at hm
      · cases hm
      split at hm <;> cases hm
      exact List.getElem?_append_left (List.getElem?_eq_some_iff.mp hp).1
  | call j =>
    simp only [Sys.step, hend, Bool.false_eq_true, if_false, Sys.program] at hs
    by_cases hij : j = i
    · exact .inl (hij ▸ rfl)
    · refine (huntouched ?_).elim
      obtain ⟨c, todo, owner, diagnostic, machine, hlife, hc, rfl⟩ := Sys.call_cases hs
      obtain ⟨v, hv, -, -, hacc⟩ := (hinv.lives j _ hlife).main
      obtain ⟨w, hw, -⟩ := hacc (hv.fresh hc)
      exact (call_kept hinv.sound hv hw hc).others _ fun h => hij (Party.main.inj h).symm
  | pollCall j =>
    simp only [Sys.step, hend, Bool.false_eq_true, if_false, Sys.program] at hs
    refine (huntouched ?_).elim
    obtain ⟨todo, owner, job, delays, c, rest, aborted, machine, hlife, hc, rfl⟩ :=
      Sys.pollCall_cases hs
    obtain ⟨v, hv, -, hacc⟩ := (hinv.lives j _ hlife).diagnostic
    obtain ⟨w, hw, -⟩ := hacc (hv.fresh hc)
    exact (call_kept hinv.sound hv hw hc).others _ Party.noConfusion
  | _ =>
    simp only [Sys.step, hend, Bool.false_eq_true, if_false] at hs
    rcases program_machine hs with heq | ⟨j, hj⟩ | ⟨j, hj⟩
    · exact (hsame (by rw [heq])).elim
    · cases hj
    · cases hj

theorem killed_by_drop : ∃ s s' : Sys ℕ,
    run Sys.step Sys.new (codexOwned ++ [.event (.fork 0), .drop 0 [] true] ++ calls 1) = some s ∧
      s.step (.call 0) = some s' ∧ s'.machine.Dead 1 ∧ MayKill 0 1 (.call 0 : Action ℕ) := by
  obtain ⟨s, hr, hend, hp, hs⟩ := exists_run
    (fun s : Sys ℕ => s.ended = false ∧
      ((s.machine.procs[1]?).any fun p => p.alive ∧ p.party = .main 0) = true ∧
      ((s.step (.call 0)).any fun s' => (s'.machine.procs[1]?).any fun p => !p.alive) = true)
    (show (run Sys.step Sys.new
      (codexOwned ++ [.event (.fork 0), .drop 0 [] true] ++ calls 1)).any _ = true by
      decide +kernel)
  obtain ⟨p, hp, hal⟩ := (Option.any_eq_true _ _).mp hp
  obtain ⟨hal, hparty⟩ := of_decide_eq_true hal
  obtain ⟨s', hs, hp'⟩ := (Option.any_eq_true _ _).mp hs
  obtain ⟨p', hp', hdead⟩ := (Option.any_eq_true _ _).mp hp'
  rw [Bool.not_eq_true'] at hdead
  exact ⟨s, s', hr, hs, ⟨p', hp', hdead⟩, killed_by hr hend hs hp hparty hal hp' hdead⟩

end Runs

end Ccgonext.WindowsJob
