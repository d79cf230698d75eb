import Ccgonext.Containment

/-!
# The exit status of a child in a job

`try_wait` and `wait` keep the first status that the child reports, and every later
call answers with it. What a step makes of the owner of a child is said once, in
`Passes`; that a reported status stays and that it stands for a process that is over
follow from it.
-/

namespace Ccgonext.WindowsJob
open Lib Lib.Runs Lib.JobObjects

variable {η : Type}

def owned (s : Sys η) (i : ℕ) : Option (JobOwnedChild η) :=
  match s.lives[i]? with
  | some ⟨[], .owned child, _⟩ => some child
  | _ => none

def reports (s : Sys η) : Action η → Option (ℕ × ExitStatus)
  | .tryWait i answer => (owned s i).bind fun child =>
    match (child.tryWait answer).1 with
    | .ok (some status) => some (i, status)
    | _ => none
  | .wait i answer => (owned s i).bind fun child =>
    match (child.wait answer).1 with
    | .ok status => some (i, status)
    | .error _ => none
  | _ => none

def Owner.child : Owner η → Option (JobOwnedChild η)
  | .owned child | .starting (.ok child) => some child
  | _ => none

/-- What a step makes of the owner: the child stays what it is, and its status,
once it has one. It gets one when its process is over. -/
structure Passes (m : Machine η Party) (owner owner' : Owner η) : Prop where
  attached : owner.attached = true → owner'.attached = true
  child : ∀ child', owner'.child = some child' → ∃ child, owner.child = some child ∧
    child'.rootPid = child.rootPid ∧ (child'.exitStatus = child.exitStatus ∨
      child.exitStatus = none ∧ m.Dead child.rootPid)

def Truthful (s : Sys η) : Prop :=
  ∀ (i : ℕ) life child, s.lives[i]? = some life → life.owner.child = some child →
    child.exitStatus ≠ none → s.machine.Dead child.rootPid

structure Settled (i : ℕ) (pid : Pid) (status : ExitStatus) (s : Sys η) : Prop where
  dead : s.machine.Dead pid
  life : ∃ life, s.lives[i]? = some life ∧ life.owner.attached = true ∧
    ∀ child, life.owner.child = some child →
      child.rootPid = pid ∧ child.exitStatus = some status

section Status
variable {s s' : Sys η} {i j : ℕ} {life life' : Life η} {owner : Owner η}
  {m : Machine η Party} {child : JobOwnedChild η}

theorem Passes.refl (m : Machine η Party) (owner : Owner η) : Passes m owner owner :=
  ⟨id, fun child h => ⟨child, h, rfl, .inl rfl⟩⟩

theorem Passes.away (howner : owner.attached = true ∧ owner.child = none) (from' : Owner η) :
    Passes m from' owner :=
  ⟨fun _ => howner.1, fun child h => by rw [howner.2] at h; cases h⟩

theorem returned_passes (h : life.returned = some life') : Passes m life.owner life'.owner := by
  obtain ⟨todo, owner, diagnostic⟩ := life
  unfold Life.returned at h
  split at h
  · next e htodo howner =>
    cases h
    cases howner
    exact ⟨nofun, nofun⟩
  · next child htodo howner =>
    cases h
    cases howner
    exact ⟨nofun, fun child' h => ⟨child', h, rfl, .inl rfl⟩⟩
  · cases h

theorem method_passes {f : JobOwnedChild η → List (Call η) × Owner η}
    (h : life.method f = some life')
    (hf : ∀ child, life.todo = [] → life.owner = .owned child →
      Passes m (.owned child) (f child).2) : Passes m life.owner life'.owner := by
  obtain ⟨todo, owner, diagnostic⟩ := life
  unfold Life.method at h
  split at h
  case h_2 => cases h
  next child htodo howner =>
  cases h
  cases howner
  exact hf child htodo rfl

theorem tryWait_passes (answer : Except String (Option ExitStatus))
    (hdead : ∀ status, answer.toOption.join = some status → m.Dead child.rootPid) :
    Passes m (.owned child) (.owned (child.tryWait answer).2) := by
  refine ⟨fun _ => rfl, fun child' h => ⟨child, rfl, ?_⟩⟩
  cases h
  unfold JobOwnedChild.tryWait
  split
  · exact ⟨rfl, .inl rfl⟩
  next hnone =>
  split
  · exact ⟨rfl, .inl rfl⟩
  split
  · exact ⟨rfl, .inl rfl⟩
  · exact ⟨rfl, .inl rfl⟩
  · exact ⟨rfl, .inr ⟨hnone, hdead _ rfl⟩⟩

theorem wait_passes (answer : Except String ExitStatus)
    (hdead : ∀ status, answer.toOption = some status → m.Dead child.rootPid) :
    Passes m (.owned child) (.owned (child.wait answer).2) := by
  refine ⟨fun _ => rfl, fun child' h => ⟨child, rfl, ?_⟩⟩
  cases h
  unfold JobOwnedChild.wait
  split
  · exact ⟨rfl, .inl rfl⟩
  next hnone =>
  split
  · exact ⟨rfl, .inl rfl⟩
  split
  · exact ⟨rfl, .inl rfl⟩
  · exact ⟨rfl, .inr ⟨hnone, hdead _ rfl⟩⟩

theorem dead_of_truthful {status : Option ExitStatus} (h : s.truthful i status = true)
    (hlife : s.lives[i]? = some life) (howner : life.owner = .owned child) {st : ExitStatus}
    (hst : status = some st) : s.machine.Dead child.rootPid := by
  obtain ⟨todo, owner, diagnostic⟩ := life
  subst hst
  cases howner
  simp only [Sys.truthful, hlife, Option.any_eq_true, Bool.not_eq_true'] at h
  exact h

theorem update_passes {f : Life η → Option (Life η)} (hs : s.update j f = some s')
    (hf : ∀ life life', s.lives[j]? = some life → f life = some life' →
      Passes s.machine life.owner life'.owner)
    (hlife' : s'.lives[i]? = some life') :
    ∃ life, s.lives[i]? = some life ∧ Passes s.machine life.owner life'.owner := by
  obtain ⟨new, hnew, rfl⟩ := Option.map_eq_some_iff.mp hs
  obtain ⟨old, hold, hf'⟩ := Option.bind_eq_some_iff.mp hnew
  rcases Pool.set_cases hlife' with ⟨rfl, rfl⟩ | ⟨-, hlife⟩
  · exact ⟨old, hold, hf old _ hold hf'⟩
  · exact ⟨life', hlife, .refl _ _⟩

theorem tryWait_status {answer : Except String (Option ExitStatus)} {status : ExitStatus}
    (h : (child.tryWait answer).1 = .ok (some status)) :
    (child.tryWait answer).2.rootPid = child.rootPid ∧
      (child.tryWait answer).2.exitStatus = some status := by
  unfold JobOwnedChild.tryWait at h ⊢
  split at h
  · next st hst =>
    cases h
    exact ⟨rfl, hst⟩
  next hnone =>
  split at h
  · next hinner =>
    rw [hnone] at h
    cases h
  next c hinner =>
  split at h
  · cases h
  · cases h
  · next st =>
    cases h
    exact ⟨rfl, rfl⟩

theorem wait_status {answer : Except String ExitStatus} {status : ExitStatus}
    (h : (child.wait answer).1 = .ok status) :
    (child.wait answer).2.rootPid = child.rootPid ∧
      (child.wait answer).2.exitStatus = some status := by
  unfold JobOwnedChild.wait at h ⊢
  split at h
  · next st hst =>
    cases h
    exact ⟨rfl, hst⟩
  next hnone =>
  split at h
  · cases h
  next c hinner =>
  split at h
  · cases h
  · next st =>
    cases h
    exact ⟨rfl, rfl⟩

theorem owned_inv (h : owned s i = some child) :
    ∃ diagnostic, s.lives[i]? = some ⟨[], .owned child, diagnostic⟩ := by
  unfold owned at h
  split at h
  · next c diagnostic hlife =>
    cases h
    exact ⟨diagnostic, hlife⟩
  · cases h

theorem reports_inv {a : Action η} {status : ExitStatus} (h : reports s a = some (i, status)) :
    ∃ child, owned s i = some child ∧
      ((∃ answer, a = .tryWait i answer ∧ (child.tryWait answer).1 = .ok (some status)) ∨
        ∃ answer, a = .wait i answer ∧ (child.wait answer).1 = .ok status) := by
  cases a with
  | tryWait j answer =>
    obtain ⟨child, howned, h⟩ := Option.bind_eq_some_iff.mp h
    split at h
    case h_2 => cases h
    next hans =>
    cases h
    exact ⟨child, howned, .inl ⟨answer, rfl, hans⟩⟩
  | wait j answer =>
    obtain ⟨child, howned, h⟩ := Option.bind_eq_some_iff.mp h
    split at h
    case h_2 => cases h
    next hans =>
    cases h
    exact ⟨child, howned, .inr ⟨answer, rfl, hans⟩⟩
  | _ => cases h

theorem spawn_status {o : Outcome η} (h : (spawn o).2 = .ok child) : child.exitStatus = none := by
  unfold spawn at h
  split at h
  · cases h
  simp only at h
  split at h
  · cases h
  split at h
  · cases h
  · cases h
    rfl

theorem Settled.reports {pid : Pid} {status : ExitStatus} (h : Settled i pid status s)
    (howned : owned s i = some child) :
    child.rootPid = pid ∧ (∀ answer, reports s (.tryWait i answer) = some (i, status)) ∧
      ∀ answer, reports s (.wait i answer) = some (i, status) := by
  obtain ⟨diagnostic, hchild⟩ := owned_inv howned
  obtain ⟨life, hlife, -, hstatus⟩ := h.life
  rw [hchild] at hlife
  cases hlife
  obtain ⟨hpid, hst⟩ := hstatus child rfl
  refine ⟨hpid, fun answer => ?_, fun answer => ?_⟩
  · simp only [WindowsJob.reports, howned, Option.bind_some, JobOwnedChild.tryWait, hst]
  · simp only [WindowsJob.reports, howned, Option.bind_some, JobOwnedChild.wait, hst]

variable [DecidableEq η] {a : Action η}

theorem program_passes (hs : s.program a = some s') (hlife' : s'.lives[i]? = some life') :
    (∃ life, s.lives[i]? = some life ∧ Passes s.machine life.owner life'.owner) ∨
      s.lives[i]? = none ∧ ∃ o, life'.owner = .starting (spawn o).2 := by
  cases a with
  | event e => cases hs
  | spawn o =>
    cases hs
    rcases Pool.spawn_cases hlife' with hlife | ⟨rfl, rfl⟩
    · exact .inl ⟨life', hlife, .refl _ _⟩
    · exact .inr ⟨List.getElem?_eq_none_iff.mpr (Nat.le_refl _), o, rfl⟩
  | call j =>
    obtain ⟨c, todo, owner, diagnostic, machine, hlife, -, rfl⟩ := Sys.call_cases hs
    rcases Pool.set_cases hlife' with ⟨rfl, rfl⟩ | ⟨-, hold⟩
    · exact .inl ⟨_, hlife, .refl _ _⟩
    · exact .inl ⟨life', hold, .refl _ _⟩
  | pollCall j =>
    obtain ⟨todo, owner, job, delays, c, rest, aborted, machine, hlife, -, rfl⟩ :=
      Sys.pollCall_cases hs
    rcases Pool.set_cases hlife' with ⟨rfl, rfl⟩ | ⟨-, hold⟩
    · exact .inl ⟨_, hlife, .refl _ _⟩
    · exact .inl ⟨life', hold, .refl _ _⟩
  | returned j => exact .inl (update_passes hs (fun _ _ _ h => returned_passes h) hlife')
  | startKill j members ok =>
    exact .inl (update_passes hs
      (fun _ _ _ h => method_passes h fun child _ _ => .refl _ _) hlife')
  | tryWait j answer =>
    obtain ⟨htrue, hs⟩ := Sys.tryWait_cases hs
    exact .inl (update_passes hs (fun _ _ hl h => method_passes h fun child _ ho =>
      tryWait_passes answer fun st hst => dead_of_truthful htrue hl ho hst) hlife')
  | wait j answer =>
    obtain ⟨htrue, hs⟩ := Sys.wait_cases hs
    exact .inl (update_passes hs (fun _ _ hl h => method_passes h fun child _ ho =>
      wait_passes answer fun st hst => dead_of_truthful htrue hl ho hst) hlife')
  | intoInner j =>
    refine .inl (update_passes hs (fun life life' _ h => ?_) hlife')
    obtain ⟨mid, hmid, rfl⟩ := Option.map_eq_some_iff.mp h
    exact (method_passes hmid fun child _ _ => Passes.away ⟨rfl, rfl⟩ _ :
      Passes s.machine life.owner mid.owner)
  | drop j members killed =>
    refine .inl (update_passes hs (fun life life' _ h => ?_) hlife')
    obtain ⟨mid, hmid, rfl⟩ := Option.map_eq_some_iff.mp h
    exact (method_passes hmid fun child _ _ => Passes.away ⟨rfl, rfl⟩ _ :
      Passes s.machine life.owner mid.owner)
  | dropInner j killed =>
    refine .inl (update_passes hs (fun life life' _ h => ?_) hlife')
    obtain ⟨todo, owner, diagnostic⟩ := life
    unfold Life.dropInner at h
    split at h
    case h_2 => cases h
    cases h
    exact .away ⟨rfl, rfl⟩ _
  | poll j members =>
    refine .inl (update_passes hs (fun life life' _ h => ?_) hlife')
    unfold Life.poll at h
    split at h
    case h_2 => cases h
    cases h
    exact .refl _ _

theorem step_passes (hs : s.step a = some s') (hlife' : s'.lives[i]? = some life') :
    (∃ life, s.lives[i]? = some life ∧ Passes s.machine life.owner life'.owner) ∨
      s.lives[i]? = none ∧ ∃ o, life'.owner = .starting (spawn o).2 := by
  rcases Sys.step_cases hs with ⟨e, machine, rfl, -, rfl⟩ | ⟨-, hprogram⟩
  · exact .inl ⟨life', hlife', .refl _ _⟩
  · exact program_passes hprogram hlife'

theorem step_dead {pid : Pid} (hs : s.step a = some s') (h : s.machine.Dead pid) :
    s'.machine.Dead pid := by
  rcases Sys.step_cases hs with ⟨e, machine, rfl, hm, rfl⟩ | ⟨-, hprogram⟩
  · exact h.event hm
  rcases program_machine hprogram with heq | ⟨j, rfl⟩ | ⟨j, rfl⟩
  · rwa [heq]
  · obtain ⟨c, todo, owner, diagnostic, machine, -, hc, rfl⟩ := Sys.call_cases hprogram
    exact h.call hc
  · obtain ⟨todo, owner, job, delays, c, rest, aborted, machine, -, hc, rfl⟩ :=
      Sys.pollCall_cases hprogram
    exact h.call hc

theorem Truthful.step (h : Truthful s) (hs : s.step a = some s') : Truthful s' := by
  intro i life' child' hlife' hchild' hst
  rcases step_passes hs hlife' with ⟨life, hlife, hpass⟩ | ⟨-, o, ho⟩
  · obtain ⟨child, hchild, hpid, hstatus⟩ := hpass.child child' hchild'
    rw [hpid]
    rcases hstatus with heq | ⟨-, hdead⟩
    · exact step_dead hs (h i life child hlife hchild (heq ▸ hst))
    · exact step_dead hs hdead
  · rw [ho] at hchild'
    cases hr : (spawn o).2 with
    | error e =>
      rw [hr] at hchild'
      cases hchild'
    | ok child =>
      rw [hr] at hchild'
      cases hchild'
      exact absurd (spawn_status hr) hst

theorem step_length (hs : s.step a = some s') : s.lives.length ≤ s'.lives.length := by
  rcases Sys.step_cases hs with ⟨e, machine, rfl, -, rfl⟩ | ⟨-, hprogram⟩
  · exact Nat.le_refl _
  rcases Sys.program_cases hprogram with
    ⟨life, rfl⟩ | ⟨j, f, hupdate⟩ | ⟨j, -, hcall⟩ | ⟨j, -, hcall⟩
  · simp
  · obtain ⟨life, -, rfl⟩ := Option.map_eq_some_iff.mp hupdate
    simp [Sys.setLife]
  · obtain ⟨c, todo, owner, diagnostic, machine, -, -, rfl⟩ := Sys.call_cases hcall
    simp
  · obtain ⟨todo, owner, job, delays, c, rest, aborted, machine, -, -, rfl⟩ :=
      Sys.pollCall_cases hcall
    simp

theorem Settled.step {pid : Pid} {status : ExitStatus} (h : Settled i pid status s)
    (hs : s.step a = some s') : Settled i pid status s' := by
  obtain ⟨life, hlife, hatt, hstatus⟩ := h.life
  refine ⟨step_dead hs h.dead, ?_⟩
  have hi := (List.getElem?_eq_some_iff.mp hlife).1
  have hlife' := List.getElem?_eq_getElem (Nat.lt_of_lt_of_le hi (step_length hs))
  rcases step_passes hs hlife' with ⟨old, hold, hpass⟩ | ⟨hnone, -⟩
  · rw [hlife] at hold
    cases hold
    refine ⟨_, hlife', hpass.attached hatt, fun child' hchild' => ?_⟩
    obtain ⟨child, hchild, hsame, hkeep⟩ := hpass.child child' hchild'
    obtain ⟨hpid, hst⟩ := hstatus child hchild
    refine ⟨hsame.trans hpid, ?_⟩
    rcases hkeep with heq | ⟨hno, -⟩
    · rw [heq, hst]
    · rw [hno] at hst
      cases hst
  · rw [hlife] at hnone
    cases hnone

theorem reports_settled {status : ExitStatus} (htruth : Truthful s)
    (hrep : reports s a = some (i, status)) (hs : s.step a = some s') :
    ∃ child, owned s i = some child ∧ Settled i child.rootPid status s' := by
  obtain ⟨child, howned, hcases⟩ := reports_inv hrep
  obtain ⟨diagnostic, hlife⟩ := owned_inv howned
  have hset : ∀ {f : JobOwnedChild η → JobOwnedChild η},
      (f child).rootPid = child.rootPid ∧ (f child).exitStatus = some status →
      (s.update i fun life => life.method fun child => ([], .owned (f child))) = some s' →
      Settled i child.rootPid status s' := by
    intro f hchild' hupdate
    simp only [Sys.update, hlife, Option.bind_some, Life.method, Option.map_some,
      Option.some.injEq] at hupdate
    have hi := (List.getElem?_eq_some_iff.mp hlife).1
    have hlife' : s'.lives[i]? = some ⟨[], .owned (f child), diagnostic⟩ := by
      rw [← hupdate]
      simp only [Sys.setLife, List.getElem?_set_self hi]
    refine ⟨?_, _, hlife', rfl, fun child h => ?_⟩
    · rw [← hchild'.1]
      refine htruth.step hs i _ (f child) hlife' rfl ?_
      rw [hchild'.2]
      exact Option.some_ne_none status
    · cases h
      exact hchild'
  refine ⟨child, howned, ?_⟩
  rcases Sys.step_cases hs with ⟨e, machine, rfl, -⟩ | ⟨-, hprogram⟩
  · rcases hcases with ⟨answer, ha, -⟩ | ⟨answer, ha, -⟩ <;> cases ha
  rcases hcases with ⟨answer, rfl, hans⟩ | ⟨answer, rfl, hans⟩
  · exact hset (tryWait_status hans) (Sys.tryWait_cases hprogram).2
  · exact hset (wait_status hans) (Sys.wait_cases hprogram).2

/-- Once `try_wait` or `wait` has reported a status of a child, its process is over
for good, also where the child has been dropped or taken out. As long as the wrapper
has it, every later call reports that status, whatever the child would answer. -/
theorem status_settled {acts later : List (Action η)} {u : Sys η} {status : ExitStatus}
    (hr : run Sys.step Sys.new acts = some s) (hs : s.step a = some s')
    (hrep : reports s a = some (i, status)) (hlater : run Sys.step s' later = some u) :
    ∃ child, owned s i = some child ∧ u.machine.Dead child.rootPid ∧
      ∀ child', owned u i = some child' → child'.rootPid = child.rootPid ∧
        (∀ answer, reports u (.tryWait i answer) = some (i, status)) ∧
        ∀ answer, reports u (.wait i answer) = some (i, status) := by
  have htruth : Truthful s := by
    refine preserved (fun _ _ _ h hs => h.step hs) (fun i life child h => ?_) hr
    cases h
  obtain ⟨child, howned, hsettled⟩ := reports_settled htruth hrep hs
  have hu : Settled i child.rootPid status u :=
    preserved (fun _ _ _ h hs => h.step hs) hsettled hlater
  exact ⟨child, howned, hu.dead, fun child' howned' => hu.reports howned'⟩

theorem status_settled_codex : ∃ s s' u : Sys ℕ,
    run Sys.step Sys.new (codexOwned ++ [.event (.exit 0)]) = some s ∧
      s.step (.tryWait 0 (.ok (some 3))) = some s' ∧
      (∀ answer, reports s' (.tryWait 0 answer) = some (0, 3)) ∧
      (∀ answer, reports s' (.wait 0 answer) = some (0, 3)) ∧
      run Sys.step s' [.drop 0 [] true] = some u ∧ u.machine.Dead 0 := by
  obtain ⟨s, hr, ⟨hrep, hpid⟩, hs⟩ := exists_run
    (fun s : Sys ℕ => (reports s (.tryWait 0 (.ok (some 3))) = some (0, 3) ∧
      (owned s 0).map JobOwnedChild.rootPid = some 0) ∧
      ((s.step (.tryWait 0 (.ok (some 3)))).any fun s' => (owned s' 0).isSome &&
        (run Sys.step s' [.drop 0 [] true]).isSome) = true)
    (show (run Sys.step Sys.new (codexOwned ++ [.event (.exit 0)])).any _ = true by
      decide +kernel)
  obtain ⟨s', hs', hnext⟩ := (Option.any_eq_true _ _).mp hs
  rw [Bool.and_eq_true] at hnext
  obtain ⟨child', hchild'⟩ := Option.isSome_iff_exists.mp hnext.1
  obtain ⟨u, hu⟩ := Option.isSome_iff_exists.mp hnext.2
  obtain ⟨_, -, -, hlater⟩ :=
    status_settled hr hs' hrep (show run Sys.step s' [] = some s' from rfl)
  obtain ⟨child, hchild, hdead, -⟩ := status_settled hr hs' hrep hu
  rw [hchild] at hpid
  rw [show child.rootPid = 0 from Option.some.inj hpid] at hdead
  obtain ⟨-, htry, hwait⟩ := hlater child' hchild'
  exact ⟨s, s', u, hr, hs', htry, hwait, hu, hdead⟩

end Status

end Ccgonext.WindowsJob
