import Ccgonext.JobCalls

/-!
# The lives of agents in job objects

Every life knows at any time what it has open and what it has still to close,
whatever the other lives, the diagnostic tasks and the processes do in between.
When the program ends, the system closes its handles in its place.
-/

namespace Ccgonext.WindowsJob
open Lib Lib.Runs Lib.JobObjects

variable {η : Type}

section Closes

theorem mem_findProcess {snap : η} {pid : Pid} {pids : List Pid} {c : Call η}
    (hc : c ∈ findProcess snap pid pids) : c = .walk snap := by
  induction pids with
  | nil => exact List.mem_singleton.mp hc
  | cons entry entries ih =>
    rcases List.mem_cons.mp hc with rfl | hc
    · rfl
    split at hc
    · exact absurd hc List.not_mem_nil
    · exact ih hc

theorem mem_lookupProcessName {member : Member η} {c : Call η}
    (hc : c ∈ lookupProcessName member) :
    c = .openAux none ∨ ∃ snap, c = .openAux (some snap) ∨ c = .walk snap ∨
      c = .close snap .aux := by
  unfold lookupProcessName at hc
  split at hc
  · exact .inl (List.mem_singleton.mp hc)
  next snap _ =>
  refine .inr ⟨snap.handle, ?_⟩
  rw [List.cons_append, List.mem_cons, List.mem_append, List.mem_singleton] at hc
  rcases hc with rfl | hc | rfl
  · exact .inl rfl
  · exact .inr (.inl (mem_findProcess hc))
  · exact .inr (.inr rfl)

theorem logJobMembers_uses (job : η) (members : List (Member η)) :
    ∀ c ∈ logJobMembers job members, (∀ pid, c ≠ .spawn (some pid)) ∧
      (∀ x, c ≠ .close x .job) ∧ ∀ x, c.uses = some (x, .job) → x = job := by
  intro c hc
  rcases List.mem_cons.mp hc with rfl | hc
  · refine ⟨nofun, nofun, fun x hx => ?_⟩
    cases hx
    rfl
  · obtain ⟨member, -, hc⟩ := List.mem_flatMap.mp hc
    rcases mem_lookupProcessName hc with rfl | ⟨snap, rfl | rfl | rfl⟩
    all_goals exact ⟨nofun, nofun, nofun⟩

theorem startKill_closes (child : JobOwnedChild η) (members : List (Member η)) (ok : Bool) (x : η) :
    .close x .job ∉ child.startKill members ok := by
  unfold JobOwnedChild.startKill
  split
  · exact List.not_mem_nil
  · next job _ =>
    intro hmem
    rcases List.mem_append.mp hmem with hmem | hmem
    · split at hmem
      · exact (logJobMembers_uses job members _ hmem).2.1 x rfl
      · exact absurd hmem List.not_mem_nil
    · simp at hmem

theorem Sys.update_ended {s s' : Sys η} {i : ℕ} {f : Life η → Option (Life η)}
    (hs : s.update i f = some s') : s'.ended = s.ended := by
  obtain ⟨life, -, rfl⟩ := Option.map_eq_some_iff.mp hs
  rfl

end Closes

def Owner.attached : Owner η → Bool
  | .starting _ | .failed _ => false
  | .owned _ | .taken _ | .released | .dropped => true

theorem Owner.attached_ne {owner : Owner η} (h : owner.attached = true) :
    (∀ r, owner ≠ .starting r) ∧ ∀ e, owner ≠ .failed e := by
  refine ⟨fun r hr => ?_, fun e he => ?_⟩
  · rw [hr] at h
    cases h
  · rw [he] at h
    cases h

/-- What one life knows. The diagnostic task that is not aborted reads a job that
stays open as long as the wrapper owns the child. -/
structure LifeInv [DecidableEq η] (careful : Prop) (m : Machine η Party) (i : ℕ)
    (life : Life η) : Prop where
  main : ∃ v, Agrees m (.main i) v ∧ v.borrows = false ∧
    (life.owner.attached = true → v.assigned = true) ∧
    v.Accepts (Post careful life.owner) life.todo
  diagnostic : ∃ v, Agrees m (.diagnostic i) v ∧ v.root = none ∧
    v.Accepts (· = View.new true) (life.diagnostic.elim [] Diagnostic.todo)
  starting : ∀ r, life.owner = .starting r → life.diagnostic = none
  failed : ∀ e, life.owner = .failed e → life.todo = []
  lent : ∀ d, life.diagnostic = some d → d.aborted = false →
    (∃ child, life.owner = .owned child) ∧ ⟨d.job, .main i, .job⟩ ∈ m.handles ∧
      .close d.job .job ∉ life.todo
  reads : ∀ d, life.diagnostic = some d → ∀ c ∈ d.todo,
    (∀ pid, c ≠ .spawn (some pid)) ∧ ∀ h, c.uses = some (h, .job) → h = d.job

structure Inv [DecidableEq η] (careful : Prop) (s : Sys η) : Prop where
  sound : Sound s.machine
  lives : ∀ (i : ℕ) life, s.lives[i]? = some life → LifeInv careful s.machine i life
  others : ∀ i, s.lives.length ≤ i → Agrees s.machine (.main i) (.new false) ∧
    Agrees s.machine (.diagnostic i) (.new true)

/-- What the end of the program leaves: of a life that was in its `spawn` the one
process that has not been put in the job. Where `careful` says that no kill on drop
fails, no `spawn` that has failed has left one. -/
structure Stranded (careful : Prop) (s : Sys η) (pid : Pid) (p : Process Party) : Prop where
  suspended : p.suspended = true
  job : p.job = none
  only : ∀ pid' p', s.machine.procs[pid']? = some p' → p'.party = p.party → pid' = pid
  spawning : ∃ (i : ℕ) (life : Life η), p.party = .main i ∧ s.lives[i]? = some life ∧
    life.owner.attached = false ∧ (careful → ∀ e, life.owner ≠ .failed e)

def AllStranded (careful : Prop) (s : Sys η) : Prop :=
  ∀ pid p, s.machine.procs[pid]? = some p → p.alive = true → Stranded careful s pid p

section Stranded
variable {careful : Prop} {m' : Machine η Party} {s : Sys η}

theorem AllStranded.event (h : AllStranded careful s) {e : Event}
    (hm : s.machine.event e = some m') : AllStranded careful { s with machine := m' } := by
  have hback : ∀ {i : ℕ} {q}, m'.procs[i]? = some q → ∃ q', s.machine.procs[i]? = some q' ∧
      q.party = q'.party ∧ q.job = q'.job ∧ q.suspended = q'.suspended ∧
      (q.alive = true → q'.alive = true) := by
    intro i q hq
    cases e with
    | fork pid =>
      simp only [Machine.event] at hm
      split at hm
      · cases hm
      next p hp =>
      split at hm
      case isFalse => cases hm
      next hrun =>
      simp only [Bool.and_eq_true, Bool.not_eq_true'] at hrun
      exact absurd (hrun.2.symm.trans (h pid p hp hrun.1).suspended) Bool.false_ne_true
    | exit pid =>
      simp only [Machine.event] at hm
      split at hm <;> cases hm
      rw [Machine.getElem?_update] at hq
      obtain ⟨q', hq', rfl⟩ := Option.map_eq_some_iff.mp hq
      refine ⟨q', hq', ?_⟩
      split
      · exact ⟨rfl, rfl, rfl, by intros; contradiction⟩
      · exact ⟨rfl, rfl, rfl, id⟩
    | ended =>
      cases hm
      obtain ⟨q', hq', rfl⟩ := Option.map_eq_some_iff.mp (Machine.getElem?_killWhere _ ▸ hq)
      refine ⟨q', hq', rfl, rfl, rfl, fun ha => ?_⟩
      simp only [Bool.and_eq_true] at ha
      exact ha.1
  intro pid p hp hal
  obtain ⟨q, hq, hparty, hjob, hsusp, hqal⟩ := hback hp
  have hstr := h pid q hq (hqal hal)
  refine ⟨hsusp.trans hstr.suspended, hjob.trans hstr.job, fun pid' p' hp' hp'party => ?_,
    hparty ▸ hstr.spawning⟩
  obtain ⟨q', hq', hq'party, -⟩ := hback hp'
  exact hstr.only pid' q' hq' (hq'party.symm.trans (hp'party.trans hparty))

end Stranded

section Step
variable [DecidableEq η] {careful : Prop} {m m' : Machine η Party} {s s' : Sys η} {i : ℕ}
  {life life' : Life η}

theorem inv_new : Inv careful (Sys.new : Sys η) := by
  have hnew : ∀ (k : Party) b, Agrees (.new : Machine η Party) k (.new b) := by
    intro k b
    refine .new (fun x hx => absurd hx List.not_mem_nil) (fun i p hp => ?_) b
    cases hp
  refine ⟨⟨List.nodup_nil, fun i p j hp => ?_⟩, fun i life h => ?_,
    fun i _ => ⟨hnew _ _, hnew _ _⟩⟩
  · cases hp
  · cases h

theorem LifeInv.frame (h : LifeInv careful m i life) (hmain : Untouched (.main i) m m')
    (hdiag : Untouched (.diagnostic i) m m') : LifeInv careful m' i life where
  main := by
    obtain ⟨v, hv, hrest⟩ := h.main
    exact ⟨v, hv.of_untouched hmain, hrest⟩
  diagnostic := by
    obtain ⟨v, hv, hrest⟩ := h.diagnostic
    exact ⟨v, hv.of_untouched hdiag, hrest⟩
  starting := h.starting
  failed := h.failed
  lent d hd ha := by
    obtain ⟨hown, hmem, htodo⟩ := h.lent d hd ha
    exact ⟨hown, (hmain.handles _ rfl).mpr hmem, htodo⟩
  reads := h.reads

theorem Inv.update (h : Inv careful s) {f : Life η → Option (Life η)}
    (hs : s.update i f = some s')
    (hf : ∀ life life', s.lives[i]? = some life → f life = some life' →
      LifeInv careful s.machine i life → LifeInv careful s.machine i life') :
    Inv careful s' := by
  obtain ⟨life', hlife', rfl⟩ := Option.map_eq_some_iff.mp hs
  obtain ⟨life, hlife, hf'⟩ := Option.bind_eq_some_iff.mp hlife'
  refine ⟨h.sound, ?_, ?_⟩
  · exact Pool.indexed_set (fun j life _ hj => h.lives j life hj)
      (hf life life' hlife hf' (h.lives i life hlife))
  · intro j hj
    exact h.others j (by simpa [Sys.setLife] using hj)

theorem Inv.call_others (h : Inv careful s) {k : Party} (hun : ∀ j ≠ k, Untouched j s.machine m')
    (hk : k = .main i ∨ k = .diagnostic i) (hi : i < s.lives.length) :
    (∀ (j : ℕ) life, j ≠ i → s.lives[j]? = some life → LifeInv careful m' j life) ∧
    ∀ j, s.lives.length ≤ j → Agrees m' (.main j) (.new false) ∧
      Agrees m' (.diagnostic j) (.new true) := by
  have hne : ∀ j ≠ i, Party.main j ≠ k ∧ Party.diagnostic j ≠ k := by
    intro j hj
    rcases hk with rfl | rfl
    · exact ⟨fun heq => hj (Party.main.inj heq), Party.noConfusion⟩
    · exact ⟨Party.noConfusion, fun heq => hj (Party.diagnostic.inj heq)⟩
  refine ⟨fun j life hj hlife => ?_, fun j hj => ?_⟩
  · exact (h.lives j life hlife).frame (hun _ (hne j hj).1) (hun _ (hne j hj).2)
  · have hji : j ≠ i := by omega
    obtain ⟨hmain, hdiag⟩ := h.others j hj
    exact ⟨hmain.of_untouched (hun _ (hne j hji).1), hdiag.of_untouched (hun _ (hne j hji).2)⟩

theorem Inv.call (h : Inv careful s) (hs : s.call i = some s') : Inv careful s' := by
  obtain ⟨c, todo, owner, diagnostic, machine, hlife, hc, rfl⟩ := Sys.call_cases hs
  have hi := (List.getElem?_eq_some_iff.mp hlife).1
  have hinv := h.lives i _ hlife
  obtain ⟨v, hv, hborrows, hatt, hacc⟩ := hinv.main
  obtain ⟨w, hw, hrest⟩ := hacc (hv.fresh hc)
  have hkept := call_kept h.sound hv hw hc
  obtain ⟨hlives, hothers⟩ := h.call_others hkept.others (.inl rfl) hi
  refine ⟨hkept.sound, ?_, fun j hj => hothers j (by simpa using hj)⟩
  refine Pool.indexed_set hlives ⟨⟨w, hkept.agrees, ?_, fun ho => View.step_assigned hw (hatt ho),
    hrest⟩, ?_, hinv.starting, fun e he => ?_, ?_, hinv.reads⟩
  · rw [View.step_borrows hw, hborrows]
  · obtain ⟨v', hv', hrest'⟩ := hinv.diagnostic
    exact ⟨v', hv'.of_untouched (hkept.others _ Party.noConfusion), hrest'⟩
  · cases hinv.failed e he
  · intro d hd ha
    obtain ⟨hown, hmem, htodo⟩ := hinv.lent d hd ha
    rw [List.mem_cons, not_or] at htodo
    exact ⟨hown, hv.job_stays hw hkept.agrees hmem (Ne.symm htodo.1), htodo.2⟩

theorem Inv.pollCall (h : Inv careful s) (hs : s.pollCall i = some s') : Inv careful s' := by
  obtain ⟨todo, owner, job, delays, c, rest, aborted, machine, hlife, hc, rfl⟩ :=
    Sys.pollCall_cases hs
  have hi := (List.getElem?_eq_some_iff.mp hlife).1
  have hinv := h.lives i _ hlife
  obtain ⟨v, hv, hroot, hacc⟩ := hinv.diagnostic
  obtain ⟨w, hw, hrest⟩ := hacc (hv.fresh hc)
  have hnospawn := (hinv.reads _ rfl c List.mem_cons_self).1
  have hkept := call_kept h.sound hv hw hc
  obtain ⟨hlives, hothers⟩ := h.call_others hkept.others (.inr rfl) hi
  refine ⟨hkept.sound, ?_, fun j hj => hothers j (by simpa using hj)⟩
  have hmain := hkept.others (.main i) Party.noConfusion
  refine Pool.indexed_set hlives ⟨?_, ⟨w, hkept.agrees, (View.step_root hw hnospawn).trans hroot,
    hrest⟩, fun r hr => ?_, hinv.failed, ?_, ?_⟩
  · obtain ⟨v', hv', hrest'⟩ := hinv.main
    exact ⟨v', hv'.of_untouched hmain, hrest'⟩
  · cases hinv.starting r hr
  · intro d hd ha
    cases hd
    obtain ⟨hown, hmem, htodo⟩ := hinv.lent _ rfl ha
    exact ⟨hown, (hmain.handles _ rfl).mpr hmem, htodo⟩
  · intro d hd c' hc'
    cases hd
    exact hinv.reads _ rfl c' (List.mem_cons_of_mem c hc')

theorem Inv.spawn (h : Inv careful s) {o : Outcome η} (hcareful : careful → o.dropKills = true) :
    Inv careful { s with
      lives := s.lives ++ [⟨(WindowsJob.spawn o).1, .starting (WindowsJob.spawn o).2, none⟩] } := by
  obtain ⟨hmain, hdiag⟩ := h.others s.lives.length (Nat.le_refl _)
  refine ⟨h.sound, ?_, fun j hj => h.others j ?_⟩
  · refine Pool.indexed_spawn h.lives
      ⟨⟨_, hmain, rfl, nofun, (spawn_accepts o).mono fun w hw => ?_⟩, ⟨_, hdiag, rfl, rfl⟩, fun _ _ => rfl, nofun, nofun, nofun⟩
    cases hr : (WindowsJob.spawn o).2 with
    | error e =>
      rw [hr] at hw
      exact ⟨hw.1, fun hc => hw.2 (hcareful hc)⟩
    | ok child =>
      rw [hr] at hw
      exact hw
  · rw [List.length_append] at hj
    omega

theorem LifeInv.returned (h : LifeInv careful m i life) (hlife : life.returned = some life') :
    LifeInv careful m i life' := by
  obtain ⟨todo, owner, diagnostic⟩ := life
  obtain ⟨v, hv, hborrows, -, hacc⟩ := h.main
  unfold Life.returned at hlife
  split at hlife
  · next e htodo howner =>
    cases hlife
    cases htodo
    cases howner
    have hnone := h.starting _ rfl
    cases hnone
    exact ⟨⟨v, hv, hborrows, nofun, hacc⟩, h.diagnostic, nofun, fun _ _ => rfl, nofun, nofun⟩
  · next child htodo howner =>
    cases hlife
    cases htodo
    cases howner
    have hready : Ready child v := hacc
    obtain ⟨job, hjob, hvjob⟩ := hready.job
    have hnone := h.starting _ rfl
    cases hnone
    refine ⟨⟨v, hv, hborrows, fun _ => hready.assigned, hacc⟩, ?_, nofun, nofun, fun d hd ha => ?_,
      fun d hd c hc => ?_⟩
    · obtain ⟨v', hv', hroot', hrest'⟩ := h.diagnostic
      refine ⟨v', hv', hroot', ?_⟩
      simp only [hjob, Option.map_some]
      split
      · exact hrest'
      · exact hrest'
    · simp only [hjob, Option.map_some] at hd
      split at hd
      · cases hd
        exact ⟨⟨child, rfl⟩, (hv.job job).mpr (.inl hvjob), List.not_mem_nil⟩
      · cases hd
    · simp only [hjob, Option.map_some] at hd
      split at hd
      · cases hd
        exact absurd hc List.not_mem_nil
      · cases hd
  · cases hlife

theorem LifeInv.method (h : LifeInv careful m i life)
    {f : JobOwnedChild η → List (Call η) × Owner η} (hlife : life.method f = some life')
    (hf : ∀ child v, life.owner = .owned child → Ready child v →
      v.Accepts (Post careful (f child).2) (f child).1)
    (hstart : ∀ child, (f child).2.attached = true) :
    (∃ child, life.owner = .owned child ∧ life'.owner = (f child).2 ∧ life'.todo = (f child).1 ∧
      life'.diagnostic = life.diagnostic ∧
      ∀ d, life.diagnostic = some d → d.aborted = false → ⟨d.job, .main i, .job⟩ ∈ m.handles) ∧
    (∃ v, Agrees m (.main i) v ∧ v.borrows = false ∧
      (life'.owner.attached = true → v.assigned = true) ∧
      v.Accepts (Post careful life'.owner) life'.todo) ∧
    (∃ v, Agrees m (.diagnostic i) v ∧ v.root = none ∧
      v.Accepts (· = View.new true) (life'.diagnostic.elim [] Diagnostic.todo)) ∧
    life'.owner.attached = true := by
  obtain ⟨todo, owner, diagnostic⟩ := life
  obtain ⟨v, hv, hborrows, hatt, hacc⟩ := h.main
  unfold Life.method at hlife
  split at hlife
  case h_2 => cases hlife
  next child htodo howner =>
  cases hlife
  cases htodo
  cases howner
  exact ⟨⟨child, rfl, rfl, rfl, rfl, fun d hd ha => (h.lent d hd ha).2.1⟩,
    ⟨v, hv, hborrows, fun _ => hatt rfl, hf child v rfl hacc⟩, h.diagnostic, hstart child⟩

theorem LifeInv.stays (h : LifeInv careful m i life) {g : JobOwnedChild η → List (Call η)}
    {f : JobOwnedChild η → JobOwnedChild η}
    (hlife : (life.method fun child => (g child, .owned (f child))) = some life')
    (hf : ∀ child v, Ready child v → v.Accepts (Ready (f child)) (g child))
    (hclose : ∀ child x, .close x .job ∉ g child) : LifeInv careful m i life' := by
  obtain ⟨⟨child, -, howner, htodo, hdiag, hlent⟩, hmain, hdiagnostic, hstart⟩ :=
    h.method hlife (fun child v _ hready => hf child v hready) fun _ => rfl
  obtain ⟨hstarting, hfailed⟩ := Owner.attached_ne hstart
  refine ⟨hmain, hdiagnostic, fun r hr => absurd hr (hstarting r),
    fun e he => absurd he (hfailed e), fun d hd ha => ?_, hdiag ▸ h.reads⟩
  rw [hdiag] at hd
  rw [htodo]
  exact ⟨⟨f child, howner⟩, hlent d hd ha, hclose child d.job⟩

theorem LifeInv.leaves (h : LifeInv careful m i life)
    {f : JobOwnedChild η → List (Call η) × Owner η}
    (hlife : (life.method f).map Life.abort = some life')
    (hf : ∀ child v, life.owner = .owned child → Ready child v →
      v.Accepts (Post careful (f child).2) (f child).1)
    (hstart : ∀ child, (f child).2.attached = true) : LifeInv careful m i life' := by
  obtain ⟨mid, hmid, rfl⟩ := Option.map_eq_some_iff.mp hlife
  obtain ⟨⟨child, -, -, -, hsame, -⟩, hmain, ⟨v, hv, hroot, hdiag⟩, hst⟩ := h.method hmid hf hstart
  obtain ⟨hstarting, hfailed⟩ := Owner.attached_ne hst
  refine ⟨hmain, ⟨v, hv, hroot, ?_⟩, fun r hr => absurd hr (hstarting r),
    fun e he => absurd he (hfailed e), fun d hd ha => ?_, fun d hd => ?_⟩
  · unfold Life.abort
    cases hmd : mid.diagnostic with
    | none => rwa [hmd] at hdiag
    | some d => rwa [hmd] at hdiag
  · obtain ⟨d', -, rfl⟩ := Option.map_eq_some_iff.mp hd
    cases ha
  · obtain ⟨d', hd', rfl⟩ := Option.map_eq_some_iff.mp hd
    exact h.reads d' (hsame ▸ hd')

theorem LifeInv.dropInner (h : LifeInv careful m i life) {killed : Bool}
    (hlife : life.dropInner killed = some life') : LifeInv careful m i life' := by
  obtain ⟨todo, owner, diagnostic⟩ := life
  obtain ⟨v, hv, hborrows, hatt, hacc⟩ := h.main
  unfold Life.dropInner at hlife
  split at hlife
  case h_2 => cases hlife
  next child htodo howner =>
  cases hlife
  cases htodo
  cases howner
  refine ⟨⟨v, hv, hborrows, fun _ => hatt rfl, taken_drop hacc killed⟩, h.diagnostic, nofun,
    nofun, fun d hd ha => ?_, h.reads⟩
  obtain ⟨⟨child', hchild⟩, -⟩ := h.lent d hd ha
  cases hchild

theorem LifeInv.poll (h : LifeInv careful m i life) {members : List (Member η)}
    (hlife : life.poll members = some life') : LifeInv careful m i life' := by
  obtain ⟨todo, owner, diagnostic⟩ := life
  obtain ⟨v, hv, hroot, hacc⟩ := h.diagnostic
  unfold Life.poll at hlife
  split at hlife
  case h_2 => cases hlife
  next job delay delays hdiag =>
  cases hlife
  cases hdiag
  have hnew : v = View.new true := hacc
  subst hnew
  refine ⟨h.main, ⟨_, hv, rfl, logJobMembers_keeps (.inr rfl) members⟩, fun r hr => ?_,
    h.failed, fun d hd ha => ?_, fun d hd c hc => ?_⟩
  · cases h.starting r hr
  · cases hd
    exact h.lent ⟨job, delay :: delays, [], false⟩ rfl rfl
  · cases hd
    obtain ⟨hspawn, -, huses⟩ := logJobMembers_uses job members c hc
    exact ⟨hspawn, huses⟩

def Kills (careful : Prop) : Action η → Prop
  | .spawn o => careful → o.dropKills = true
  | _ => True

theorem Inv.program (h : Inv careful s) {a : Action η} (ha : Kills careful a)
    (hs : s.program a = some s') : Inv careful s' := by
  cases a with
  | spawn o =>
    cases hs
    exact h.spawn ha
  | call i => exact h.call hs
  | pollCall i => exact h.pollCall hs
  | event e => cases hs
  | returned i => exact h.update hs fun life life' _ hf hl => hl.returned hf
  | startKill i members ok =>
    exact h.update hs fun life life' _ hf hl =>
      hl.stays hf (fun child v hready => hready.startKill members ok)
        fun child x => startKill_closes child members ok x
  | tryWait i answer =>
    exact h.update (Sys.tryWait_cases hs).2 fun life life' _ hf hl =>
      hl.stays hf (fun child v hready => hready.tryWait answer) fun _ _ => List.not_mem_nil
  | wait i answer =>
    exact h.update (Sys.wait_cases hs).2 fun life life' _ hf hl =>
      hl.stays hf (fun child v hready => hready.wait answer) fun _ _ => List.not_mem_nil
  | intoInner i =>
    exact h.update hs fun life life' _ hf hl =>
      hl.leaves hf (fun child v _ hready => hready.intoInner) fun _ => rfl
  | dropInner i killed => exact h.update hs fun life life' _ hf hl => hl.dropInner hf
  | drop i members killed =>
    exact h.update hs fun life life' _ hf hl =>
      hl.leaves hf (fun child v _ hready => hready.drop members killed) fun _ => rfl
  | poll i members => exact h.update hs fun life life' _ hf hl => hl.poll hf

def Good (careful : Prop) (s : Sys η) : Prop :=
  if s.ended then AllStranded careful s else Inv careful s

theorem Inv.event (h : Inv careful s) {e : Event} (he : e ≠ .ended)
    (hm : s.machine.event e = some m') : Inv careful { s with machine := m' } := by
  have hkeep : Sound m' ∧ ∀ k (v : View η), Agrees s.machine k v → Agrees m' k v := by
    cases e with
    | fork pid => exact fork_kept h.sound hm
    | exit pid => exact exit_kept h.sound hm
    | ended => exact absurd rfl he
  have hhandles : m'.handles = s.machine.handles := by
    cases e with
    | fork pid =>
      simp only [Machine.event] at hm
      split at hm
      · cases hm
      · split at hm <;> cases hm
        rfl
    | exit pid =>
      simp only [Machine.event] at hm
      split at hm <;> cases hm
      rfl
    | ended => exact absurd rfl he
  refine ⟨hkeep.1, fun i life hlife => ?_, fun i hi => ?_⟩
  · have hl := h.lives i life hlife
    refine ⟨?_, ?_, hl.starting, hl.failed, fun d hd ha => hhandles ▸ hl.lent d hd ha, hl.reads⟩
    · obtain ⟨v, hv, hrest⟩ := hl.main
      exact ⟨v, hkeep.2 _ v hv, hrest⟩
    · obtain ⟨v, hv, hrest⟩ := hl.diagnostic
      exact ⟨v, hkeep.2 _ v hv, hrest⟩
  · obtain ⟨hmain, hdiag⟩ := h.others i hi
    exact ⟨hkeep.2 _ _ hmain, hkeep.2 _ _ hdiag⟩

theorem Inv.view (h : Inv careful s) (k : Party) : ∃ v : View η, Agrees s.machine k v := by
  have hcases : ∀ i, (∃ v : View η, Agrees s.machine (.main i) v) ∧
      ∃ v : View η, Agrees s.machine (.diagnostic i) v := by
    intro i
    cases hlife : s.lives[i]? with
    | none =>
      obtain ⟨hmain, hdiag⟩ := h.others i (List.getElem?_eq_none_iff.mp hlife)
      exact ⟨⟨_, hmain⟩, ⟨_, hdiag⟩⟩
    | some life =>
      have hl := h.lives i life hlife
      obtain ⟨v, hv, -⟩ := hl.main
      obtain ⟨v', hv', -⟩ := hl.diagnostic
      exact ⟨⟨v, hv⟩, ⟨v', hv'⟩⟩
  cases k with
  | main i => exact (hcases i).1
  | diagnostic i => exact (hcases i).2

theorem program_ended {a : Action η} (hs : s.program a = some s') : s'.ended = s.ended := by
  rcases Sys.program_cases hs with ⟨life, rfl⟩ | ⟨i, f, hupdate⟩ | ⟨i, -, hcall⟩ | ⟨i, -, hcall⟩
  · rfl
  · exact Sys.update_ended hupdate
  · obtain ⟨c, todo, owner, diagnostic, machine, -, -, rfl⟩ := Sys.call_cases hcall
    rfl
  · obtain ⟨todo, owner, job, delays, c, rest, aborted, machine, -, -, rfl⟩ :=
      Sys.pollCall_cases hcall
    rfl

theorem Inv.party (h : Inv careful s) {pid : Pid} {p : Process Party}
    (hp : s.machine.procs[pid]? = some p) :
    ∃ i life, p.party = .main i ∧ s.lives[i]? = some life ∧ LifeInv careful s.machine i life := by
  obtain ⟨i, hi⟩ | ⟨i, hi⟩ : (∃ i, p.party = .main i) ∨ ∃ i, p.party = .diagnostic i := by
    cases p.party with
    | main i => exact .inl ⟨i, rfl⟩
    | diagnostic i => exact .inr ⟨i, rfl⟩
  · cases hlife : s.lives[i]? with
    | none =>
      obtain ⟨hmain, -⟩ := h.others i (List.getElem?_eq_none_iff.mp hlife)
      exact absurd hi (hmain.unrooted rfl pid p hp)
    | some life => exact ⟨i, life, hi, hlife, h.lives i life hlife⟩
  · cases hlife : s.lives[i]? with
    | none =>
      obtain ⟨-, hdiag⟩ := h.others i (List.getElem?_eq_none_iff.mp hlife)
      exact absurd hi (hdiag.unrooted rfl pid p hp)
    | some life =>
      obtain ⟨v, hv, hroot, -⟩ := (h.lives i life hlife).diagnostic
      exact absurd hi (hv.unrooted hroot pid p hp)

theorem Inv.stranded (h : Inv careful s) (hm : s.machine.event .ended = some m') :
    AllStranded careful { s with machine := m', ended := true } := by
  intro pid p hp hal
  obtain ⟨hsusp, hjob⟩ := ended_aftermath h.sound (fun p _ => h.view p.party) hm pid p hp hal
  have hback : ∀ {i : ℕ} {q}, m'.procs[i]? = some q → ∃ q', s.machine.procs[i]? = some q' ∧
      q.party = q'.party ∧ q.job = q'.job ∧ (q.alive = true → q'.alive = true) := by
    intro i q hq
    cases hm
    obtain ⟨q', hq', rfl⟩ := Option.map_eq_some_iff.mp (Machine.getElem?_killWhere _ ▸ hq)
    refine ⟨q', hq', rfl, rfl, fun ha => ?_⟩
    simp only [Bool.and_eq_true] at ha
    exact ha.1
  obtain ⟨q, hq, hparty, hqjob, hqal⟩ := hback hp
  obtain ⟨i, life, hi, hlife, hinv⟩ := h.party hq
  obtain ⟨v, hv, -, hatt, hacc⟩ := hinv.main
  have hun : v.assigned = false := by
    cases ha : v.assigned with
    | false => rfl
    | true =>
      have hin := hv.assigned ha pid q hq hi
      rw [← hqjob, hjob] at hin
      cases hin
  have hroot := (hv.unassigned hun pid q hq hi).1
  refine ⟨hsusp, hjob, fun pid' p' hp' hp'party => ?_, i, life, hparty.trans hi, hlife, ?_,
    fun hcareful e he => ?_⟩
  · obtain ⟨q', hq', hq'party, -⟩ := hback hp'
    have hmine := hq'party.symm.trans (hp'party.trans (hparty.trans hi))
    have hroot' := (hv.unassigned hun pid' q' hq' hmine).1
    rw [hroot] at hroot'
    exact (Option.some.inj hroot').symm
  · cases ho : life.owner.attached with
    | false => rfl
    | true => exact absurd (hun.symm.trans (hatt ho)) Bool.false_ne_true
  · rw [hinv.failed e he, he] at hacc
    rcases hacc.2 hcareful with hr | ha | hk
    · rw [hroot] at hr
      cases hr
    · exact absurd (hun.symm.trans ha) Bool.false_ne_true
    · exact absurd ((hv.killed hk pid q hroot hq).symm.trans (hqal hal)) Bool.false_ne_true

theorem good_step (h : Good careful s) {a : Action η} (ha : Kills careful a)
    (hs : s.step a = some s') : Good careful s' := by
  cases hend : s.ended with
  | true =>
    have hstr : AllStranded careful s := by simpa only [Good, hend, if_true] using h
    cases a with
    | event e =>
      obtain ⟨machine, hm, rfl⟩ := Option.map_eq_some_iff.mp hs
      simp only [Good, hend, Bool.true_or, if_true]
      have hnext := hstr.event hm
      rwa [hend] at hnext
    | _ => simp only [Sys.step, hend, if_true, reduceCtorEq] at hs
  | false =>
    have hinv : Inv careful s := by simpa only [Good, hend, Bool.false_eq_true, if_false] using h
    cases a with
    | event e =>
      obtain ⟨machine, hm, rfl⟩ := Option.map_eq_some_iff.mp hs
      by_cases he : e = .ended
      · subst he
        simp only [Good, hend, Bool.false_or, decide_true, if_true]
        exact hinv.stranded hm
      · simp only [Good, hend, he, Bool.false_or, decide_false, Bool.false_eq_true, if_false]
        have hnext := hinv.event he hm
        rwa [hend] at hnext
    | _ =>
      simp only [Sys.step, hend, Bool.false_eq_true, if_false] at hs
      have hprogram := program_ended hs
      simp only [Good, hprogram, hend, Bool.false_eq_true, if_false]
      exact hinv.program ha hs

end Step

end Ccgonext.WindowsJob
