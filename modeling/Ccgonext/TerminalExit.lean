import Ccgonext.Terminals

/-!
# The exit of a terminal

`supervise_terminal` stores the exit status when all drain tasks have ended, and
wakes the waiting calls after that. So whoever sees the status sees all of the
output, and no call that waits for it misses it.
-/

namespace Ccgonext.Terminals
open Lib Lib.Runs TerminalOutput

def SupervisorPc.drained : SupervisorPc → Bool
  | .storing _ | .notifying | .done => true
  | _ => false

def SupervisorPc.stored : SupervisorPc → Bool
  | .notifying | .done => true
  | _ => false

namespace Terminal

def OutputFits (s : Terminal) : OutputPc → Prop
  | .copying (some status) => s.exitStatus = some status
  | .returned ⟨output, truncated, some status⟩ =>
    s.exitStatus = some status ∧ output = s.buffer.output ∧ truncated = s.buffer.truncated
  | _ => True

def WaitFits (s : Terminal) : WaitPc → Prop
  | .returned status => s.exitStatus = some status
  | .waiting false => s.exitStatus = none ∨ s.supervisor = .notifying
  | _ => True

structure Inv (s : Terminal) : Prop where
  joined : ∀ k status, s.supervisor = .joining k status →
    ∀ j < k, s.drains[j]? = some .finished
  drained : s.supervisor.drained = true → ∀ pc ∈ s.drains, pc = .finished
  stored : s.exitStatus.isSome = s.supervisor.stored
  outputs : ∀ pc ∈ s.outputs, s.OutputFits pc
  waits : ∀ pc ∈ s.waits, s.WaitFits pc

variable {s s' : Terminal} {k : ℕ} {pc : DrainPc}

theorem new_inv (outputLimit : Option ℕ) (drains : ℕ) : Inv (.new outputLimit drains) := by
  refine ⟨fun k status h => ?_, fun h => ?_, rfl, fun pc h => ?_, fun pc h => ?_⟩
  all_goals cases h

theorem drained_of_stored {pc : SupervisorPc} (h : pc.stored = true) : pc.drained = true := by
  cases pc <;> first | rfl | cases h

theorem Inv.running (h : Inv s) (hk : s.drains[k]? = some pc) (hpc : pc ≠ .finished) :
    s.supervisor.drained = false ∧ s.exitStatus = none := by
  have hdrained : s.supervisor.drained = false := by
    cases hd : s.supervisor.drained with
    | false => rfl
    | true => exact absurd (h.drained hd pc (List.mem_of_getElem? hk)) hpc
  refine ⟨hdrained, ?_⟩
  have hstored := h.stored
  cases hs : s.supervisor.stored with
  | false =>
    rw [hs] at hstored
    exact Option.isNone_iff_eq_none.mp (Option.isSome_eq_false_iff.mp hstored)
  | true =>
    rw [drained_of_stored hs] at hdrained
    cases hdrained

theorem OutputFits.mono {pc : OutputPc} (h : s.OutputFits pc)
    (hsame : ∀ status, s.exitStatus = some status →
      s'.exitStatus = some status ∧ s'.buffer = s.buffer) : s'.OutputFits pc := by
  match pc, h with
  | .copying (some status), h => exact (hsame status h).1
  | .returned ⟨output, truncated, some status⟩, ⟨hstatus, houtput, htruncated⟩ =>
    obtain ⟨hstatus', hbuffer⟩ := hsame status hstatus
    refine ⟨hstatus', ?_, ?_⟩
    · rw [hbuffer]
      exact houtput
    · rw [hbuffer]
      exact htruncated
  | .copying none, _ | .returned ⟨_, _, none⟩, _ | .locking, _ | .reading, _ | .notFound, _ =>
    trivial

theorem WaitFits.mono {pc : WaitPc} (h : s.WaitFits pc)
    (hsame : ∀ status, s.exitStatus = some status → s'.exitStatus = some status)
    (hsleep : s.exitStatus = none ∨ s.supervisor = .notifying →
      s'.exitStatus = none ∨ s'.supervisor = .notifying) : s'.WaitFits pc := by
  match pc, h with
  | .returned status, h => exact hsame status h
  | .waiting false, h => exact hsleep h
  | .enabling, _ | .checking _, _ | .waiting true, _ | .notFound, _ => trivial

theorem Inv.drain (h : Inv s) (hk : s.drains[k]? = some pc) (hpc : pc ≠ .finished)
    (pc' : DrainPc) (buffer : TerminalBuffer) :
    Inv { s with buffer := buffer, drains := s.drains.set k pc' } := by
  obtain ⟨hdrained, hnone⟩ := h.running hk hpc
  have hno : ∀ status, s.exitStatus ≠ some status := by
    intro status hsome
    cases hnone.symm.trans hsome
  refine ⟨fun n status hn j hj => ?_, fun hd => ?_, h.stored, fun o ho => ?_, fun w hw => ?_⟩
  · have hold := h.joined n status hn j hj
    have hjk : k ≠ j := by
      rintro rfl
      cases hk.symm.trans hold
      exact hpc rfl
    exact (List.getElem?_set_ne hjk).trans hold
  · cases hdrained.symm.trans hd
  · exact (h.outputs o ho).mono fun status hs => absurd hs (hno status)
  · exact (h.waits w hw).mono (fun status hs => hs) id

theorem Inv.drainStep (h : Inv s) {a : Action} (ha : ∃ k, (∃ chunk, a = .read k chunk) ∨
    a = .append k ∨ a = .finish k) (hs : s.step a = some s') : Inv s' := by
  obtain ⟨k, ⟨chunk, rfl⟩ | rfl | rfl⟩ := ha
  · simp only [step] at hs
    split at hs
    · next hk =>
      cases hs
      exact h.drain hk (by simp) _ s.buffer
    · cases hs
  · simp only [step] at hs
    split at hs
    · next chunk hk =>
      split at hs
      · cases hs
      · cases hs
        exact h.drain hk (by simp) _ _
    · cases hs
  · simp only [step] at hs
    split at hs
    · next hk =>
      cases hs
      exact h.drain hk (by simp) _ s.buffer
    · cases hs

theorem Inv.supervise (h : Inv s) {pc : SupervisorPc} (hstored : s.supervisor.stored = pc.stored)
    (hjoined : ∀ k status, pc = .joining k status → ∀ j < k, s.drains[j]? = some .finished)
    (hdrained : pc.drained = true → ∀ d ∈ s.drains, d = .finished)
    (hnotify : s.supervisor ≠ .notifying) : Inv { s with supervisor := pc } := by
  refine ⟨hjoined, hdrained, h.stored.trans hstored, fun o ho => ?_, fun w hw => ?_⟩
  · exact (h.outputs o ho).mono fun status hs => ⟨hs, rfl⟩
  · exact (h.waits w hw).mono (fun status hs => hs)
      fun hsleep => .inl (hsleep.resolve_right hnotify)

theorem Inv.join (h : Inv s) (hs : s.step .join = some s') : Inv s' := by
  simp only [step, Option.map_eq_some_iff] at hs
  obtain ⟨pc, hpc, rfl⟩ := hs
  cases hsup : s.supervisor with
  | joining k status =>
    rw [hsup, superviseStep] at hpc
    have hbefore := h.joined k status hsup
    split at hpc
    · next hk =>
      cases hpc
      refine h.supervise (by rw [hsup]; rfl) (fun n status' hn j hj => ?_) (fun hd => ?_)
        (by rw [hsup]; exact SupervisorPc.noConfusion)
      · cases hn
        rcases Nat.lt_succ_iff_lt_or_eq.mp hj with hlt | rfl
        · exact hbefore j hlt
        · exact hk
      · cases hd
    · cases hpc
    · next hk =>
      cases hpc
      refine h.supervise (by rw [hsup]; rfl) (fun n status' hn => ?_) (fun _ d hd => ?_)
        (by rw [hsup]; exact SupervisorPc.noConfusion)
      · cases hn
      · obtain ⟨j, hj⟩ := List.mem_iff_getElem?.mp hd
        have hlt : j < k := Nat.lt_of_lt_of_le (List.getElem?_eq_some_iff.mp hj).1
          (List.getElem?_eq_none_iff.mp hk)
        exact Option.some.inj (hj.symm.trans (hbefore j hlt))
  | waiting | killing | storing | notifying | done =>
    rw [hsup] at hpc
    cases hpc

theorem Inv.store (h : Inv s) (hs : s.step .store = some s') : Inv s' := by
  simp only [step] at hs
  split at hs
  · next status hsup =>
    cases hs
    have hstored := h.stored
    rw [hsup] at hstored
    have hno : ∀ status', s.exitStatus ≠ some status' := by
      intro status' hsome
      rw [hsome] at hstored
      cases hstored
    refine ⟨fun k status' hn => ?_, fun _ => h.drained (by rw [hsup]; rfl), rfl, fun o ho => ?_,
      fun w hw => ?_⟩
    · cases hn
    · exact (h.outputs o ho).mono fun status' hsome => absurd hsome (hno status')
    · exact (h.waits w hw).mono (fun status' hsome => absurd hsome (hno status')) fun _ => .inr rfl
  · cases hs

theorem Inv.notify (h : Inv s) (hs : s.step .notify = some s') : Inv s' := by
  simp only [step] at hs
  split at hs
  · next hsup =>
    cases hs
    have hstored := h.stored
    rw [hsup] at hstored
    refine ⟨fun k status hn => ?_, fun _ => h.drained (by rw [hsup]; rfl), hstored, fun o ho => ?_,
      fun w hw => ?_⟩
    · cases hn
    · exact (h.outputs o ho).mono fun status hsome => ⟨hsome, rfl⟩
    · obtain ⟨old, hold, rfl⟩ := List.mem_map.mp hw
      have hfits := h.waits old hold
      match old, hfits with
      | .returned status, hfits => exact hfits
      | .enabling, _ | .checking _, _ | .waiting _, _ | .notFound, _ => trivial
  · cases hs

theorem Inv.exit (h : Inv s) {status : ExitStatus} (hs : s.step (.exit status) = some s') :
    Inv s' := by
  have hstart : s.supervisor = .waiting ∨ s.supervisor = .killing →
      Inv { s with supervisor := .joining 0 status } := by
    intro hsup
    refine h.supervise (by rcases hsup with h | h <;> rw [h] <;> rfl) (fun k status' hn j hj => ?_)
      (fun hd => by cases hd)
      (by rcases hsup with h | h <;> rw [h] <;> exact SupervisorPc.noConfusion)
    cases hn
    exact absurd hj (Nat.not_lt_zero j)
  simp only [step] at hs
  split at hs
  · next hsup =>
    cases hs
    exact hstart (.inl hsup)
  · next hsup =>
    cases hs
    exact hstart (.inr hsup)
  · cases hs

theorem Inv.receiveKill (h : Inv s) (hs : s.step .receiveKill = some s') : Inv s' := by
  simp only [step] at hs
  split at hs
  · next hsup =>
    split at hs
    · cases hs
      refine h.supervise (by rw [hsup]; rfl) (fun k status hn => ?_) (fun hd => by cases hd)
        (by rw [hsup]; exact SupervisorPc.noConfusion)
      cases hn
    · cases hs
  · cases hs

theorem Inv.frame (h : Inv s) (killTx killSent registered : Bool) :
    Inv { s with killTx := killTx, killSent := killSent, registered := registered } :=
  ⟨h.joined, h.drained, h.stored,
    fun o ho => (h.outputs o ho).mono fun _ hs => ⟨hs, rfl⟩,
    fun w hw => (h.waits w hw).mono (fun _ hs => hs) id⟩

theorem Inv.request (h : Inv s) {a : Action} (ha : a = .kill ∨ a = .release)
    (hs : s.step a = some s') : Inv s' := by
  rcases ha with rfl | rfl
  · simp only [step, Option.some.injEq] at hs
    subst hs
    split
    · exact h.frame _ _ s.registered
    · exact h
  · simp only [step, Option.some.injEq] at hs
    subst hs
    split
    · exact h.frame _ _ _
    · exact h

theorem Inv.withOutputs (h : Inv s) {outputs : List OutputPc}
    (hfits : ∀ pc ∈ outputs, s.OutputFits pc) : Inv { s with outputs := outputs } :=
  ⟨h.joined, h.drained, h.stored,
    fun o ho => (hfits o ho).mono fun _ hs => ⟨hs, rfl⟩,
    fun w hw => (h.waits w hw).mono (fun _ hs => hs) id⟩

theorem Inv.withWaits (h : Inv s) {waits : List WaitPc}
    (hfits : ∀ pc ∈ waits, s.WaitFits pc) : Inv { s with waits := waits } :=
  ⟨h.joined, h.drained, h.stored,
    fun o ho => (h.outputs o ho).mono fun _ hs => ⟨hs, rfl⟩,
    fun w hw => (hfits w hw).mono (fun _ hs => hs) id⟩

theorem outputStep_fits {pc pc' : OutputPc} (hfits : s.OutputFits pc)
    (hs : s.outputStep pc = some pc') : s.OutputFits pc' := by
  cases pc with
  | locking =>
    cases hs
    trivial
  | reading =>
    cases hs
    cases hstatus : s.exitStatus with
    | none => trivial
    | some status => exact hstatus
  | copying exitStatus =>
    cases hs
    cases exitStatus with
    | none => trivial
    | some status => exact ⟨hfits, rfl, rfl⟩
  | returned | notFound => cases hs

theorem waitStep_fits {pc pc' : WaitPc} (hs : s.waitStep pc = some pc') : s.WaitFits pc' := by
  cases pc with
  | enabling =>
    cases hs
    trivial
  | checking woken =>
    simp only [waitStep] at hs
    split at hs
    · next hstatus =>
      cases hs
      exact hstatus
    · next hnone =>
      cases hs
      cases woken with
      | true => trivial
      | false => exact .inl hnone
  | waiting woken =>
    cases woken with
    | true =>
      cases hs
      trivial
    | false => cases hs
  | returned | notFound => cases hs

theorem Inv.output (h : Inv s) {a : Action} (ha : a = .output ∨ ∃ i, a = .outputStep i)
    (hs : s.step a = some s') : Inv s' := by
  rcases ha with rfl | ⟨i, rfl⟩
  · simp only [step, Option.some.injEq] at hs
    subst hs
    refine h.withOutputs (Pool.forall_spawn h.outputs ?_)
    split <;> trivial
  · simp only [step] at hs
    split at hs
    · next pc hpc =>
      obtain ⟨pc', hstep, rfl⟩ := Option.map_eq_some_iff.mp hs
      have hfits := outputStep_fits (h.outputs pc (List.mem_of_getElem? hpc)) hstep
      exact h.withOutputs (Pool.forall_set h.outputs hfits)
    · cases hs

theorem Inv.wait (h : Inv s) {a : Action} (ha : a = .wait ∨ ∃ i, a = .waitStep i)
    (hs : s.step a = some s') : Inv s' := by
  rcases ha with rfl | ⟨i, rfl⟩
  · simp only [step, Option.some.injEq] at hs
    subst hs
    refine h.withWaits (Pool.forall_spawn h.waits ?_)
    split <;> trivial
  · simp only [step] at hs
    split at hs
    · next pc hpc =>
      obtain ⟨pc', hstep, rfl⟩ := Option.map_eq_some_iff.mp hs
      exact h.withWaits (Pool.forall_set h.waits (waitStep_fits hstep))
    · cases hs

theorem step_inv (s : Terminal) (a : Action) (s' : Terminal) (h : Inv s)
    (hs : s.step a = some s') : Inv s' := by
  cases a with
  | read k chunk => exact h.drainStep ⟨k, .inl ⟨chunk, rfl⟩⟩ hs
  | append k => exact h.drainStep ⟨k, .inr (.inl rfl)⟩ hs
  | finish k => exact h.drainStep ⟨k, .inr (.inr rfl)⟩ hs
  | exit status => exact h.exit hs
  | receiveKill => exact h.receiveKill hs
  | join => exact h.join hs
  | store => exact h.store hs
  | notify => exact h.notify hs
  | kill => exact h.request (.inl rfl) hs
  | release => exact h.request (.inr rfl) hs
  | output => exact h.output (.inl rfl) hs
  | outputStep i => exact h.output (.inr ⟨i, rfl⟩) hs
  | wait => exact h.wait (.inl rfl) hs
  | waitStep i => exact h.wait (.inr ⟨i, rfl⟩) hs

theorem run_inv {as : List Action} (h : Inv s) (hr : run step s as = some s') : Inv s' :=
  preserved step_inv h hr

/-- With an exit status there is no append any more, and the status stays. -/
theorem exited_step {a : Action} {status : ExitStatus} (h : Inv s)
    (hstatus : s.exitStatus = some status) (hs : s.step a = some s') :
    s'.exitStatus = some status ∧ s'.buffer = s.buffer ∧ ∀ k, a ≠ .append k := by
  cases a with
  | append k =>
    simp only [step] at hs
    split at hs
    · next chunk hk =>
      cases (h.running hk DrainPc.noConfusion).2.symm.trans hstatus
    · cases hs
  | store =>
    simp only [step] at hs
    split at hs
    · next status' hsup =>
      have hstored := h.stored
      rw [hsup, hstatus] at hstored
      cases hstored
    · cases hs
  | read k chunk | finish k | exit status' | receiveKill | notify =>
    simp only [step] at hs
    repeat' split at hs
    all_goals
      cases hs
      try exact ⟨hstatus, rfl, fun _ => Action.noConfusion⟩
  | join | outputStep i | waitStep i =>
    simp only [step] at hs
    repeat' split at hs
    all_goals
      try cases hs
      try
        obtain ⟨pc, -, rfl⟩ := Option.map_eq_some_iff.mp hs
        exact ⟨hstatus, rfl, fun _ => Action.noConfusion⟩
  | kill | release | output | wait =>
    simp only [step, Option.some.injEq] at hs
    subst hs
    refine ⟨?_, ?_, fun _ => Action.noConfusion⟩
    all_goals
      try split
      all_goals first | exact hstatus | rfl

theorem exited_run {as : List Action} {status : ExitStatus} (h : Inv s)
    (hstatus : s.exitStatus = some status) (hr : run step s as = some s') :
    s'.buffer = s.buffer ∧ ∀ k, .append k ∉ as := by
  induction as generalizing s with
  | nil =>
    cases hr
    exact ⟨rfl, fun k => List.not_mem_nil⟩
  | cons a as ih =>
    obtain ⟨u, hu, hrest⟩ := run_cons_inv hr
    obtain ⟨hstatus', hbuffer, ha⟩ := exited_step h hstatus hu
    obtain ⟨hend, hno⟩ := ih (step_inv s a u h hu) hstatus' hrest
    refine ⟨hend.trans hbuffer, fun k hmem => ?_⟩
    rcases List.mem_cons.mp hmem with heq | hmem
    · exact ha k heq.symm
    · exact hno k hmem

/-- What a call gives out with an exit status is all of the output: from the moment
it was copied nothing is appended. -/
theorem exited_output_final (outputLimit : Option ℕ) (drains : ℕ) (as : List Action)
    (s : Terminal) (hrun : run step (.new outputLimit drains) as = some s) (i : ℕ)
    (response : OutputResponse) (hout : s.outputs[i]? = some (.returned response))
    (hexit : response.exitStatus ≠ none) :
    response.output = s.buffer.output ∧ response.truncated = s.buffer.truncated ∧
      ∀ bs t, run step s bs = some t → t.buffer = s.buffer ∧ ∀ k, .append k ∉ bs := by
  have hI := run_inv (new_inv outputLimit drains) hrun
  obtain ⟨output, truncated, exitStatus⟩ := response
  obtain ⟨status, rfl⟩ := Option.ne_none_iff_exists'.mp hexit
  obtain ⟨hstatus, houtput, htruncated⟩ := hI.outputs _ (List.mem_of_getElem? hout)
  exact ⟨houtput, htruncated, fun bs t hr => exited_run hI hstatus hr⟩

/-- Two streams, one output call that overlaps the end of the child. -/
def outputAtExit : List Action :=
  [.read 0 ['o', 'k'], .append 0, .exit ⟨some 0, none⟩, .finish 0, .join, .output, .outputStep 0,
    .finish 1, .join, .join, .store, .outputStep 0, .outputStep 0]

theorem exited_output_final_outputAtExit :
    ∃ s, run step (.new (some 100) 2) outputAtExit = some s ∧
      (⟨['o', 'k'], false, some ⟨some 0, none⟩⟩ : OutputResponse).output = s.buffer.output ∧
      (⟨['o', 'k'], false, some ⟨some 0, none⟩⟩ : OutputResponse).truncated =
        s.buffer.truncated ∧
      ∀ bs t, run step s bs = some t → t.buffer = s.buffer ∧ ∀ k, .append k ∉ bs := by
  obtain ⟨s, hrun, hout⟩ : ∃ s, run step (.new (some 100) 2) outputAtExit = some s ∧
      s.outputs[0]? = some (.returned ⟨['o', 'k'], false, some ⟨some 0, none⟩⟩) :=
    ⟨_, rfl, rfl⟩
  exact ⟨s, hrun, exited_output_final (some 100) 2 outputAtExit s hrun 0 _ hout (by decide)⟩

/-- When the supervisor is through no call sleeps unwoken, and what a call returns is
the status that was stored. -/
theorem no_wakeup_lost (outputLimit : Option ℕ) (drains : ℕ) (as : List Action) (s : Terminal)
    (hrun : run step (.new outputLimit drains) as = some s) :
    (s.supervisor = .done → ∀ i : ℕ, s.waits[i]? ≠ some (.waiting false)) ∧
      ∀ (i : ℕ) (status : ExitStatus), s.waits[i]? = some (.returned status) →
        s.exitStatus = some status := by
  have hI := run_inv (new_inv outputLimit drains) hrun
  refine ⟨fun hdone i hi => ?_, fun i status hi => hI.waits _ (List.mem_of_getElem? hi)⟩
  have hstored := hI.stored
  rw [hdone] at hstored
  rcases hI.waits _ (List.mem_of_getElem? hi) with hnone | hnotify
  · rw [hnone] at hstored
    cases hstored
  · cases hdone.symm.trans hnotify

/-- One call waits, one looks between the store and the wake-up, the terminal is
released while they do. -/
def twoWaits : List Action :=
  [.wait, .waitStep 0, .waitStep 0, .wait, .waitStep 1, .release, .receiveKill,
    .exit ⟨none, none⟩, .finish 0, .join, .join, .store, .waitStep 1, .notify, .waitStep 0,
    .waitStep 0, .waitStep 0]

theorem no_wakeup_lost_twoWaits :
    ∃ s, run step (.new none 1) twoWaits = some s ∧
      s.waits = [.returned ⟨none, none⟩, .returned ⟨none, none⟩] ∧
      (s.supervisor = .done → ∀ i : ℕ, s.waits[i]? ≠ some (.waiting false)) ∧
      ∀ (i : ℕ) (status : ExitStatus), s.waits[i]? = some (.returned status) →
        s.exitStatus = some status := by
  obtain ⟨s, hrun, hwaits⟩ : ∃ s, run step (.new none 1) twoWaits = some s ∧
      s.waits = [.returned ⟨none, none⟩, .returned ⟨none, none⟩] := ⟨_, rfl, rfl⟩
  exact ⟨s, hrun, hwaits, no_wakeup_lost none 1 twoWaits s hrun⟩

end Terminal

end Ccgonext.Terminals
