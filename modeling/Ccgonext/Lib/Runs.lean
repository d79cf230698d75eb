import Mathlib.Logic.Basic
import Mathlib.Data.List.Basic

/-!
# Runs of a labelled step function

A system is given by a function `step : σ → α → Option σ` that performs one
atomic action, or refuses it. A list of actions is a run when every action is
enabled in turn. `Along` says that every action was taken in a state that
allows it and `Always` that every state on the way has a property, so a claim
about every reachable state is a claim about the final state of every run, or
an `Always` of every run.
-/

namespace Ccgonext.Lib.Runs

variable {σ α : Type*}

def run (step : σ → α → Option σ) : σ → List α → Option σ
  | s, [] => some s
  | s, a :: as =>
    match step s a with
    | none => none
    | some s' => run step s' as

/-- Every action of the run is taken in a state in which `C` allows it. -/
def Along (step : σ → α → Option σ) (C : σ → α → Prop) : σ → List α → Prop
  | _, [] => True
  | s, a :: as => C s a ∧
    match step s a with
    | none => True
    | some s' => Along step C s' as

/-- Every state the run visits, the first and the last included, satisfies `P`. -/
def Always (step : σ → α → Option σ) (P : σ → Prop) : σ → List α → Prop
  | s, [] => P s
  | s, a :: as => P s ∧
    match step s a with
    | none => True
    | some s' => Always step P s' as

/-- The run takes the action `a` in state `u`, which leads to `u'`, and goes on
with the actions `after`. -/
structure Visit (step : σ → α → Option σ) (s : σ) (as : List α) (u : σ) (a : α) (u' : σ)
    (after : List α) : Prop where
  before : ∃ before, as = before ++ a :: after ∧ run step s before = some u
  step : step u a = some u'

instance decidableAlong (step : σ → α → Option σ) (C : σ → α → Prop)
    [∀ s a, Decidable (C s a)] : ∀ s as, Decidable (Along step C s as)
  | _, [] => .isTrue trivial
  | s, a :: as =>
    have : Decidable (match step s a with
        | none => True
        | some s' => Along step C s' as) :=
      match step s a with
      | none => .isTrue trivial
      | some s' => decidableAlong step C s' as
    inferInstanceAs (Decidable (_ ∧ _))

section Rules
variable {step : σ → α → Option σ} {C D : σ → α → Prop} {I P : σ → Prop}

theorem run_cons_inv {s t : σ} {a : α} {as : List α} (h : run step s (a :: as) = some t) :
    ∃ s', step s a = some s' ∧ run step s' as = some t := by
  cases hs : step s a with
  | none => simp only [run, hs, reduceCtorEq] at h
  | some s' => exact ⟨s', rfl, by simpa only [run, hs] using h⟩

theorem run_append {s t : σ} {as : List α} (h : run step s as = some t) (bs : List α) :
    run step s (as ++ bs) = run step t bs := by
  induction as generalizing s with
  | nil =>
    cases h
    rfl
  | cons a as ih =>
    obtain ⟨s', hs, hr⟩ := run_cons_inv h
    rw [List.cons_append, run, hs]
    exact ih hr

theorem along_cons {s s' : σ} {a : α} {as : List α} (h : step s a = some s') :
    Along step C s (a :: as) ↔ C s a ∧ Along step C s' as := by
  simp only [Along, h]

theorem along_append {s t : σ} {as : List α} (h : run step s as = some t) (bs : List α) :
    Along step C s (as ++ bs) ↔ Along step C s as ∧ Along step C t bs := by
  induction as generalizing s with
  | nil =>
    cases h
    simp only [List.nil_append, Along, true_and]
  | cons a as ih =>
    obtain ⟨s', hs, hr⟩ := run_cons_inv h
    rw [List.cons_append, along_cons hs, along_cons hs, ih hr, and_assoc]

theorem always_cons {s s' : σ} {a : α} {as : List α} (h : step s a = some s') :
    Always step P s (a :: as) ↔ P s ∧ Always step P s' as := by
  simp only [Always, h]

theorem Always.head {s : σ} {as : List α} (h : Always step P s as) : P s := by
  cases as with
  | nil => exact h
  | cons a as => exact h.1

theorem Along.mono (hCD : ∀ s a, C s a → D s a) {s : σ} {as : List α}
    (h : Along step C s as) : Along step D s as := by
  induction as generalizing s with
  | nil => trivial
  | cons a as ih =>
    refine ⟨hCD _ _ h.1, ?_⟩
    have h2 := h.2
    cases hs : step s a with
    | none => trivial
    | some s' => exact ih (by simpa only [hs] using h2)

theorem Along.and {s : σ} {as : List α} (hC : Along step C s as) (hD : Along step D s as) :
    Along step (fun s a => C s a ∧ D s a) s as := by
  induction as generalizing s with
  | nil => trivial
  | cons a as ih =>
    refine ⟨⟨hC.1, hD.1⟩, ?_⟩
    have hC2 := hC.2
    have hD2 := hD.2
    cases hs : step s a with
    | none => trivial
    | some s' => exact ih (by simpa only [hs] using hC2) (by simpa only [hs] using hD2)

theorem along_of_forall {s : σ} {as : List α} (h : ∀ a ∈ as, ∀ t, C t a) :
    Along step C s as := by
  induction as generalizing s with
  | nil => trivial
  | cons a as ih =>
    refine ⟨h a List.mem_cons_self s, ?_⟩
    cases step s a with
    | none => trivial
    | some s' => exact ih (fun b hb => h b (List.mem_cons_of_mem a hb))

/-- The invariant rule: what every allowed step keeps holds at the end of
every run of allowed steps. -/
theorem invariant (hstep : ∀ s a s', I s → C s a → step s a = some s' → I s')
    {s t : σ} {as : List α} (hs : I s) (hC : Along step C s as)
    (hr : run step s as = some t) : I t := by
  induction as generalizing s with
  | nil =>
    cases hr
    exact hs
  | cons a as ih =>
    obtain ⟨s', ha, hr'⟩ := run_cons_inv hr
    obtain ⟨hCa, hC'⟩ := (along_cons ha).mp hC
    exact ih (hstep s a s' hs hCa ha) hC' hr'

theorem along_true (s : σ) (as : List α) : Along step (fun _ _ => True) s as :=
  along_of_forall fun _ _ _ => trivial

theorem preserved (hstep : ∀ s a s', I s → step s a = some s' → I s')
    {s t : σ} {as : List α} (hs : I s) (hr : run step s as = some t) : I t :=
  invariant (fun s a s' h _ ha => hstep s a s' h ha) hs (along_true s as) hr

theorem always_of_invariant (hstep : ∀ s a s', I s → C s a → step s a = some s' → I s')
    (hP : ∀ s, I s → P s) {s : σ} {as : List α} (hs : I s) (hC : Along step C s as) :
    Always step P s as := by
  induction as generalizing s with
  | nil => exact hP s hs
  | cons a as ih =>
    refine ⟨hP s hs, ?_⟩
    cases ha : step s a with
    | none => trivial
    | some s' =>
      obtain ⟨hCa, hC'⟩ := (along_cons ha).mp hC
      exact ih (hstep s a s' hs hCa ha) hC'

/-- Where a step that breaks the condition leads at once to a state without
the property, a run that always has the property met the condition. -/
theorem along_of_always (hstep : ∀ s a s', I s → C s a → step s a = some s' → I s')
    (hbad : ∀ s a s', I s → D s a → step s a = some s' → P s' → C s a)
    {s t : σ} {as : List α} (hs : I s) (hD : Along step D s as) (hP : Always step P s as)
    (hr : run step s as = some t) : Along step C s as := by
  induction as generalizing s with
  | nil => trivial
  | cons a as ih =>
    obtain ⟨s', ha, hr'⟩ := run_cons_inv hr
    have hP' := ((always_cons ha).mp hP).2
    obtain ⟨hDa, hD'⟩ := (along_cons ha).mp hD
    have hC : C s a := hbad s a s' hs hDa ha hP'.head
    exact (along_cons ha).mpr ⟨hC, ih (hstep s a s' hs hC ha) hD' hP' hr'⟩

/-- Where a step that breaks the condition does damage for good, a run that ends
undamaged met the condition. -/
theorem along_of_end {L : σ → Prop} (hstep : ∀ s a s', I s → C s a → step s a = some s' → I s')
    (hbad : ∀ s a s', I s → D s a → ¬ C s a → step s a = some s' → L s')
    (hstay : ∀ s a s', L s → D s a → step s a = some s' → L s')
    {s t : σ} {as : List α} (hs : I s) (hD : Along step D s as) (hr : run step s as = some t)
    (hno : ¬ L t) : Along step C s as := by
  induction as generalizing s with
  | nil => trivial
  | cons a as ih =>
    obtain ⟨s', ha, hr'⟩ := run_cons_inv hr
    obtain ⟨hDa, hD'⟩ := (along_cons ha).mp hD
    have hC : C s a := by
      by_contra hC
      exact hno (invariant hstay (hbad s a s' hs hDa hC ha) hD' hr')
    exact (along_cons ha).mpr ⟨hC, ih (hstep s a s' hs hC ha) hD' hr'⟩

theorem Visit.rest {s u u' t : σ} {a : α} {as after : List α} (h : Visit step s as u a u' after)
    (hr : run step s as = some t) : run step u' after = some t := by
  obtain ⟨⟨before, rfl, hu⟩, hu'⟩ := h
  induction before generalizing s with
  | nil =>
    cases hu
    obtain ⟨v, hv, hr'⟩ := run_cons_inv hr
    rw [hu'] at hv
    cases hv
    exact hr'
  | cons b before ih =>
    obtain ⟨v, hv, hbefore⟩ := run_cons_inv hu
    obtain ⟨v', hv', hr'⟩ := run_cons_inv hr
    rw [hv] at hv'
    cases hv'
    exact ih hbefore hr'

theorem Visit.cons {s v u u' : σ} {a b : α} {as after : List α} (hb : step s b = some v)
    (h : Visit step v as u a u' after) : Visit step s (b :: as) u a u' after := by
  obtain ⟨⟨before, rfl, hu⟩, hu'⟩ := h
  refine ⟨⟨b :: before, rfl, ?_⟩, hu'⟩
  simp only [run, hb, hu]

theorem Visit.invariant (hstep : ∀ s a s', I s → C s a → step s a = some s' → I s')
    {s u u' : σ} {a : α} {as after : List α} (h : Visit step s as u a u' after) (hs : I s)
    (hC : Along step C s as) : I u ∧ C u a ∧ Along step C u' after := by
  obtain ⟨⟨before, rfl, hu⟩, hu'⟩ := h
  induction before generalizing s with
  | nil =>
    cases hu
    obtain ⟨hCa, hC'⟩ := (along_cons hu').mp hC
    exact ⟨hs, hCa, hC'⟩
  | cons b before ih =>
    obtain ⟨v, hv, hbefore⟩ := run_cons_inv hu
    obtain ⟨hCb, hC'⟩ := (along_cons hv).mp hC
    exact ih (hstep s b v hs hCb hv) hbefore hC'

theorem Visit.preserved (hstep : ∀ s a s', I s → step s a = some s' → I s')
    {s u u' : σ} {a : α} {as after : List α} (h : Visit step s as u a u' after) (hs : I s) :
    I u :=
  (h.invariant (fun s a s' hI _ ha => hstep s a s' hI ha) hs (along_true s as)).1

theorem exists_visit {s t : σ} {as : List α} (hs : ¬ P s) (hr : run step s as = some t)
    (ht : P t) : ∃ u a u' after, Visit step s as u a u' after ∧ ¬ P u ∧ P u' := by
  induction as generalizing s with
  | nil =>
    cases hr
    exact absurd ht hs
  | cons a as ih =>
    obtain ⟨v, ha, hr'⟩ := run_cons_inv hr
    by_cases hv : P v
    · exact ⟨s, a, v, as, ⟨⟨[], rfl, rfl⟩, ha⟩, hs, hv⟩
    · obtain ⟨u, b, u', after, hvisit, hno, hyes⟩ := ih hv hr'
      exact ⟨u, b, u', after, hvisit.cons ha, hno, hyes⟩

/-- The refinement rule: where each step is a step of another system on what
`view` shows of the state, or one that it does not show, so is each run. -/
theorem run_refines {τ β : Type*} {step' : τ → β → Option τ} (view : σ → τ) (act : α → Option β)
    (hstep : ∀ s a s', step s a = some s' →
      ((act a).elim (some (view s)) fun b => step' (view s) b) = some (view s'))
    {s t : σ} {as : List α} (hr : run step s as = some t) :
    run step' (view s) (as.filterMap act) = some (view t) := by
  induction as generalizing s with
  | nil =>
    cases hr
    rfl
  | cons a as ih =>
    obtain ⟨s', ha, hr'⟩ := run_cons_inv hr
    have hview := hstep s a s' ha
    cases hb : act a with
    | none =>
      rw [hb] at hview
      rw [List.filterMap_cons_none hb, Option.some.inj hview]
      exact ih hr'
    | some b =>
      rw [hb] at hview
      simp only [List.filterMap_cons_some hb, run, Option.elim_some] at hview ⊢
      rw [hview]
      exact ih hr'

theorem exists_run {s : σ} {as : List α} (P : σ → Prop) [DecidablePred P]
    (h : (run step s as).any (fun t => decide (P t)) = true) :
    ∃ t, run step s as = some t ∧ P t := by
  obtain ⟨t, ht, hP⟩ := (Option.any_eq_true _ _).mp h
  exact ⟨t, ht, of_decide_eq_true hP⟩

end Rules

end Ccgonext.Lib.Runs
