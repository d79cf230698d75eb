import Mathlib.Data.List.Basic

/-!
# Pools of threads

A pool is a list of thread positions, one for each call ever made; a step of
call `i` replaces entry `i`. These are the facts about such updates that the
invariants of concurrent systems use.
-/

namespace Ccgonext.Lib.Pool

variable {π : Type*} {ps : List π} {i : ℕ} {p q : π} {P : π → Prop}

theorem mem_of_step (hi : ps[i]? = some p) (q : π) : q ∈ ps.set i q :=
  List.mem_set (List.getElem?_eq_some_iff.mp hi).1 q

theorem mem_set_of_ne {x : π} (hi : ps[i]? = some p) (hx : x ∈ ps) (hne : x ≠ p) (q : π) :
    x ∈ ps.set i q := by
  obtain ⟨j, hj⟩ := List.mem_iff_getElem?.mp hx
  have hij : i ≠ j := by
    rintro rfl
    rw [hi] at hj
    exact hne (Option.some.inj hj).symm
  apply List.mem_of_getElem? (i := j)
  rw [List.getElem?_set_ne hij, hj]

theorem exists_set (hi : ps[i]? = some p) (q : π) (h : ∃ r ∈ ps, P r) :
    (∃ r ∈ ps.set i q, P r) ∨ P p := by
  obtain ⟨r, hr, hP⟩ := h
  obtain ⟨j, hj⟩ := List.mem_iff_getElem?.mp hr
  by_cases hij : i = j
  · subst hij
    rw [hi] at hj
    cases hj
    exact .inr hP
  · refine .inl ⟨r, ?_, hP⟩
    apply List.mem_of_getElem? (i := j)
    rw [List.getElem?_set_ne hij, hj]

/-- A duty `A` that something else (`D`) or some thread still sees to: a step of
one thread that passes it on keeps it. -/
theorem owed_step {R A A' D : Prop} (hi : ps[i]? = some p) (q : π)
    (h : R → A ∨ D ∨ ∃ r ∈ ps, P r)
    (hstep : (R → A ∨ (D ∨ ∃ r ∈ ps.set i q, P r) ∨ P p) →
      A' ∨ (D ∨ ∃ r ∈ ps.set i q, P r) ∨ P q) :
    A' ∨ D ∨ ∃ r ∈ ps.set i q, P r := by
  have hmid : R → A ∨ (D ∨ ∃ r ∈ ps.set i q, P r) ∨ P p := by
    intro hR
    rcases h hR with hA | hD | ho
    · exact .inl hA
    · exact .inr (.inl (.inl hD))
    · rcases exists_set hi q ho with ho | ho
      · exact .inr (.inl (.inr ho))
      · exact .inr (.inr ho)
  rcases hstep hmid with hA | hD | ho
  · exact .inl hA
  · exact .inr hD
  · exact .inr (.inr ⟨q, mem_of_step hi q, ho⟩)

theorem forall_set (h : ∀ r ∈ ps, P r) (hq : P q) : ∀ r ∈ ps.set i q, P r := by
  intro r hr
  rcases List.mem_or_eq_of_mem_set hr with hr | hr
  · exact h r hr
  · rw [hr]
    exact hq

theorem exists_spawn (q : π) (h : ∃ r ∈ ps, P r) : ∃ r ∈ ps ++ [q], P r := by
  obtain ⟨r, hr, hP⟩ := h
  exact ⟨r, List.mem_append_left [q] hr, hP⟩

theorem forall_spawn (h : ∀ r ∈ ps, P r) (hq : P q) : ∀ r ∈ ps ++ [q], P r := by
  intro r hr
  rcases List.mem_append.mp hr with hr | hr
  · exact h r hr
  · rw [List.mem_singleton.mp hr]
    exact hq

theorem set_cases {j : ℕ} {r : π} (h : (ps.set i q)[j]? = some r) :
    (i = j ∧ r = q) ∨ (i ≠ j ∧ ps[j]? = some r) := by
  rw [List.getElem?_set] at h
  split at h
  · next hij =>
    split at h
    · exact .inl ⟨hij, (Option.some.inj h).symm⟩
    · cases h
  · next hij => exact .inr ⟨hij, h⟩

theorem spawn_cases {j : ℕ} {r : π} (h : (ps ++ [q])[j]? = some r) :
    ps[j]? = some r ∨ (j = ps.length ∧ r = q) := by
  rw [List.getElem?_append] at h
  split at h
  · exact .inl h
  · rw [List.getElem?_singleton] at h
    split at h
    · exact .inr ⟨by omega, (Option.some.inj h).symm⟩
    · cases h

theorem indexed_set {Q : ℕ → π → Prop} (h : ∀ (j : ℕ) (r : π), j ≠ i → ps[j]? = some r → Q j r)
    (hq : Q i q) : ∀ (j : ℕ) (r : π), (ps.set i q)[j]? = some r → Q j r := by
  intro j r hr
  rcases set_cases hr with ⟨rfl, rfl⟩ | ⟨hij, hr⟩
  · exact hq
  · exact h j r (Ne.symm hij) hr

theorem indexed_spawn {Q : ℕ → π → Prop} (h : ∀ (j : ℕ) (r : π), ps[j]? = some r → Q j r)
    (hq : Q ps.length q) : ∀ (j : ℕ) (r : π), (ps ++ [q])[j]? = some r → Q j r := by
  intro j r hr
  rcases spawn_cases hr with hr | ⟨rfl, rfl⟩
  · exact h j r hr
  · exact hq

theorem countP_set (hi : ps[i]? = some p) (q : π) (f : π → Bool) :
    (ps.set i q).countP f + (f p).toNat = ps.countP f + (f q).toNat := by
  obtain ⟨hlt, hget⟩ := List.getElem?_eq_some_iff.mp hi
  have hmem : f p = true → 0 < ps.countP f := fun hp =>
    List.countP_pos_iff.mpr ⟨p, List.mem_of_getElem? hi, hp⟩
  rw [List.countP_set hlt, hget]
  cases hp : f p <;> cases hq : f q <;>
    simp only [Bool.false_eq_true, ↓reduceIte, Bool.toNat_true, Bool.toNat_false]
  · omega
  · omega
  · have hpos := hmem hp
    omega
  · have hpos := hmem hp
    omega

/-- Where one property entails another, as many have the one as the other exactly
if all that have the other have it. -/
theorem countP_eq_iff {f g : π → Bool} (hfg : ∀ p, f p = true → g p = true) :
    ps.countP f = ps.countP g ↔ ∀ p ∈ ps, g p = true → f p = true := by
  induction ps with
  | nil => simp
  | cons p ps ih =>
    have hle : ps.countP f ≤ ps.countP g := List.countP_mono_left fun q _ => hfg q
    rw [List.forall_mem_cons, ← ih, List.countP_cons, List.countP_cons]
    cases hf : f p with
    | true => simp [hfg p hf]
    | false =>
      cases hg : g p with
      | true =>
        constructor
        · intro heq
          simp only [Bool.false_eq_true, ↓reduceIte] at heq
          omega
        · rintro ⟨himp, -⟩
          cases himp rfl
      | false => simp

theorem eq_take_append_drop (hi : ps[i]? = some p) : ps = ps.take i ++ p :: ps.drop (i + 1) := by
  obtain ⟨hlt, hget⟩ := List.getElem?_eq_some_iff.mp hi
  rw [← hget, List.getElem_cons_drop, List.take_append_drop]

theorem set_same (hi : ps[i]? = some p) : ps.set i p = ps := by
  obtain ⟨hlt, rfl⟩ := List.getElem?_eq_some_iff.mp hi
  exact List.set_getElem_self hlt

section FilterMap
variable {β : Type*} {f : π → Option β}

end FilterMap

theorem pairwise_set {R : π → π → Prop} (h : ps.Pairwise R) (hi : ps[i]? = some p)
    (hleft : ∀ r, R r p → R r q) (hright : ∀ r ∈ ps.drop (i + 1), R p r → R q r) :
    (ps.set i q).Pairwise R := by
  have hlt := (List.getElem?_eq_some_iff.mp hi).1
  rw [eq_take_append_drop hi, List.pairwise_append, List.pairwise_cons] at h
  obtain ⟨hl, ⟨hp, hr⟩, hlr⟩ := h
  rw [List.set_eq_take_append_cons_drop, if_pos hlt, List.pairwise_append, List.pairwise_cons]
  refine ⟨hl, ⟨fun r hm => hright r hm (hp r hm), hr⟩, ?_⟩
  intro a ha b hb
  rcases List.mem_cons.mp hb with rfl | hb
  · exact hleft a (hlr a ha p List.mem_cons_self)
  · exact hlr a ha b (List.mem_cons_of_mem p hb)

end Ccgonext.Lib.Pool
