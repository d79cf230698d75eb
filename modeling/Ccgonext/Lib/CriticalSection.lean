import Mathlib.Logic.Basic
import Mathlib.Data.List.Basic

/-!
# Threads and a lock

A pool of threads works on a shared state that records which thread holds the
lock. A thread outside the critical section either takes the free lock or
leaves the shared state alone; a thread inside keeps the lock or gives it back.
Then at most one thread is inside, and an assertion for each position of a
thread (`At`) together with one for the free lock (`Rest`) is an invariant of
the pool as soon as each single step of the thread in the section keeps it.
-/

namespace Ccgonext.Lib.CriticalSection

variable {σ π ω : Type*}

structure Disciplined (holder : σ → Option ℕ) (inside : π → Bool)
    (step : ℕ → σ → π → ω → Option (σ × π)) : Prop where
  outside : ∀ i s p o s' p', step i s p o = some (s', p') → inside p = false →
    (s' = s ∧ inside p' = false) ∨ (holder s = none ∧ holder s' = some i ∧ inside p' = true)
  within : ∀ i s p o s' p', step i s p o = some (s', p') → inside p = true →
    holder s = some i → (holder s' = some i ∧ inside p' = true) ∨
      (holder s' = none ∧ inside p' = false)

/-- The lock is held by the thread inside the section, when there is one. -/
def Exclusive (holder : σ → Option ℕ) (inside : π → Bool) (s : σ) (ps : List π) : Prop :=
  ∀ i, holder s = some i ↔ ∃ p, ps[i]? = some p ∧ inside p = true

section Exclusive
variable {holder : σ → Option ℕ} {inside : π → Bool} {s s' : σ} {ps : List π} {i j : ℕ} {p q : π}

theorem Exclusive.inside_iff (h : Exclusive holder inside s ps) (hp : ps[i]? = some p) :
    inside p = true ↔ holder s = some i := by
  rw [h i]
  constructor
  · exact fun hin => ⟨p, hp, hin⟩
  · rintro ⟨q, hq, hin⟩
    rw [hp] at hq
    cases hq
    exact hin

theorem Exclusive.nil (hs : holder s = none) : Exclusive holder inside s [] := by
  intro i
  simp [hs]

theorem Exclusive.spawn (h : Exclusive holder inside s ps) (hp : inside p = false) :
    Exclusive holder inside s (ps ++ [p]) := by
  intro i
  rw [h i]
  constructor
  · rintro ⟨q, hq, hin⟩
    exact ⟨q, by grind, hin⟩
  · rintro ⟨q, hq, hin⟩
    refine ⟨q, ?_, hin⟩
    grind

/-- A step of thread `i` keeps the lock with whoever is inside if the lock names
thread `i` afterwards just in case it is inside, and the others as it did before. -/
theorem Exclusive.set (h : Exclusive holder inside s ps) (hi : ps[i]? = some p)
    (hown : holder s' = some i ↔ inside q = true)
    (hothers : ∀ j, i ≠ j → (holder s' = some j ↔ holder s = some j)) :
    Exclusive holder inside s' (ps.set i q) := by
  have hlt : i < ps.length := (List.getElem?_eq_some_iff.mp hi).1
  intro j
  by_cases hij : i = j
  · subst hij
    simp only [hown, List.getElem?_set_self hlt, Option.some.injEq, exists_eq_left']
  · rw [List.getElem?_set_ne hij, hothers j hij, h j]

theorem Exclusive.keep (h : Exclusive holder inside s ps) (hi : ps[i]? = some p)
    (hp : inside p = true) (hs : holder s' = some i) (hq : inside q = true) :
    Exclusive holder inside s' (ps.set i q) := by
  have hheld := (h.inside_iff hi).mp hp
  exact h.set hi (by simp only [hs, hq]) fun j _ => by rw [hs, hheld]

theorem Exclusive.leave (h : Exclusive holder inside s ps) (hi : ps[i]? = some p)
    (hp : inside p = true) (hs : holder s' = none) (hq : inside q = false) :
    Exclusive holder inside s' (ps.set i q) := by
  have hheld := (h.inside_iff hi).mp hp
  refine h.set hi (by simp only [hs, hq, reduceCtorEq, Bool.false_eq_true]) fun j hij => ?_
  simp only [hs, hheld, Option.some.injEq, hij, reduceCtorEq]

theorem Exclusive.enter (h : Exclusive holder inside s ps) (hi : ps[i]? = some p)
    (hfree : holder s = none) (hs : holder s' = some i) (hq : inside q = true) :
    Exclusive holder inside s' (ps.set i q) := by
  refine h.set hi (by simp only [hs, hq]) fun j hij => ?_
  simp only [hs, hfree, Option.some.injEq, hij, reduceCtorEq]

theorem Exclusive.stay (h : Exclusive holder inside s ps) (hi : ps[i]? = some p)
    (hp : inside p = false) (hq : inside q = false) :
    Exclusive holder inside s (ps.set i q) := by
  have hne : holder s ≠ some i := fun hc => by
    have hin := (h.inside_iff hi).mpr hc
    rw [hp] at hin
    cases hin
  exact h.set hi (by simp only [hne, hq, Bool.false_eq_true]) fun _ _ => Iff.rfl

theorem Exclusive.step {step : ℕ → σ → π → ω → Option (σ × π)} {o : ω}
    (hd : Disciplined holder inside step) (h : Exclusive holder inside s ps)
    (hi : ps[i]? = some p) (hs : step i s p o = some (s', q)) :
    Exclusive holder inside s' (ps.set i q) := by
  cases hp : inside p with
  | false =>
    rcases hd.outside i s p o s' q hs hp with ⟨rfl, hq⟩ | ⟨hfree, hi', hq⟩
    · exact h.stay hi hp hq
    · exact h.enter hi hfree hi' hq
  | true =>
    rcases hd.within i s p o s' q hs hp ((h.inside_iff hi).mp hp) with ⟨hi', hq⟩ | ⟨hfree, hq⟩
    · exact h.keep hi hp hi' hq
    · exact h.leave hi hp hfree hq

end Exclusive

/-- The lock is exclusive, `Rest` holds while it is free, and the thread inside
satisfies the assertion of its position. -/
structure Annotated (holder : σ → Option ℕ) (inside : π → Bool) (Rest : σ → Prop)
    (At : π → σ → Prop) (s : σ) (ps : List π) : Prop where
  exclusive : Exclusive holder inside s ps
  rest : holder s = none → Rest s
  at_inside : ∀ (i : ℕ) (p : π), ps[i]? = some p → inside p = true → At p s

structure Sound (holder : σ → Option ℕ) (inside : π → Bool) (Rest : σ → Prop)
    (At : π → σ → Prop) (step : ℕ → σ → π → ω → Option (σ × π)) : Prop where
  disciplined : Disciplined holder inside step
  enter : ∀ i s p o s' p', step i s p o = some (s', p') → inside p = false →
    inside p' = true → Rest s → At p' s'
  keep : ∀ i s p o s' p', step i s p o = some (s', p') → inside p = true →
    inside p' = true → At p s → At p' s'
  leave : ∀ i s p o s' p', step i s p o = some (s', p') → inside p = true →
    inside p' = false → At p s → Rest s'

section Annotated
variable {holder : σ → Option ℕ} {inside : π → Bool} {Rest : σ → Prop} {At : π → σ → Prop}
  {s s' : σ} {ps : List π} {i : ℕ} {p q : π}

theorem Annotated.nil (hs : holder s = none) (hr : Rest s) :
    Annotated holder inside Rest At s [] :=
  ⟨.nil hs, fun _ => hr, fun i p hp => by simp at hp⟩

theorem Annotated.spawn (h : Annotated holder inside Rest At s ps) (hp : inside p = false) :
    Annotated holder inside Rest At s (ps ++ [p]) := by
  refine ⟨h.exclusive.spawn hp, h.rest, ?_⟩
  intro i q hq hin
  have hold : ps[i]? = some q := by grind
  exact h.at_inside i q hold hin

theorem Annotated.evict (h : Annotated holder inside Rest At s ps) (hi : ps[i]? = some p)
    (hp : inside p = true) (hs : holder s' = none) (hq : inside q = false) (hr : Rest s') :
    Annotated holder inside Rest At s' (ps.set i q) := by
  refine ⟨h.exclusive.leave hi hp hs hq, fun _ => hr, ?_⟩
  intro j r hj hin
  have hn := ((h.exclusive.leave hi hp hs hq).inside_iff hj).mp hin
  rw [hs] at hn
  cases hn

theorem Annotated.forget (h : Annotated holder inside Rest At s ps) (hi : ps[i]? = some p)
    (hp : inside p = false) (hq : inside q = false) :
    Annotated holder inside Rest At s (ps.set i q) := by
  refine ⟨h.exclusive.stay hi hp hq, h.rest, ?_⟩
  intro j r hj hin
  have hlt : i < ps.length := (List.getElem?_eq_some_iff.mp hi).1
  by_cases hij : i = j
  · subst hij
    rw [List.getElem?_set_self hlt] at hj
    cases hj
    rw [hq] at hin
    cases hin
  · rw [List.getElem?_set_ne hij] at hj
    exact h.at_inside j r hj hin

theorem Annotated.step {step : ℕ → σ → π → ω → Option (σ × π)} {o : ω}
    (hd : Sound holder inside Rest At step) (h : Annotated holder inside Rest At s ps)
    (hi : ps[i]? = some p) (hs : step i s p o = some (s', q)) :
    Annotated holder inside Rest At s' (ps.set i q) := by
  have hlt : i < ps.length := (List.getElem?_eq_some_iff.mp hi).1
  have hex : Exclusive holder inside s' (ps.set i q) := h.exclusive.step hd.disciplined hi hs
  have hself : (ps.set i q)[i]? = some q := List.getElem?_set_self hlt
  -- while `i` is inside, no other thread is
  have honly : ∀ (j : ℕ) (r : π), holder s' = some i → (ps.set i q)[j]? = some r →
      inside r = true → r = q := by
    intro j r hh hj hin
    have hj' := (hex.inside_iff hj).mp hin
    rw [hh] at hj'
    cases hj'
    rw [hself] at hj
    exact (Option.some.inj hj).symm
  cases hp : inside p with
  | false =>
    rcases hd.disciplined.outside i s p o s' q hs hp with ⟨rfl, hq⟩ | ⟨hfree, hi', hq⟩
    · exact h.forget hi hp hq
    · refine ⟨hex, fun hn => (by rw [hi'] at hn; cases hn), ?_⟩
      intro j r hj hin
      rw [honly j r hi' hj hin]
      exact hd.enter i s p o s' q hs hp hq (h.rest hfree)
  | true =>
    have hat := h.at_inside i p hi hp
    rcases hd.disciplined.within i s p o s' q hs hp ((h.exclusive.inside_iff hi).mp hp) with
      ⟨hi', hq⟩ | ⟨hfree, hq⟩
    · refine ⟨hex, fun hn => (by rw [hi'] at hn; cases hn), ?_⟩
      intro j r hj hin
      rw [honly j r hi' hj hin]
      exact hd.keep i s p o s' q hs hp hq hat
    · refine ⟨hex, fun _ => hd.leave i s p o s' q hs hp hq hat, ?_⟩
      intro j r hj hin
      have hn := (hex.inside_iff hj).mp hin
      rw [hfree] at hn
      cases hn

end Annotated

end Ccgonext.Lib.CriticalSection
