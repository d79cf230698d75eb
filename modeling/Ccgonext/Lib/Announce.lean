import Ccgonext.Lib.Pool

/-!
# Announced updates

A board has two fields and shows the last announcement. A thread that updates the
board writes the first field, writes the second and announces what it wrote, each
in a step of its own. As long as an update starts only beside updates to the same
values, the announcement agrees with the fields whenever no update is under way.
-/

namespace Ccgonext.Lib.Announce
open Pool

structure Board (α β γ : Type*) where
  first : α
  second : β
  told : Option γ

inductive Phase (α β : Type*)
  | out
  | first (x : α) (y : β)
  | second (x : α) (y : β)
  deriving DecidableEq, Repr

variable {α β γ : Type*}

def Phase.target : Phase α β → Option (α × β)
  | .out => none
  | .first x y | .second x y => some (x, y)

inductive Moves (say : α → β → γ) (b : Board α β γ) :
    Phase α β → Board α β γ → Phase α β → Prop
  | aside : Moves say b .out b .out
  | writeFirst (x : α) (y : β) : Moves say b .out { b with first := x } (.first x y)
  | writeSecond (x : α) (y : β) : Moves say b (.first x y) { b with second := y } (.second x y)
  | tell (x : α) (y : β) : Moves say b (.second x y) { b with told := some (say x y) } .out

structure Coherent (say : α → β → γ) (b : Board α β γ) (ps : List (Phase α β)) : Prop where
  same : ∀ p ∈ ps, ∀ q ∈ ps, ∀ t ∈ p.target, ∀ u ∈ q.target, t = u
  first : ∀ p ∈ ps, ∀ t ∈ p.target, b.first = t.1
  second : ∀ x y, .second x y ∈ ps → b.second = y
  rest : (∀ p ∈ ps, p = .out) → ∀ c ∈ b.told, c = say b.first b.second

section Rules
variable {say : α → β → γ} {b b' : Board α β γ} {ps : List (Phase α β)} {p q : Phase α β} {i : ℕ}

theorem Coherent.nil (htold : b.told = none) : Coherent say b [] := by
  refine ⟨by simp, by simp, by simp, ?_⟩
  intro _ c hc
  rw [htold] at hc
  cases hc

theorem Coherent.congr {ps' : List (Phase α β)} (h : Coherent say b ps)
    (hps : ∀ p, p ≠ .out → (p ∈ ps' ↔ p ∈ ps)) : Coherent say b ps' := by
  have hin : ∀ p ∈ ps', ∀ t ∈ p.target, p ∈ ps := by
    intro p hp t ht
    refine (hps p ?_).mp hp
    rintro rfl
    cases ht
  refine ⟨?_, ?_, ?_, ?_⟩
  · intro p hp q hq t ht u hu
    exact h.same p (hin p hp t ht) q (hin q hq u hu) t ht u hu
  · intro p hp t ht
    exact h.first p (hin p hp t ht) t ht
  · intro x y hmem
    exact h.second x y (hin _ hmem _ rfl)
  · intro hout
    refine h.rest fun p hp => ?_
    by_contra hne
    exact hne (hout p ((hps p hne).mpr hp))

theorem Coherent.move (h : Coherent say b ps) (hi : ps[i]? = some p) (hm : Moves say b p b' q)
    (halone : ∀ x y, p = .out → q = .first x y → ∀ r ∈ ps, ∀ t ∈ r.target, t = (x, y)) :
    Coherent say b' (ps.set i q) := by
  have hp : p ∈ ps := List.mem_of_getElem? hi
  have hq : q ∈ ps.set i q := mem_of_step hi q
  cases hm with
  | aside =>
    have hset : ps.set i .out = ps := by
      obtain ⟨hlt, hget⟩ := List.getElem?_eq_some_iff.mp hi
      rw [← hget, List.set_getElem_self]
    rw [hset]
    exact h
  | writeFirst x y =>
    have hother : ∀ r ∈ ps.set i (.first x y), ∀ t ∈ r.target, t = (x, y) :=
      forall_set (halone x y rfl rfl) fun t ht => (Option.some.inj ht).symm
    refine ⟨?_, ?_, ?_, ?_⟩
    · intro r hr r' hr' t ht u hu
      exact (hother r hr t ht).trans (hother r' hr' u hu).symm
    · intro r hr t ht
      rw [hother r hr t ht]
    · intro x' y' hmem
      rcases List.mem_or_eq_of_mem_set hmem with hold | hnew
      · exact h.second x' y' hold
      · cases hnew
    · intro hout
      cases hout _ hq
  | writeSecond x y =>
    have hother : ∀ r ∈ ps.set i (.second x y), ∀ t ∈ r.target, t = (x, y) :=
      forall_set (fun r hr t ht => h.same r hr _ hp t ht (x, y) rfl)
        fun t ht => (Option.some.inj ht).symm
    refine ⟨?_, ?_, ?_, ?_⟩
    · intro r hr r' hr' t ht u hu
      exact (hother r hr t ht).trans (hother r' hr' u hu).symm
    · intro r hr t ht
      rw [hother r hr t ht]
      exact h.first _ hp _ rfl
    · intro x' y' hmem
      exact (congrArg Prod.snd (hother _ hmem _ rfl)).symm
    · intro hout
      cases hout _ hq
  | tell x y =>
    have hold : ∀ r ∈ ps.set i .out, ∀ t ∈ r.target, r ∈ ps := by
      intro r hr t ht
      rcases List.mem_or_eq_of_mem_set hr with hold | rfl
      · exact hold
      · cases ht
    refine ⟨?_, ?_, ?_, ?_⟩
    · intro r hr r' hr' t ht u hu
      exact h.same r (hold r hr t ht) r' (hold r' hr' u hu) t ht u hu
    · intro r hr t ht
      exact h.first r (hold r hr t ht) t ht
    · intro x' y' hmem
      exact h.second x' y' (hold _ hmem _ rfl)
    · -- whoever announces has found both fields as it wrote them
      intro _ c hc
      cases hc
      rw [h.first _ hp _ rfl, h.second x y hp]

end Rules

end Ccgonext.Lib.Announce
