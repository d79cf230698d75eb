import Mathlib.Data.List.Basic
import Mathlib.Data.List.Induction

/-!
# Steps done again

A step that overrides what it did before leaves no trace of its first time when
it is done again, whatever came between. A state that a list of such steps has
settled is settled by the list with one more step at its end.
-/

namespace Ccgonext.Lib.Replay

variable {σ α : Type*} {step : σ → α → σ} {l : List α} {s : σ} {a : α}

structure Overriding (step : σ → α → σ) : Prop where
  again : ∀ s a, step (step s a) a = step s a
  between : ∀ s a b, step (step (step s a) b) a = step (step s b) a

def Settled (step : σ → α → σ) (l : List α) (s : σ) : Prop := l.foldl step s = s

theorem Overriding.foldl_again (h : Overriding step) :
    step (l.foldl step (step s a)) a = step (l.foldl step s) a := by
  induction l using List.reverseRecOn with
  | nil => exact h.again s a
  | append_singleton l b ih =>
    rw [List.foldl_concat, List.foldl_concat]
    calc step (step (l.foldl step (step s a)) b) a
        = step (step (step (l.foldl step (step s a)) a) b) a := (h.between _ a b).symm
      _ = step (step (step (l.foldl step s) a) b) a := by rw [ih]
      _ = step (step (l.foldl step s) b) a := h.between _ a b

theorem Overriding.settled_step (h : Overriding step) (hs : Settled step l s) :
    Settled step (l ++ [a]) (step s a) := by
  rw [Settled, List.foldl_concat, h.foldl_again, show l.foldl step s = s from hs]

theorem Settled.concat (hs : Settled step l s) (ha : step s a = s) :
    Settled step (l ++ [a]) s := by
  rw [Settled, List.foldl_concat, show l.foldl step s = s from hs, ha]

theorem settled_of_forall (h : ∀ a ∈ l, step s a = s) : Settled step l s := by
  induction l with
  | nil => rfl
  | cons a l ih =>
    rw [Settled, List.foldl_cons, h a List.mem_cons_self]
    exact ih fun b hb => h b (List.mem_cons_of_mem a hb)

end Ccgonext.Lib.Replay
