import Mathlib.Data.List.Basic

/-!
# Lines of a stream

`takeLine` splits off what comes up to and with the first separator, or all that
is left when there is none. Lines written one after another are read back one by
one, whatever follows them.
-/

namespace Ccgonext.Lib.Lines

variable {α : Type*} [DecidableEq α] {sep : α}

def takeLine (sep : α) : List α → List α × List α
  | [] => ([], [])
  | x :: xs => if x = sep then ([x], xs) else (x :: (takeLine sep xs).1, (takeLine sep xs).2)

theorem takeLine_append {line : List α} (h : sep ∉ line) (rest : List α) :
    takeLine sep (line ++ sep :: rest) = (line ++ [sep], rest) := by
  induction line with
  | nil => simp [takeLine]
  | cons x line ih =>
    have hx : x ≠ sep := fun heq => h (heq ▸ List.mem_cons_self)
    have hline : sep ∉ line := fun hmem => h (List.mem_cons_of_mem x hmem)
    simp only [List.cons_append, takeLine, if_neg hx, ih hline]

theorem takeLine_length (xs : List α) : (takeLine sep xs).2.length ≤ xs.length := by
  induction xs with
  | nil => exact Nat.le_refl _
  | cons x xs ih =>
    simp only [takeLine, List.length_cons]
    split
    · exact Nat.le_succ _
    · exact Nat.le_succ_of_le ih

theorem takeLine_lt {xs : List α} (h : xs ≠ []) : (takeLine sep xs).2.length < xs.length := by
  cases xs with
  | nil => exact absurd rfl h
  | cons x xs =>
    simp only [takeLine, List.length_cons]
    split
    · exact Nat.lt_succ_self _
    · exact Nat.lt_succ_of_le (takeLine_length xs)

end Ccgonext.Lib.Lines
