import Mathlib.Algebra.GroupWithZero.Nat
import Mathlib.Data.List.Basic

/-!
# The longest end of a list within a weight

Every element has a weight, and of a list only the longest suffix is kept whose
weight is within a limit. Kept again after each of several appends it is the same
as if it had been kept once of the whole.
-/

namespace Ccgonext.Lib.Weighted

variable {α : Type*} {w : α → ℕ} {limit : ℕ} {l l' out out' : List α}

def weight (w : α → ℕ) (l : List α) : ℕ := (l.map w).sum

structure LongestSuffix (w : α → ℕ) (limit : ℕ) (l out : List α) : Prop where
  suffix : out <:+ l
  fits : weight w out ≤ limit
  longest : ∀ s, s <:+ l → weight w s ≤ limit → s <:+ out

@[simp] theorem weight_nil : weight w [] = 0 := rfl

@[simp] theorem weight_cons (a : α) : weight w (a :: l) = w a + weight w l := by
  rw [weight, List.map_cons, List.sum_cons]
  rfl

@[simp] theorem weight_append : weight w (l ++ l') = weight w l + weight w l' := by
  rw [weight, List.map_append, List.sum_append]
  rfl

theorem weight_set {i : ℕ} {a b : α} (h : l[i]? = some a) :
    weight w (l.set i b) + w a = weight w l + w b := by
  induction l generalizing i with
  | nil => cases h
  | cons c l ih =>
    cases i with
    | zero =>
      cases h
      rw [List.set_cons_zero, weight_cons, weight_cons]
      omega
    | succ i =>
      have htail := ih h
      rw [List.set_cons_succ, weight_cons, weight_cons]
      omega

theorem weight_le_of_suffix (h : l <:+ l') : weight w l ≤ weight w l' := by
  obtain ⟨pre, rfl⟩ := h
  rw [weight_append]
  exact Nat.le_add_left _ _

theorem longestSuffix_self (h : weight w l ≤ limit) : LongestSuffix w limit l l :=
  ⟨List.suffix_rfl, h, fun _ hs _ => hs⟩

theorem LongestSuffix.unique (h : LongestSuffix w limit l out)
    (h' : LongestSuffix w limit l out') : out = out' :=
  (h'.longest out h.suffix h.fits).eq_of_length_le
    (h.longest out' h'.suffix h'.fits).length_le

theorem LongestSuffix.cons {a : α} (h : LongestSuffix w limit l out)
    (ha : limit < weight w (a :: l)) : LongestSuffix w limit (a :: l) out := by
  refine ⟨h.suffix.trans (List.suffix_cons a l), h.fits, fun s hs hfits => ?_⟩
  rcases List.suffix_cons_iff.mp hs with rfl | hs
  · exact absurd hfits (Nat.not_le_of_lt ha)
  · exact h.longest s hs hfits

/-- What was dropped before the append would be dropped after it as well. -/
theorem LongestSuffix.append (h : LongestSuffix w limit l out)
    (h' : LongestSuffix w limit (out ++ l') out') : LongestSuffix w limit (l ++ l') out' := by
  refine ⟨h'.suffix.trans (List.suffix_append_self_iff.mpr h.suffix), h'.fits, ?_⟩
  intro s hs hfits
  rcases List.suffix_or_suffix_of_suffix hs (List.suffix_append l l') with hshort | ⟨pre, rfl⟩
  · exact h'.longest s (List.suffix_append_of_suffix hshort) hfits
  · refine h'.longest _ (List.suffix_append_self_iff.mpr ?_) hfits
    rw [weight_append] at hfits
    exact h.longest pre (List.suffix_append_self_iff.mp hs) (Nat.le_of_add_right_le hfits)

end Ccgonext.Lib.Weighted
