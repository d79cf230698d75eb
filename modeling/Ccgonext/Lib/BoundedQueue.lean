import Mathlib.Data.List.DropRight

/-!
# A queue that keeps its newest entries

Pushing onto a queue of capacity `n` appends at the back and then drops the
front until at most `n` entries are left. After any number of pushes the queue
holds the last `n` entries ever pushed, `List.rtake n` of the history, so an
entry is still there exactly when fewer than `n` entries were pushed after it.
-/

namespace Ccgonext.Lib.BoundedQueue

variable {α : Type*} {n : ℕ}

def trim (n : ℕ) : List α → List α
  | [] => []
  | x :: xs => if n < (x :: xs).length then trim n xs else x :: xs

def push (n : ℕ) (q : List α) (x : α) : List α := trim n (q ++ [x])

theorem trim_eq_rtake (n : ℕ) (l : List α) : trim n l = l.rtake n := by
  induction l with
  | nil => simp [trim]
  | cons x xs ih =>
    by_cases hn : n < (x :: xs).length
    · have hsub : (x :: xs).length - n = (xs.length - n) + 1 := by
        simp only [List.length_cons] at hn ⊢
        omega
      rw [trim, if_pos hn, ih, List.rtake, List.rtake, hsub, List.drop_succ_cons]
    · have hsub : (x :: xs).length - n = 0 := by omega
      rw [trim, if_neg hn, List.rtake, hsub, List.drop_zero]

theorem rtake_suffix (n : ℕ) (l : List α) : l.rtake n <:+ l := List.drop_suffix _ _

theorem rtake_length_le (n : ℕ) (l : List α) : (l.rtake n).length ≤ n := by
  simp only [List.rtake, List.length_drop]
  omega

theorem push_suffix (q : List α) (x : α) : push n q x <:+ q ++ [x] := by
  rw [push, trim_eq_rtake]
  exact rtake_suffix n _

theorem push_length_le (q : List α) (x : α) : (push n q x).length ≤ n := by
  rw [push, trim_eq_rtake]
  exact rtake_length_le n _

theorem mem_push {q : List α} {x y : α} (h : y ∈ push n q x) : y ∈ q ∨ y = x := by
  have hm := (push_suffix q x).subset h
  simpa using hm

theorem suffix_rtake {l t : List α} (ht : t <:+ l) (hn : t.length ≤ n) : t <:+ l.rtake n := by
  refine List.suffix_of_suffix_length_le ht (rtake_suffix n l) ?_
  have hle := ht.length_le
  simp only [List.rtake, List.length_drop]
  omega

theorem push_rtake (h : List α) (x : α) : push n (h.rtake n) x = (h ++ [x]).rtake n := by
  rw [push, trim_eq_rtake]
  cases n with
  | zero => simp
  | succ n =>
    rw [List.rtake_concat_succ, List.rtake_concat_succ]
    congr 1
    refine List.IsSuffix.eq_of_length ?_ ?_
    · exact suffix_rtake ((rtake_suffix n _).trans (rtake_suffix (n + 1) h)) (rtake_length_le n _)
    · simp only [List.rtake, List.length_drop]
      omega

/-- An entry of a history without repetitions is still in the queue exactly
when fewer than `n` entries came after it. -/
theorem mem_rtake_iff {a b : List α} {x : α} (hnd : (a ++ x :: b).Nodup) :
    x ∈ (a ++ x :: b).rtake n ↔ (x :: b).length ≤ n := by
  constructor
  · intro hx
    by_contra hlt
    have hsuf : (a ++ x :: b).rtake n <:+ b := by
      refine List.suffix_of_suffix_length_le (rtake_suffix n _) ?_ ?_
      · exact ⟨a ++ [x], by simp⟩
      · have hle := rtake_length_le n (a ++ x :: b)
        simp only [List.length_cons] at hlt
        omega
    have hxb : x ∉ b := (List.nodup_cons.mp (List.nodup_append.mp hnd).2.1).1
    exact hxb (hsuf.subset hx)
  · intro hle
    exact (suffix_rtake (List.suffix_append a (x :: b)) hle).subset List.mem_cons_self

theorem sublist_dropWhile [DecidableEq α] {h t : List α} (ht : t.Sublist h) :
    t.Sublist (h.dropWhile (· ∉ t)) := by
  have hsplit := List.takeWhile_append_dropWhile (p := fun x => decide (x ∉ t)) (l := h)
  rw [← hsplit, List.sublist_append_iff] at ht
  obtain ⟨t₁, t₂, rfl, h₁, h₂⟩ := ht
  have hnil : t₁ = [] := by
    apply List.eq_nil_iff_forall_not_mem.mpr
    intro x hx
    have hout := List.mem_takeWhile_imp (h₁.subset hx)
    exact of_decide_eq_true hout (List.mem_append_left t₂ hx)
  subst hnil
  exact h₂

/-- A selection of a history without repetitions is still in the queue exactly
when at most `n` entries were pushed from its first entry on. -/
theorem sublist_rtake_iff [DecidableEq α] {h t : List α} (hnd : h.Nodup) (ht : t.Sublist h) :
    t.Sublist (h.rtake n) ↔ (h.dropWhile (· ∉ t)).length ≤ n := by
  constructor
  · intro hsub
    have hsplit := List.takeWhile_append_dropWhile (p := fun x => decide (x ∉ t)) (l := h)
    cases hd : h.dropWhile (· ∉ t) with
    | nil => simp
    | cons x b =>
      have hx : x ∈ t := by
        have hhead := List.head_dropWhile_not (p := fun x => decide (x ∉ t)) (l := h)
          (by rw [hd]; exact List.cons_ne_nil x b)
        simp only [hd, List.head_cons] at hhead
        simpa using hhead
      rw [hd] at hsplit
      rw [← hsplit] at hnd
      refine (mem_rtake_iff hnd).mp ?_
      rw [hsplit]
      exact hsub.subset hx
  · intro hle
    have hsuf := suffix_rtake (List.dropWhile_suffix (l := h) (fun x => decide (x ∉ t))) hle
    exact (sublist_dropWhile ht).trans hsuf.sublist

theorem mem_rtake_iff_dropWhile [DecidableEq α] {h : List α} {x : α} (hnd : h.Nodup)
    (hx : x ∈ h) : x ∈ h.rtake n ↔ (h.dropWhile (· ≠ x)).length ≤ n := by
  have hsub := sublist_rtake_iff (n := n) hnd (List.singleton_sublist.mpr hx)
  simpa only [List.singleton_sublist, List.mem_singleton] using hsub

end Ccgonext.Lib.BoundedQueue
