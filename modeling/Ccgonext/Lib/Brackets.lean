import Mathlib.Data.List.Induction

/-!
# Marks between openings

A list in which some elements open a stretch and some close it. `tally` reads it
from the left and counts the closing elements since the last opening; the list
has exactly one of them between any two openings as long as no opening comes at
another count.
-/

namespace Ccgonext.Lib.Brackets

variable {α : Type*} (opens closes : α → Bool)

def note (n : Option ℕ) (p : α) : Option ℕ :=
  if opens p then some 0 else if closes p then n.map (· + 1) else n

/-- The closing elements since the last opening, if there is an opening. -/
def tally (l : List α) : Option ℕ := l.foldl (note opens closes) none

def OneBetween (l : List α) : Prop :=
  ∀ pre q mid q' post, l = pre ++ q :: (mid ++ q' :: post) → opens q = true → opens q' = true →
    (∀ p ∈ mid, opens p = false) → mid.countP closes = 1

variable {opens closes} {l pre mid : List α} {p q : α} {n : ℕ}

theorem tally_concat :
    tally opens closes (l ++ [p]) = note opens closes (tally opens closes l) p := by
  rw [tally, List.foldl_append]
  rfl

theorem foldl_note (hmid : ∀ p ∈ mid, opens p = false) :
    mid.foldl (note opens closes) (some n) = some (n + mid.countP closes) := by
  induction mid generalizing n with
  | nil => rfl
  | cons p mid ih =>
    have hp : opens p = false := hmid p List.mem_cons_self
    have hrest : ∀ q ∈ mid, opens q = false := fun q hq => hmid q (List.mem_cons_of_mem p hq)
    rw [List.foldl_cons, List.countP_cons]
    cases hc : closes p with
    | true =>
      have hnote : note opens closes (some n) p = some (n + 1) := by simp [note, hp, hc]
      rw [hnote, ih hrest]
      simp only [↓reduceIte, Option.some.injEq]
      omega
    | false =>
      have hnote : note opens closes (some n) p = some n := by simp [note, hp, hc]
      rw [hnote, ih hrest]
      simp

theorem tally_of_split (hq : opens q = true) (hmid : ∀ p ∈ mid, opens p = false) :
    tally opens closes (pre ++ q :: mid) = some (mid.countP closes) := by
  have hnote : note opens closes (pre.foldl (note opens closes) none) q = some 0 := by
    simp [note, hq]
  rw [tally, List.foldl_append, List.foldl_cons, hnote, foldl_note hmid, Nat.zero_add]

theorem split_of_tally (h : tally opens closes l = some n) :
    ∃ pre q mid, l = pre ++ q :: mid ∧ opens q = true ∧ (∀ p ∈ mid, opens p = false) ∧
      mid.countP closes = n := by
  induction l using List.reverseRecOn generalizing n with
  | nil => cases h
  | append_singleton l p ih =>
    rw [tally_concat] at h
    unfold note at h
    split at h
    · next hp =>
      cases h
      exact ⟨l, p, [], rfl, hp, nofun, rfl⟩
    · next hp =>
      have hp' : opens p = false := Bool.eq_false_iff.mpr hp
      have hadd : ∀ m, tally opens closes l = some m → ∃ pre q mid, l ++ [p] = pre ++ q :: mid ∧
          opens q = true ∧ (∀ p ∈ mid, opens p = false) ∧
          mid.countP closes = m + [p].countP closes := by
        intro m hm
        obtain ⟨pre, q, mid, rfl, hq, hmid, hn⟩ := ih hm
        refine ⟨pre, q, mid ++ [p], by simp, hq, fun r hr => ?_, ?_⟩
        · rcases List.mem_append.mp hr with hr | hr
          · exact hmid r hr
          · rw [List.mem_singleton.mp hr]
            exact hp'
        · rw [List.countP_append, hn]
      split at h
      · next hc =>
        obtain ⟨m, hm, rfl⟩ := Option.map_eq_some_iff.mp h
        simpa [hc] using hadd m hm
      · next hc => simpa [hc] using hadd n h

theorem oneBetween_nil : OneBetween opens closes [] := by
  intro pre q mid q' post h
  have hlen := congrArg List.length h
  simp at hlen

theorem oneBetween_of_append {ps : List α} (h : OneBetween opens closes (l ++ ps)) :
    OneBetween opens closes l := by
  intro pre q mid q' post hl
  exact h pre q mid q' (post ++ ps) (by rw [hl]; simp)

theorem oneBetween_concat : OneBetween opens closes (l ++ [p]) ↔
    OneBetween opens closes l ∧
      (opens p = true → tally opens closes l = none ∨ tally opens closes l = some 1) := by
  constructor
  · intro h
    refine ⟨oneBetween_of_append h, fun hp => ?_⟩
    cases ht : tally opens closes l with
    | none => exact .inl rfl
    | some n =>
      obtain ⟨pre, q, mid, rfl, hq, hmid, hn⟩ := split_of_tally ht
      have hone := h pre q mid p [] (by simp) hq hp hmid
      rw [← hn, hone]
      exact .inr rfl
  · rintro ⟨h, hlast⟩ pre q mid q' post hl hq hq' hmid
    rcases List.eq_nil_or_concat post with rfl | ⟨post, x, rfl⟩
    · have hsplit : l ++ [p] = (pre ++ q :: mid) ++ [q'] := by rw [hl]; simp
      obtain ⟨rfl, hpq⟩ := List.append_inj' hsplit rfl
      cases hpq
      rcases hlast hq' with ht | ht
      · rw [tally_of_split hq hmid] at ht
        cases ht
      · rw [tally_of_split hq hmid] at ht
        exact Option.some.inj ht
    · have hsplit : l ++ [p] = (pre ++ q :: (mid ++ q' :: post)) ++ [x] := by rw [hl]; simp
      exact h pre q mid q' post (List.append_inj' hsplit rfl).1 hq hq' hmid

theorem tally_append {ps : List α} (hps : ∀ p ∈ ps, opens p = false ∧ closes p = false) :
    tally opens closes (l ++ ps) = tally opens closes l := by
  induction ps using List.reverseRecOn with
  | nil => rw [List.append_nil]
  | append_singleton ps p ih =>
    obtain ⟨hopen, hclose⟩ := hps p (by simp)
    rw [← List.append_assoc, tally_concat, ih fun q hq => hps q (List.mem_append_left _ hq)]
    simp [note, hopen, hclose]

theorem oneBetween_append {ps : List α} (hps : ∀ p ∈ ps, opens p = false)
    (h : OneBetween opens closes l) : OneBetween opens closes (l ++ ps) := by
  induction ps using List.reverseRecOn with
  | nil => rwa [List.append_nil]
  | append_singleton ps p ih =>
    rw [← List.append_assoc]
    refine oneBetween_concat.mpr ⟨ih fun q hq => hps q (List.mem_append_left _ hq), fun hp => ?_⟩
    rw [hps p (by simp)] at hp
    cases hp

end Ccgonext.Lib.Brackets
