import Mathlib.Algebra.GroupWithZero.Nat
import Mathlib.Data.List.DropRight

/-!
# Text

What the standard library does with a `str`, as a list of characters: trimming
at both ends of everything with the property White_Space, and the parser of
unsigned numbers, which takes one leading plus sign and at least one digit.
-/

namespace Ccgonext.Lib.Text

def isWhitespace (c : Char) : Bool :=
  let n := c.toNat
  (0x9 ≤ n && n ≤ 0xD) || n == 0x20 || n == 0x85 || n == 0xA0 || n == 0x1680 ||
    (0x2000 ≤ n && n ≤ 0x200A) || n == 0x2028 || n == 0x2029 || n == 0x202F || n == 0x205F ||
    n == 0x3000

def trimEnd (text : List Char) : List Char := text.rdropWhile isWhitespace

def trim (text : List Char) : List Char :=
  (text.dropWhile isWhitespace).rdropWhile isWhitespace

def stripPlus : List Char → List Char
  | '+' :: digits => digits
  | digits => digits

/-- `parse` of an unsigned type with so many values. -/
def parseUnsigned (bound : ℕ) (text : List Char) : Option ℕ :=
  let digits := stripPlus text
  if digits ≠ [] ∧ digits.all Char.isDigit ∧ Nat.ofDigitChars 10 digits 0 < bound then
    some (Nat.ofDigitChars 10 digits 0)
  else none

/-- A `usize` of 64 bits. -/
def parseUsize (text : List Char) : Option ℕ := parseUnsigned (2 ^ 64) text

def parseU16 (text : List Char) : Option ℕ := parseUnsigned (2 ^ 16) text

def rsplitOnce (sep : Char) : List Char → Option (List Char × List Char)
  | [] => none
  | c :: text =>
    match rsplitOnce sep text with
    | some (before, after) => some (c :: before, after)
    | none => if c = sep then some ([], text) else none

example : parseUsize (trim " +0042\r\n".toList) = some 42 := by decide

theorem trim_append_whitespace {pad : List Char} (hpad : ∀ c ∈ pad, isWhitespace c)
    (text : List Char) : trim (text ++ pad) = trim text := by
  induction pad using List.reverseRecOn with
  | nil => rw [List.append_nil]
  | append_singleton pad c ih =>
    rw [← ih fun d hd => hpad d (List.mem_append_left _ hd), ← List.append_assoc]
    have hc : isWhitespace c := hpad c (List.mem_append_right _ List.mem_cons_self)
    generalize text ++ pad = s
    unfold trim
    rw [List.dropWhile_append]
    split
    · next hempty =>
      have hnil : s.dropWhile isWhitespace = [] := List.isEmpty_iff.mp hempty
      rw [hnil]
      simp [hc]
    · rw [List.rdropWhile_concat_pos _ _ _ hc]

theorem trim_whitespace_append {pad : List Char} (hpad : ∀ c ∈ pad, isWhitespace c)
    (text : List Char) : trim (pad ++ text) = trim text := by
  unfold trim
  rw [List.dropWhile_append_of_pos hpad]

theorem rdropWhile_append_cons {α : Type*} {p : α → Bool} {c : α} (hc : ¬ p c)
    (before after : List α) :
    (before ++ c :: after).rdropWhile p = before ++ c :: after.rdropWhile p := by
  induction after using List.reverseRecOn with
  | nil => exact List.rdropWhile_concat_neg p before c hc
  | append_singleton after d ih =>
    rw [← List.cons_append, ← List.append_assoc]
    by_cases hd : p d
    · rw [List.rdropWhile_concat_pos p _ d hd, List.rdropWhile_concat_pos p _ d hd, ih]
    · rw [List.rdropWhile_concat_neg p _ d hd, List.rdropWhile_concat_neg p _ d hd]
      simp only [List.append_assoc, List.cons_append]

theorem trim_cons_append {first c : Char} (hfirst : ¬ isWhitespace first)
    (hc : ¬ isWhitespace c) (before after : List Char) :
    trim (first :: (before ++ c :: after)) =
      first :: (before ++ c :: after.rdropWhile isWhitespace) := by
  rw [trim, List.dropWhile_cons_of_neg hfirst, ← List.cons_append, rdropWhile_append_cons hc]
  rfl

theorem trim_eq_self {text : List Char} (h : ∀ c ∈ text, ¬ isWhitespace c) : trim text = text := by
  have hdrop : text.dropWhile isWhitespace = text := by
    rw [List.dropWhile_eq_self_iff]
    exact fun hpos => h _ (List.getElem_mem hpos)
  rw [trim, hdrop, List.rdropWhile_eq_self_iff]
  exact fun hne => h _ (List.getLast_mem hne)

theorem isWhitespace_digit {c : Char} (h : c.isDigit = true) : ¬ isWhitespace c := by
  rw [Bool.not_eq_true]
  have hrange : 48 ≤ c.toNat ∧ c.toNat ≤ 57 := by
    simpa [Char.isDigit, UInt32.le_iff_toNat_le] using h
  simp only [isWhitespace, Bool.or_eq_false_iff, Bool.and_eq_false_iff, decide_eq_false_iff_not,
    beq_eq_false_iff_ne]
  omega

theorem stripPlus_eq {text : List Char} (h : ∀ rest, text ≠ '+' :: rest) :
    stripPlus text = text := by
  unfold stripPlus
  split
  · next rest => exact absurd rfl (h rest)
  · rfl

theorem stripPlus_digits {digits : List Char} (h : ∀ c ∈ digits, c.isDigit = true) :
    stripPlus digits = digits := by
  refine stripPlus_eq fun rest heq => ?_
  exact absurd (h '+' (by rw [heq]; exact List.mem_cons_self)) (by decide)

theorem rsplitOnce_none {sep : Char} {text : List Char} :
    rsplitOnce sep text = none ↔ sep ∉ text := by
  induction text with
  | nil => simp [rsplitOnce]
  | cons c text ih =>
    rw [rsplitOnce, List.mem_cons, not_or, ← ih]
    cases rsplitOnce sep text with
    | some split => simp
    | none => by_cases hc : c = sep <;> simp [hc, Ne.symm]

theorem rsplitOnce_append {sep : Char} {after : List Char} (h : sep ∉ after)
    (before : List Char) : rsplitOnce sep (before ++ sep :: after) = some (before, after) := by
  induction before with
  | nil => simp [rsplitOnce, rsplitOnce_none.mpr h]
  | cons c before ih => rw [List.cons_append, rsplitOnce, ih]

theorem rsplitOnce_some {sep : Char} {text before after : List Char}
    (h : rsplitOnce sep text = some (before, after)) :
    text = before ++ sep :: after ∧ sep ∉ after := by
  induction text generalizing before with
  | nil => cases h
  | cons c text ih =>
    rw [rsplitOnce] at h
    split at h
    · next before' after' hrest =>
      cases h
      obtain ⟨rfl, hnot⟩ := ih hrest
      exact ⟨rfl, hnot⟩
    · next hrest =>
      split at h
      · next hc =>
        cases h
        exact ⟨by rw [hc, List.nil_append], rsplitOnce_none.mp hrest⟩
      · cases h

theorem parseUnsigned_eq_some {bound : ℕ} {text : List Char} {n : ℕ}
    (h : parseUnsigned bound text = some n) :
    stripPlus text ≠ [] ∧ (∀ c ∈ stripPlus text, c.isDigit = true) ∧
      n = Nat.ofDigitChars 10 (stripPlus text) 0 ∧ n < bound := by
  unfold parseUnsigned at h
  dsimp only at h
  split at h
  · next hdigits =>
    cases h
    exact ⟨hdigits.1, List.all_eq_true.mp hdigits.2.1, rfl, hdigits.2.2⟩
  · cases h

theorem parseUnsigned_digits {bound : ℕ} {digits : List Char} (hne : digits ≠ [])
    (hdigits : ∀ c ∈ digits, c.isDigit = true) (hlt : Nat.ofDigitChars 10 digits 0 < bound) :
    parseUnsigned bound digits = some (Nat.ofDigitChars 10 digits 0) := by
  simp only [parseUnsigned, stripPlus_digits hdigits]
  exact if_pos ⟨hne, List.all_eq_true.mpr hdigits, hlt⟩

end Ccgonext.Lib.Text
