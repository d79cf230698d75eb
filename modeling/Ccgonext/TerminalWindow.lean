import Ccgonext.TerminalOutput
import Ccgonext.Lib.Weighted

/-!
# The window of a terminal's output

`append_terminal_output` with the byte offsets it trims at: `drain` panics where
the range ends inside a character or behind the last. It never does, and however
the output came in pieces, what is kept is its longest end within the limit.
-/

namespace Ccgonext.TerminalOutput
open Lib Weighted

def TerminalBuffer.new : TerminalBuffer := ⟨[], false⟩

def isCharBoundary : List Char → ℕ → Bool
  | _, 0 => true
  | [], _ => false
  | c :: text, n => c.utf8Size ≤ n && isCharBoundary text (n - c.utf8Size)

/-- `trim_at` after the loop that moves it up; `fuel` is how far the end is. -/
def nextBoundary (text : List Char) : ℕ → ℕ → ℕ
  | 0, trimAt => trimAt
  | fuel + 1, trimAt =>
    if trimAt < byteLen text ∧ isCharBoundary text trimAt = false then
      nextBoundary text fuel (trimAt + 1)
    else trimAt

/-- `drain(..trim_at)`, or nothing where it panics. -/
def drain : List Char → ℕ → Option (List Char)
  | text, 0 => some text
  | [], _ => none
  | c :: text, n => if c.utf8Size ≤ n then drain text (n - c.utf8Size) else none

def appendAt (outputLimit : Option ℕ) (buffer : TerminalBuffer) (chunk : List Char) :
    Option TerminalBuffer :=
  let output := buffer.output ++ chunk
  match outputLimit with
  | none => some { buffer with output := output }
  | some limit =>
    if limit < byteLen output then
      let trimAt := byteLen output - limit
      (drain output (nextBoundary output (byteLen output - trimAt) trimAt)).map fun rest =>
        ⟨rest, true⟩
    else some { buffer with output := output }

def appendChunks (outputLimit : Option ℕ) (buffer : TerminalBuffer) (chunks : List (List Char)) :
    Option TerminalBuffer :=
  chunks.foldlM (appendAt outputLimit) buffer

section Trim
variable {text : List Char} {c : Char} {m n limit fuel : ℕ}

theorem byteLen_cons : byteLen (c :: text) = c.utf8Size + byteLen text := weight_cons c

theorem isCharBoundary_cons (hn : 0 < n) : isCharBoundary (c :: text) n =
    (decide (c.utf8Size ≤ n) && isCharBoundary text (n - c.utf8Size)) := by
  cases n with
  | zero => exact absurd hn (Nat.lt_irrefl 0)
  | succ n => rfl

theorem isCharBoundary_add : isCharBoundary (c :: text) (c.utf8Size + n) =
    isCharBoundary text n := by
  rw [isCharBoundary_cons (Nat.add_pos_left c.utf8Size_pos n),
    decide_eq_true (Nat.le_add_right _ _), Bool.true_and, Nat.add_sub_cancel_left]

theorem isCharBoundary_end : isCharBoundary text (byteLen text) = true := by
  induction text with
  | nil => rfl
  | cons c text ih =>
    rw [byteLen_cons, isCharBoundary_add]
    exact ih

theorem drain_add : drain (c :: text) (c.utf8Size + n) = drain text n := by
  obtain ⟨k, hk⟩ : ∃ k, c.utf8Size + n = k + 1 :=
    Nat.exists_eq_add_one.mpr (Nat.add_pos_left c.utf8Size_pos n)
  have hstep : drain (c :: text) (k + 1) =
      if c.utf8Size ≤ k + 1 then drain text (k + 1 - c.utf8Size) else none := rfl
  rw [hk, hstep, ← hk, if_pos (Nat.le_add_right _ _), Nat.add_sub_cancel_left]

theorem nextBoundary_spec (hfuel : byteLen text - n ≤ fuel) (hn : n ≤ byteLen text) :
    n ≤ nextBoundary text fuel n ∧ nextBoundary text fuel n ≤ byteLen text ∧
      isCharBoundary text (nextBoundary text fuel n) = true ∧
      ∀ m, n ≤ m → m < nextBoundary text fuel n → isCharBoundary text m = false := by
  induction fuel generalizing n with
  | zero =>
    have hend : n = byteLen text := by omega
    subst hend
    exact ⟨Nat.le_refl _, Nat.le_refl _, isCharBoundary_end, fun m hm hlt =>
      absurd hm (Nat.not_le_of_gt hlt)⟩
  | succ fuel ih =>
    rw [nextBoundary]
    split
    · next hgo =>
      obtain ⟨hlt, hinside⟩ := hgo
      obtain ⟨hle, hend, hbound, hno⟩ := ih (n := n + 1) (by omega) hlt
      refine ⟨by omega, hend, hbound, fun m hm hlt' => ?_⟩
      rcases Nat.eq_or_lt_of_le hm with rfl | hm
      · exact hinside
      · exact hno m hm hlt'
    · next hstop =>
      refine ⟨Nat.le_refl n, hn, ?_, fun m hm hlt => absurd hm (Nat.not_le_of_gt hlt)⟩
      by_contra hinside
      rw [Bool.not_eq_true] at hinside
      rcases Nat.eq_or_lt_of_le hn with rfl | hlt
      · rw [isCharBoundary_end] at hinside
        cases hinside
      · exact hstop ⟨hlt, hinside⟩

theorem drain_firstBoundary (hmn : m ≤ n) (hbound : isCharBoundary text n = true)
    (hfirst : ∀ k, m ≤ k → k < n → isCharBoundary text k = false) :
    drain text n = some (trimFront m text) := by
  induction text generalizing m n with
  | nil =>
    cases n with
    | zero => rfl
    | succ n => cases hbound
  | cons c text ih =>
    cases m with
    | zero =>
      cases n with
      | zero => rfl
      | succ n =>
        have hstart := hfirst 0 (Nat.le_refl 0) (Nat.zero_lt_succ n)
        cases hstart
    | succ m =>
      rw [isCharBoundary_cons (by omega), Bool.and_eq_true, decide_eq_true_iff] at hbound
      obtain ⟨hsize, hbound⟩ := hbound
      obtain ⟨k, rfl⟩ := Nat.exists_eq_add_of_le hsize
      rw [Nat.add_sub_cancel_left] at hbound
      rw [drain_add, trimFront, if_neg (Nat.succ_ne_zero m)]
      refine ih (by omega) hbound fun j hj hlt => ?_
      rw [← isCharBoundary_add (c := c)]
      exact hfirst (c.utf8Size + j) (by omega) (by omega)

theorem trimFront_longest (text : List Char) (limit : ℕ) :
    LongestSuffix Char.utf8Size limit text (trimFront (byteLen text - limit) text) := by
  induction text with
  | nil => exact longestSuffix_self (Nat.zero_le limit)
  | cons c text ih =>
    rw [trimFront]
    split
    · next hzero =>
      refine longestSuffix_self ?_
      have hlen : byteLen (c :: text) ≤ limit := Nat.sub_eq_zero_iff_le.mp hzero
      exact hlen
    · next hpos =>
      rw [byteLen_cons] at hpos ⊢
      have hsub : c.utf8Size + byteLen text - limit - c.utf8Size = byteLen text - limit := by omega
      rw [hsub]
      refine ih.cons ?_
      rw [weight_cons]
      change limit < c.utf8Size + byteLen text
      omega

end Trim

section Append
variable {outputLimit : Option ℕ} {limit : ℕ} {buffer : TerminalBuffer} {chunk : List Char}

theorem appendAt_eq (outputLimit : Option ℕ) (buffer : TerminalBuffer) (chunk : List Char) :
    appendAt outputLimit buffer chunk = some (appendTerminalOutput outputLimit buffer chunk) := by
  cases outputLimit with
  | none => rfl
  | some limit =>
    unfold appendAt appendTerminalOutput
    dsimp only
    split
    · next hover =>
      have hle : byteLen (buffer.output ++ chunk) - limit ≤ byteLen (buffer.output ++ chunk) :=
        Nat.sub_le _ _
      obtain ⟨hmn, -, hbound, hfirst⟩ := nextBoundary_spec (Nat.le_refl _) hle
      rw [drain_firstBoundary hmn hbound hfirst]
      rfl
    · rfl

theorem appendChunks_eq (outputLimit : Option ℕ) (buffer : TerminalBuffer)
    (chunks : List (List Char)) : appendChunks outputLimit buffer chunks =
      some (chunks.foldl (appendTerminalOutput outputLimit) buffer) := by
  induction chunks generalizing buffer with
  | nil => rfl
  | cons chunk chunks ih =>
    rw [appendChunks, List.foldlM_cons, appendAt_eq]
    exact ih _

def Keeps (outputLimit : Option ℕ) (written : List Char) (buffer : TerminalBuffer) : Prop :=
  match outputLimit with
  | none => buffer.output = written ∧ buffer.truncated = false
  | some limit => LongestSuffix Char.utf8Size limit written buffer.output ∧
      (buffer.truncated = true ↔ limit < byteLen written)

theorem keeps_new (outputLimit : Option ℕ) : Keeps outputLimit [] .new := by
  cases outputLimit with
  | none => exact ⟨rfl, rfl⟩
  | some limit =>
    exact ⟨longestSuffix_self (Nat.zero_le limit), by simp [TerminalBuffer.new, byteLen]⟩

theorem Keeps.append {written : List Char} (h : Keeps outputLimit written buffer)
    (chunk : List Char) :
    Keeps outputLimit (written ++ chunk) (appendTerminalOutput outputLimit buffer chunk) := by
  cases outputLimit with
  | none =>
    obtain ⟨hout, htrunc⟩ := h
    exact ⟨congrArg (· ++ chunk) hout, htrunc⟩
  | some limit =>
    obtain ⟨hout, htrunc⟩ := h
    have hsuffix : buffer.output ++ chunk <:+ written ++ chunk :=
      List.suffix_append_self_iff.mpr hout.suffix
    have hle : byteLen (buffer.output ++ chunk) ≤ byteLen (written ++ chunk) :=
      weight_le_of_suffix hsuffix
    unfold appendTerminalOutput
    dsimp only
    split
    · next hover =>
      exact ⟨hout.append (trimFront_longest _ limit),
        iff_of_true rfl (Nat.lt_of_lt_of_le hover hle)⟩
    · next hroom =>
      have hfits : byteLen (buffer.output ++ chunk) ≤ limit := Nat.le_of_not_lt hroom
      refine ⟨hout.append (longestSuffix_self hfits),
        htrunc.trans ⟨fun hlong => ?_, fun hlong => ?_⟩⟩
      · have hgrow : byteLen (written ++ chunk) = byteLen written + byteLen chunk := weight_append
        omega
      · -- nothing was dropped before: the buffer held all that was written
        by_contra hshort
        have hsame : buffer.output = written :=
          hout.unique (longestSuffix_self (Nat.le_of_not_lt hshort))
        rw [hsame] at hfits
        exact absurd hlong (Nat.not_lt_of_le hfits)

theorem keeps_foldl {written : List Char} (h : Keeps outputLimit written buffer)
    (chunks : List (List Char)) : Keeps outputLimit (written ++ chunks.flatten)
      (chunks.foldl (appendTerminalOutput outputLimit) buffer) := by
  induction chunks generalizing written buffer with
  | nil =>
    rw [List.flatten_nil, List.append_nil]
    exact h
  | cons chunk chunks ih =>
    rw [List.flatten_cons, ← List.append_assoc]
    exact ih (h.append chunk)

theorem Keeps.unique {written : List Char} {buffer' : TerminalBuffer}
    (h : Keeps outputLimit written buffer) (h' : Keeps outputLimit written buffer') :
    buffer = buffer' := by
  obtain ⟨output, truncated⟩ := buffer
  obtain ⟨output', truncated'⟩ := buffer'
  cases outputLimit with
  | none =>
    obtain ⟨rfl, rfl⟩ := h
    obtain ⟨rfl, rfl⟩ := h'
    rfl
  | some limit =>
    obtain ⟨hout, htrunc⟩ := h
    obtain ⟨hout', htrunc'⟩ := h'
    have houtput : output = output' := hout.unique hout'
    have htruncated : truncated = truncated' := Bool.eq_iff_iff.mpr (htrunc.trans htrunc'.symm)
    rw [houtput, htruncated]

/-- No append panics, the buffer holds the longest end of what was written that is
within the limit, and into which pieces it was cut makes no difference. -/
theorem append_keeps (outputLimit : Option ℕ) (chunks : List (List Char)) :
    ∃ buffer, appendChunks outputLimit .new chunks = some buffer ∧
      Keeps outputLimit chunks.flatten buffer ∧
      ∀ chunks', chunks'.flatten = chunks.flatten →
        appendChunks outputLimit .new chunks' = some buffer := by
  have hkeeps := keeps_foldl (keeps_new outputLimit)
  refine ⟨_, appendChunks_eq outputLimit .new chunks, hkeeps chunks, fun chunks' hsame => ?_⟩
  rw [appendChunks_eq]
  have hkeeps' := hkeeps chunks'
  rw [hsame] at hkeeps'
  exact congrArg some (hkeeps'.unique (hkeeps chunks))

end Append

end Ccgonext.TerminalOutput
