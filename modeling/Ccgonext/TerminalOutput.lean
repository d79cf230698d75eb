import Ccgonext.Lib.Utf8
import Mathlib.Algebra.GroupWithZero.Nat

/-!
# The output of a terminal

`drain_terminal_stream` and `append_terminal_output` of `acp/callbacks.rs`. A
drain task keeps up to three bytes from one read to the next, hands on what is
valid, and decodes lossily what starts with a byte that is not as soon as there
are four bytes of it, whether or not the last of them are a whole character.
-/

namespace Ccgonext.TerminalOutput
open Lib Utf8

/-- One `read` of the stream, `Ok(n)` with the `n` bytes. -/
inductive Read
  | ok (bytes : List UInt8)
  | err
  deriving DecidableEq, Repr

structure TerminalBuffer where
  output : List Char
  truncated : Bool
  deriving DecidableEq, Repr

def byteLen (text : List Char) : ℕ := (text.map Char.utf8Size).sum

/-- `drain(..trim_at)`, with `trim_at` moved up to the next character. -/
def trimFront : ℕ → List Char → List Char
  | _, [] => []
  | n, c :: text => if n = 0 then c :: text else trimFront (n - c.utf8Size) text

def appendTerminalOutput (outputLimit : Option ℕ) (buffer : TerminalBuffer)
    (chunk : List Char) : TerminalBuffer :=
  let output := buffer.output ++ chunk
  match outputLimit with
  | none => { buffer with output := output }
  | some limit =>
    if limit < byteLen output then ⟨trimFront (byteLen output - limit) output, true⟩
    else { buffer with output := output }

/-- What is handed on for output, by `from_utf8_unchecked` or by `from_utf8_lossy`. -/
inductive Slice
  | text (bytes : List UInt8)
  | lossy (bytes : List UInt8)
  deriving DecidableEq, Repr

def Slice.decode : Slice → List Char
  | .text bytes => (Utf8.decode bytes).getD []
  | .lossy bytes => Utf8.lossy bytes

/-- `from_utf8(data)`, `data.len()` or the error's `valid_up_to()`. -/
def validLen (data : List UInt8) : ℕ :=
  match Utf8.decode data with
  | some _ => data.length
  | none => validUpTo data

structure Drained where
  slices : List Slice
  leftover : List UInt8
  deriving DecidableEq, Repr

def remaining (leftover buf : List UInt8) : List UInt8 :=
  (leftover ++ buf).drop (validLen (leftover ++ buf))

def drainRead (leftover buf : List UInt8) : Drained :=
  let data := leftover ++ buf
  let text := if 0 < validLen data then [Slice.text (data.take (validLen data))] else []
  match remaining leftover buf with
  | [] => ⟨text, []⟩
  | rest => if 4 ≤ rest.length then ⟨text ++ [.lossy rest], []⟩ else ⟨text, rest⟩

def drainEnd : List UInt8 → List Slice
  | [] => []
  | leftover => [.lossy leftover]

def drainFrom : List UInt8 → List Read → List Slice
  | leftover, .ok (b :: buf) :: reads =>
    (drainRead leftover (b :: buf)).slices ++
      drainFrom (drainRead leftover (b :: buf)).leftover reads
  | leftover, _ => drainEnd leftover

def drainTerminalStream (outputLimit : Option ℕ) (buffer : TerminalBuffer)
    (reads : List Read) : TerminalBuffer :=
  (drainFrom [] reads).foldl (fun buffer slice =>
    appendTerminalOutput outputLimit buffer slice.decode) buffer

/-- No read leaves four bytes or more that end inside a character the next read
goes on with. -/
def CutsNothing : List UInt8 → List (List UInt8) → Prop
  | _, [] => True
  | leftover, buf :: reads =>
    (4 ≤ (remaining leftover buf).length →
      ¬ Continues (stateFrom .start (remaining leftover buf)) reads.flatten) ∧
    CutsNothing (drainRead leftover buf).leftover reads

instance decidableCutsNothing : ∀ leftover reads, Decidable (CutsNothing leftover reads)
  | _, [] => .isTrue trivial
  | leftover, buf :: reads =>
    have := decidableCutsNothing (drainRead leftover buf).leftover reads
    inferInstanceAs (Decidable (_ ∧ _))

def decodeAll (slices : List Slice) : List Char := slices.flatMap Slice.decode

theorem foldl_append (slices : List Slice) (buffer : TerminalBuffer) :
    (slices.foldl (fun buffer slice => appendTerminalOutput none buffer slice.decode)
      buffer).output = buffer.output ++ decodeAll slices := by
  induction slices generalizing buffer with
  | nil => simp [decodeAll]
  | cons slice slices ih =>
    rw [List.foldl_cons, ih]
    simp [appendTerminalOutput, decodeAll]

theorem decode_take_validLen (data : List UInt8) :
    ∃ cs, Utf8.decode (data.take (validLen data)) = some cs := by
  unfold validLen
  cases hdata : Utf8.decode data with
  | some cs => exact ⟨cs, by rw [List.take_length]; exact hdata⟩
  | none => exact decode_take_validUpTo data

theorem drainRead_spec (leftover buf : List UInt8) :
    ∃ cs, (∀ more, lossy (leftover ++ buf ++ more) =
        cs ++ lossy (remaining leftover buf ++ more)) ∧
      (4 ≤ (remaining leftover buf).length ∧ (drainRead leftover buf).leftover = [] ∧
          decodeAll (drainRead leftover buf).slices = cs ++ lossy (remaining leftover buf) ∨
        (remaining leftover buf).length < 4 ∧
          (drainRead leftover buf).leftover = remaining leftover buf ∧
          decodeAll (drainRead leftover buf).slices = cs) := by
  obtain ⟨cs, hcs⟩ := decode_take_validLen (leftover ++ buf)
  refine ⟨cs, ?_, ?_⟩
  · intro more
    have hsplit : leftover ++ buf ++ more =
        (leftover ++ buf).take (validLen (leftover ++ buf)) ++
          (remaining leftover buf ++ more) := by
      rw [remaining, ← List.append_assoc, List.take_append_drop]
    rw [hsplit, lossy_of_decode hcs]
  have htext : decodeAll (if 0 < validLen (leftover ++ buf) then
      [Slice.text ((leftover ++ buf).take (validLen (leftover ++ buf)))] else []) = cs := by
    split
    · simp [decodeAll, Slice.decode, hcs]
    · next hzero =>
      obtain hzero : validLen (leftover ++ buf) = 0 := by omega
      rw [hzero] at hcs
      simpa [Utf8.decode, decodeFrom, decodeAll] using hcs
  unfold drainRead
  dsimp only
  cases hrest : remaining leftover buf with
  | nil => exact .inr ⟨Nat.zero_lt_succ 3, rfl, htext⟩
  | cons b rest =>
    by_cases hlong : 4 ≤ (b :: rest).length
    · refine .inl ⟨hlong, by simp only [if_pos hlong], ?_⟩
      simp only [if_pos hlong, decodeAll, List.flatMap_append] at htext ⊢
      rw [htext]
      simp [Slice.decode]
    · exact .inr ⟨by omega, by simp only [if_neg hlong], by simpa only [if_neg hlong] using htext⟩

def reads (chunks : List (List UInt8)) : List Read := chunks.map .ok ++ [.ok []]

theorem drainFrom_cons {leftover buf : List UInt8} (hbuf : buf ≠ [])
    (chunks : List (List UInt8)) :
    drainFrom leftover (reads (buf :: chunks)) =
      (drainRead leftover buf).slices ++
        drainFrom (drainRead leftover buf).leftover (reads chunks) := by
  cases buf with
  | nil => exact absurd rfl hbuf
  | cons b buf => rfl

theorem decodeAll_drainFrom_nil (leftover : List UInt8) :
    decodeAll (drainFrom leftover (reads [])) = lossy leftover := by
  cases leftover with
  | nil => rfl
  | cons b leftover => exact List.append_nil _

/-- The output is never shorter than that of decoding at once, and the same
exactly if no character is cut. -/
theorem drainFrom_spec (leftover : List UInt8) (chunks : List (List UInt8))
    (hchunks : ∀ buf ∈ chunks, buf ≠ []) :
    (lossy (leftover ++ chunks.flatten)).length ≤
        (decodeAll (drainFrom leftover (reads chunks))).length ∧
      (decodeAll (drainFrom leftover (reads chunks)) = lossy (leftover ++ chunks.flatten) ↔
        CutsNothing leftover chunks) := by
  induction chunks generalizing leftover with
  | nil =>
    rw [decodeAll_drainFrom_nil, List.flatten_nil, List.append_nil]
    exact ⟨Nat.le_refl _, iff_of_true rfl trivial⟩
  | cons buf chunks ih =>
    obtain ⟨cs, hcs, hread⟩ := drainRead_spec leftover buf
    have hrest := ih (drainRead leftover buf).leftover
      (fun b hb => hchunks b (List.mem_cons_of_mem buf hb))
    have hout : decodeAll (drainFrom leftover (reads (buf :: chunks))) =
        decodeAll (drainRead leftover buf).slices ++
          decodeAll (drainFrom (drainRead leftover buf).leftover (reads chunks)) := by
      rw [drainFrom_cons (hchunks buf List.mem_cons_self), decodeAll, List.flatMap_append]
      rfl
    have hwhole : lossy (leftover ++ (buf :: chunks).flatten) =
        cs ++ lossy (remaining leftover buf ++ chunks.flatten) := by
      rw [List.flatten_cons, ← List.append_assoc, hcs]
    rw [hout, hwhole]
    generalize decodeAll (drainFrom (drainRead leftover buf).leftover (reads chunks)) = out
      at hrest ⊢
    rcases hread with ⟨hlong, hleft, hslices⟩ | ⟨hshort, hleft, hslices⟩
    · -- the rest is decoded lossily: it is cut off from what comes after it
      rw [hleft, List.nil_append] at hrest
      rw [hslices]
      have hcut := lossy_append_le (remaining leftover buf) chunks.flatten
      rw [List.length_append] at hcut
      rw [List.append_assoc, List.append_cancel_left_eq, CutsNothing, hleft, ← hrest.2,
        ← lossy_append_iff]
      constructor
      · simp only [List.length_append]
        omega
      constructor
      · intro heq
        have hlen := congrArg List.length heq
        rw [List.length_append] at hlen
        have hout : out = lossy chunks.flatten := by
          have hpre : lossy (remaining leftover buf ++ chunks.flatten) =
              lossy (remaining leftover buf) ++ lossy chunks.flatten := by
            by_contra hne
            have hlt := lossy_append_lt hne
            rw [List.length_append] at hlt
            omega
          rw [hpre] at heq
          exact List.append_cancel_left heq
        exact ⟨fun _ => by rw [← heq, hout], hout⟩
      · rintro ⟨hwhole, hout⟩
        rw [hout, hwhole hlong]
    · rw [hleft] at hrest
      rw [hslices, List.length_append, List.length_append, List.append_cancel_left_eq, CutsNothing,
        hleft, hrest.2]
      refine ⟨Nat.add_le_add_left hrest.1 _, ?_⟩
      constructor
      · exact fun h => ⟨fun hlong => absurd hlong (by omega), h⟩
      · exact fun h => h.2

/-- Without a limit the terminal shows the stream decoded as a whole exactly if no
lossily decoded piece of it ends inside a character. -/
theorem output_iff_cutsNothing (buffer : TerminalBuffer) (chunks : List (List UInt8))
    (hchunks : ∀ buf ∈ chunks, buf ≠ [] ∧ buf.length ≤ 4096) :
    (drainTerminalStream none buffer (reads chunks)).output =
        buffer.output ++ lossy chunks.flatten ↔ CutsNothing [] chunks := by
  rw [drainTerminalStream, foldl_append, List.append_cancel_left_eq]
  exact (drainFrom_spec [] chunks fun buf hbuf => (hchunks buf hbuf).1).2

def cutOnce : List (List UInt8) := [[0x61, 0xE4, 0xBD], [0xA0, 0xFF, 0x62]]

theorem output_cutOnce :
    (drainTerminalStream none ⟨[], false⟩ (reads cutOnce)).output =
      [] ++ lossy cutOnce.flatten :=
  (output_iff_cutsNothing ⟨[], false⟩ cutOnce (by decide)).mpr (by decide)

def cutAfterBad : List (List UInt8) := [[0xFF, 0x61, 0x62, 0xE4], [0xBD, 0xA0]]

theorem cutAfterBad_output :
    (∀ buf ∈ cutAfterBad, buf ≠ [] ∧ buf.length ≤ 4096) ∧
      lossy cutAfterBad.flatten = [replacement, 'a', 'b', '你'] ∧
      (drainTerminalStream none ⟨[], false⟩ (reads cutAfterBad)).output =
        [replacement, 'a', 'b', replacement, replacement, replacement] := by
  decide

end Ccgonext.TerminalOutput
