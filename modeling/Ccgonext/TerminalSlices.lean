import Ccgonext.TerminalOutput
import Mathlib.Data.List.Induction

/-!
# The slices of a terminal's stream

The bytes that `drain_terminal_stream` reads, followed through the loop: what it
hands on and what it keeps make up what it has read, `from_utf8_unchecked` is
given nothing but text, and a stream that is text is never decoded lossily.
-/

namespace Ccgonext.TerminalOutput
open Lib Utf8

def Slice.bytes : Slice → List UInt8
  | .text bytes | .lossy bytes => bytes

def chunks : List Read → List (List UInt8)
  | .ok (b :: buf) :: reads => (b :: buf) :: chunks reads
  | _ => []

def Drained.read (d : Drained) (buf : List UInt8) : Drained :=
  ⟨d.slices ++ (drainRead d.leftover buf).slices, (drainRead d.leftover buf).leftover⟩

def drained (bufs : List (List UInt8)) : Drained := bufs.foldl Drained.read ⟨[], []⟩

structure Drained.Sound (d : Drained) (bufs : List (List UInt8)) : Prop where
  leftover : d.leftover.length ≤ 3
  begun : validLen d.leftover = 0
  text : ∀ bytes, .text bytes ∈ d.slices → IsUtf8 bytes = true
  all : d.slices.flatMap Slice.bytes ++ d.leftover = bufs.flatten

section Reads
variable {d : Drained} {bufs : List (List UInt8)} {buf leftover more : List UInt8}

theorem validLen_eq (data : List UInt8) : validLen data = validUpTo data := by
  unfold validLen
  split
  · next cs hcs => exact (validUpTo_of_text hcs).symm
  · rfl

theorem drainRead_leftover (leftover buf : List UInt8) :
    (drainRead leftover buf).leftover = [] ∧ 4 ≤ (remaining leftover buf).length ∨
      (drainRead leftover buf).leftover = remaining leftover buf ∧
        (remaining leftover buf).length ≤ 3 := by
  rw [drainRead]
  split
  · next hrest =>
    rw [hrest]
    exact .inr ⟨rfl, Nat.zero_le 3⟩
  · next hne =>
    by_cases hlong : 4 ≤ (remaining leftover buf).length
    · exact .inl ⟨by rw [if_pos hlong], hlong⟩
    · exact .inr ⟨by rw [if_neg hlong], by omega⟩

theorem drainRead_bytes (leftover buf : List UInt8) :
    (drainRead leftover buf).slices.flatMap Slice.bytes ++ (drainRead leftover buf).leftover =
      leftover ++ buf := by
  have htext : (if 0 < validLen (leftover ++ buf) then
      [Slice.text ((leftover ++ buf).take (validLen (leftover ++ buf)))] else []).flatMap
        Slice.bytes = (leftover ++ buf).take (validLen (leftover ++ buf)) := by
    split
    · exact List.flatMap_singleton _ _
    · next hzero =>
      rw [Nat.eq_zero_of_not_pos hzero]
      rfl
  have hsplit : (leftover ++ buf).take (validLen (leftover ++ buf)) ++ remaining leftover buf =
      leftover ++ buf := List.take_append_drop _ _
  rw [drainRead]
  split
  · next hrest =>
    rw [hrest] at hsplit
    rw [htext, hsplit]
  · next hne =>
    split
    · rw [List.flatMap_append, htext, List.append_nil, List.flatMap_singleton]
      exact hsplit
    · rw [htext, hsplit]

theorem mem_drainRead {slice : Slice} (h : slice ∈ (drainRead leftover buf).slices) :
    slice = .text ((leftover ++ buf).take (validLen (leftover ++ buf))) ∨
      slice = .lossy (remaining leftover buf) ∧ 4 ≤ (remaining leftover buf).length := by
  have htext : slice ∈ (if 0 < validLen (leftover ++ buf) then
      [Slice.text ((leftover ++ buf).take (validLen (leftover ++ buf)))] else []) →
      slice = .text ((leftover ++ buf).take (validLen (leftover ++ buf))) := by
    intro hmem
    split at hmem
    · exact List.mem_singleton.mp hmem
    · cases hmem
  rw [drainRead] at h
  split at h
  · exact .inl (htext h)
  · next hne =>
    split at h
    · next hlong =>
      rcases List.mem_append.mp h with hmem | hmem
      · exact .inl (htext hmem)
      · exact .inr ⟨List.mem_singleton.mp hmem, hlong⟩
    · exact .inl (htext h)

theorem drained_sound (bufs : List (List UInt8)) : (drained bufs).Sound bufs := by
  induction bufs using List.reverseRecOn with
  | nil => exact ⟨Nat.zero_le 3, rfl, fun _ h => absurd h List.not_mem_nil, rfl⟩
  | append_singleton bufs buf ih =>
    have hstep : drained (bufs ++ [buf]) = (drained bufs).read buf := List.foldl_concat ..
    rw [hstep]
    refine ⟨?_, ?_, fun bytes hmem => ?_, ?_⟩
    · rw [Drained.read]
      rcases drainRead_leftover (drained bufs).leftover buf with ⟨hnil, -⟩ | ⟨hrest, hlen⟩
      · rw [hnil]
        exact Nat.zero_le 3
      · rw [hrest]
        exact hlen
    · rw [Drained.read]
      rcases drainRead_leftover (drained bufs).leftover buf with ⟨hnil, -⟩ | ⟨hrest, -⟩
      · rw [hnil]
        rfl
      · rw [hrest, validLen_eq, remaining, validLen_eq]
        exact validUpTo_drop _
    · rcases List.mem_append.mp hmem with hmem | hmem
      · exact ih.text bytes hmem
      · rcases mem_drainRead hmem with heq | ⟨heq, -⟩
        · cases heq
          obtain ⟨cs, hcs⟩ := decode_take_validLen ((drained bufs).leftover ++ buf)
          exact Option.isSome_iff_exists.mpr ⟨cs, hcs⟩
        · cases heq
    · rw [Drained.read, List.flatMap_append, List.append_assoc, drainRead_bytes,
        ← List.append_assoc,
        ih.all, List.flatten_append, List.flatten_singleton]

theorem drained_text (bufs : List (List UInt8)) (more : List UInt8)
    (h : IsUtf8 (bufs.flatten ++ more) = true) :
    (∀ bytes, .lossy bytes ∉ (drained bufs).slices) ∧
      IsUtf8 ((drained bufs).leftover ++ more) = true := by
  induction bufs using List.reverseRecOn generalizing more with
  | nil => exact ⟨fun _ => List.not_mem_nil, h⟩
  | append_singleton bufs buf ih =>
    have hstep : drained (bufs ++ [buf]) = (drained bufs).read buf := List.foldl_concat ..
    rw [List.flatten_append, List.flatten_singleton, List.append_assoc] at h
    obtain ⟨hnone, htext⟩ := ih (buf ++ more) h
    rw [← List.append_assoc] at htext
    obtain ⟨hlen, hrest⟩ := rest_of_text htext
    rw [← validLen_eq] at hlen hrest
    rw [hstep]
    refine ⟨fun bytes hmem => ?_, ?_⟩
    · rcases List.mem_append.mp hmem with hmem | hmem
      · exact hnone bytes hmem
      · rcases mem_drainRead hmem with heq | ⟨heq, hlong⟩
        · cases heq
        · rw [remaining] at hlong
          omega
    · rw [Drained.read]
      rcases drainRead_leftover (drained bufs).leftover buf with ⟨-, hlong⟩ | ⟨hkept, -⟩
      · rw [remaining] at hlong
        omega
      · rw [hkept]
        exact hrest

end Reads

theorem drainFrom_eq (d : Drained) (reads : List Read) :
    d.slices ++ drainFrom d.leftover reads =
      ((chunks reads).foldl Drained.read d).slices ++
        drainEnd ((chunks reads).foldl Drained.read d).leftover := by
  induction reads generalizing d with
  | nil => rfl
  | cons read reads ih =>
    cases read with
    | err => rfl
    | ok bytes =>
      cases bytes with
      | nil => rfl
      | cons b buf =>
        rw [chunks, List.foldl_cons, ← ih (d.read (b :: buf)), drainFrom, Drained.read,
          List.append_assoc]

theorem drainFrom_drained (reads : List Read) : drainFrom [] reads =
    (drained (chunks reads)).slices ++ drainEnd (drained (chunks reads)).leftover :=
  drainFrom_eq ⟨[], []⟩ reads

theorem bytes_drainEnd (leftover : List UInt8) :
    (drainEnd leftover).flatMap Slice.bytes = leftover := by
  cases leftover with
  | nil => rfl
  | cons b leftover => exact List.flatMap_singleton _ _

/-- The precondition of `from_utf8_unchecked` always holds, no byte is lost or used
twice however the stream is cut, and a stream that is text is shown as it is. -/
theorem drain_slices (reads : List Read) :
    (∀ bufs, bufs <+: chunks reads →
      (drained bufs).leftover.length ≤ 3 ∧
      (∀ bytes, .text bytes ∈ (drained bufs).slices → IsUtf8 bytes = true) ∧
      (drained bufs).slices.flatMap Slice.bytes ++ (drained bufs).leftover = bufs.flatten) ∧
    (∀ bytes, .text bytes ∈ drainFrom [] reads → IsUtf8 bytes = true) ∧
    (drainFrom [] reads).flatMap Slice.bytes = (chunks reads).flatten ∧
    (IsUtf8 (chunks reads).flatten = true → ∀ bytes, .lossy bytes ∉ drainFrom [] reads) := by
  have hsound := drained_sound (chunks reads)
  rw [drainFrom_drained]
  refine ⟨fun bufs _ => ?_, fun bytes hmem => ?_, ?_, fun htext bytes hmem => ?_⟩
  · have hbufs := drained_sound bufs
    exact ⟨hbufs.leftover, hbufs.text, hbufs.all⟩
  · rcases List.mem_append.mp hmem with hmem | hmem
    · exact hsound.text bytes hmem
    · generalize (drained (chunks reads)).leftover = leftover at hmem
      cases leftover with
      | nil => cases hmem
      | cons b leftover => cases List.mem_singleton.mp hmem
  · rw [List.flatMap_append, bytes_drainEnd]
    exact hsound.all
  · have hwhole : IsUtf8 ((chunks reads).flatten ++ []) = true := by
      rw [List.append_nil]
      exact htext
    obtain ⟨hnone, hrest⟩ := drained_text (chunks reads) [] hwhole
    rw [List.append_nil] at hrest
    obtain ⟨cs, hcs⟩ := Option.isSome_iff_exists.mp hrest
    -- what is kept begins with nothing valid, so as a text it is empty
    have hnil : (drained (chunks reads)).leftover = [] := by
      have hlen := validUpTo_of_text hcs
      rw [← validLen_eq, hsound.begun] at hlen
      exact List.eq_nil_of_length_eq_zero hlen.symm
    rw [hnil] at hmem
    rcases List.mem_append.mp hmem with hmem | hmem
    · exact hnone bytes hmem
    · cases hmem

end Ccgonext.TerminalOutput
