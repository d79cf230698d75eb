import Mathlib.Data.List.Basic

/-!
# UTF-8, one byte at a time

A machine reads bytes and stands between characters or inside one, where it
knows which bytes may come next. `lossy` decodes every byte sequence: each
maximal beginning of a character that is not continued, and each byte that
begins none, becomes one replacement character. `decode` accepts exactly the
sequences in which there is nothing to replace.
-/

namespace Ccgonext.Lib.Utf8

inductive Range
  | any
  | fromA0
  | upTo9F
  | from90
  | upTo8F
  deriving DecidableEq, Repr

def Range.low : Range → ℕ
  | .any | .upTo9F | .upTo8F => 0x80
  | .fromA0 => 0xA0
  | .from90 => 0x90

def Range.high : Range → ℕ
  | .any | .fromA0 | .from90 => 0xBF
  | .upTo9F => 0x9F
  | .upTo8F => 0x8F

/-- Inside a character: its number as far as it is read, what the next byte may
be and how many bytes follow that one. -/
inductive State
  | start
  | inside (code : ℕ) (range : Range) (more : ℕ)
  deriving DecidableEq, Repr

inductive Outcome
  | char (c : Char)
  | more (q : State)
  | bad
  deriving DecidableEq, Repr

def lead (b : UInt8) : Outcome :=
  let n := b.toNat
  if n < 0x80 then .char (Char.ofNat n)
  else if n < 0xC2 then .bad
  else if n < 0xE0 then .more (.inside (n - 0xC0) .any 0)
  else if n = 0xE0 then .more (.inside 0 .fromA0 1)
  else if n = 0xED then .more (.inside 0xD .upTo9F 1)
  else if n < 0xF0 then .more (.inside (n - 0xE0) .any 1)
  else if n = 0xF0 then .more (.inside 0 .from90 2)
  else if n < 0xF4 then .more (.inside (n - 0xF0) .any 2)
  else if n = 0xF4 then .more (.inside 4 .upTo8F 2)
  else .bad

def feed : State → UInt8 → Outcome
  | .start, b => lead b
  | .inside code range more, b =>
    let n := b.toNat
    if range.low ≤ n ∧ n ≤ range.high then
      match more with
      | 0 => .char (Char.ofNat (code * 64 + (n - 0x80)))
      | more + 1 => .more (.inside (code * 64 + (n - 0x80)) .any more)
    else .bad

def decodeFrom : State → List UInt8 → Option (List Char)
  | .start, [] => some []
  | .inside .., [] => none
  | q, b :: bs =>
    match feed q b with
    | .char c => (decodeFrom .start bs).map (c :: ·)
    | .more q' => decodeFrom q' bs
    | .bad => none

def decode (bs : List UInt8) : Option (List Char) := decodeFrom .start bs

def IsUtf8 (bs : List UInt8) : Bool := (decode bs).isSome

def validUpToFrom : State → ℕ → List UInt8 → ℕ
  | _, _, [] => 0
  | q, pending, b :: bs =>
    match feed q b with
    | .char _ => pending + 1 + validUpToFrom .start 0 bs
    | .more q' => validUpToFrom q' (pending + 1) bs
    | .bad => 0

def validUpTo (bs : List UInt8) : ℕ := validUpToFrom .start 0 bs

def replacement : Char := Char.ofNat 0xFFFD

def flush : State → List Char
  | .start => []
  | .inside .. => [replacement]

def first (b : UInt8) : List Char × State :=
  match lead b with
  | .char c => ([c], .start)
  | .more q => ([], q)
  | .bad => ([replacement], .start)

/-- A byte that does not continue a character ends it and is read anew. -/
def next : State → UInt8 → List Char × State
  | .start, b => first b
  | .inside code range more, b =>
    match feed (.inside code range more) b with
    | .char c => ([c], .start)
    | .more q => ([], q)
    | .bad => (replacement :: (first b).1, (first b).2)

def lossyFrom : State → List UInt8 → List Char
  | q, [] => flush q
  | q, b :: bs => (next q b).1 ++ lossyFrom (next q b).2 bs

def lossy (bs : List UInt8) : List Char := lossyFrom .start bs

def stateFrom : State → List UInt8 → State
  | q, [] => q
  | q, b :: bs => stateFrom (next q b).2 bs

def Continues : State → List UInt8 → Prop
  | .inside _ range _, b :: _ => range.low ≤ b.toNat ∧ b.toNat ≤ range.high
  | _, _ => False

instance (q : State) (bs : List UInt8) : Decidable (Continues q bs) := by
  unfold Continues
  split <;> infer_instance

def encode (cs : List Char) : List UInt8 := cs.flatMap String.utf8EncodeChar

example : lossy [0xFF, 0x61, 0xE4, 0xBD, 0xA0, 0xF0, 0x9F, 0x98] =
    [replacement, 'a', '你', replacement] := by decide

theorem lossyFrom_append (q : State) (a b : List UInt8) :
    ∃ out, lossyFrom q a = out ++ flush (stateFrom q a) ∧
      lossyFrom q (a ++ b) = out ++ lossyFrom (stateFrom q a) b := by
  induction a generalizing q with
  | nil => exact ⟨[], rfl, rfl⟩
  | cons x a ih =>
    obtain ⟨out, hend, happend⟩ := ih (next q x).2
    refine ⟨(next q x).1 ++ out, ?_, ?_⟩
    · simp only [lossyFrom, stateFrom, hend, List.append_assoc]
    · simp only [List.cons_append, lossyFrom, stateFrom, happend, List.append_assoc]

theorem Range.bounds (range : Range) : 0x80 ≤ range.low ∧ range.high ≤ 0xBF := by
  cases range <;> decide

theorem next_of_char {q : State} {b : UInt8} {c : Char} (h : feed q b = .char c) :
    next q b = ([c], .start) := by
  cases q with
  | start =>
    rw [feed] at h
    simp only [next, first, h]
  | inside code range more => simp only [next, h]

theorem next_of_more {q q' : State} {b : UInt8} (h : feed q b = .more q') :
    next q b = ([], q') := by
  cases q with
  | start =>
    rw [feed] at h
    simp only [next, first, h]
  | inside code range more => simp only [next, h]

theorem lead_of_continues {range : Range} {b : UInt8}
    (h : range.low ≤ b.toNat ∧ b.toNat ≤ range.high) : lead b = .bad := by
  have hbounds := range.bounds
  unfold lead
  rw [if_neg (by omega), if_pos (by omega)]

theorem flush_append (q : State) (bs : List UInt8) (h : ¬ Continues q bs) :
    flush q ++ lossyFrom .start bs = lossyFrom q bs := by
  cases q with
  | start => rfl
  | inside code range more =>
    cases bs with
    | nil => rfl
    | cons b bs =>
      have hbad : feed (.inside code range more) b = .bad := by
        simp only [feed]
        exact if_neg h
      simp only [lossyFrom, next, hbad, flush, List.cons_append, List.nil_append]

theorem next_of_continues (code more : ℕ) {range : Range} {b : UInt8}
    (h : range.low ≤ b.toNat ∧ b.toNat ≤ range.high) :
    (∃ c, next (.inside code range more) b = ([c], .start)) ∨
      ∃ code' range' more',
        next (.inside code range more) b = ([], .inside code' range' more') := by
  cases more with
  | zero =>
    left
    exact ⟨_, next_of_char (if_pos h)⟩
  | succ more =>
    right
    exact ⟨_, _, _, next_of_more (if_pos h)⟩

theorem lossyFrom_le (q : State) (bs : List UInt8) :
    (lossyFrom q bs).length ≤ (flush q ++ lossyFrom .start bs).length ∧
      (Continues q bs → (lossyFrom q bs).length < (flush q ++ lossyFrom .start bs).length) := by
  induction bs generalizing q with
  | nil =>
    have hnone : ¬ Continues q [] := by
      cases q <;> exact id
    rw [flush_append q [] hnone]
    exact ⟨Nat.le_refl _, fun h => absurd h hnone⟩
  | cons b bs ih =>
    by_cases hcont : Continues q (b :: bs)
    · suffices h : (lossyFrom q (b :: bs)).length <
          (flush q ++ lossyFrom .start (b :: bs)).length from ⟨Nat.le_of_lt h, fun _ => h⟩
      cases q with
      | start => exact hcont.elim
      | inside code range more =>
        have hlead : lead b = .bad := lead_of_continues hcont
        have hstart : lossyFrom .start (b :: bs) = replacement :: lossyFrom .start bs := by
          simp only [lossyFrom, next, first, hlead, List.cons_append, List.nil_append]
        rw [hstart, lossyFrom]
        rcases next_of_continues code more hcont with
          ⟨c, hnext⟩ | ⟨code', range', more', hnext⟩
        · simp [hnext, flush]
        · have hle := (ih (.inside code' range' more')).1
          rw [hnext]
          simp only [flush, List.nil_append, List.cons_append, List.length_cons] at hle ⊢
          omega
    · rw [flush_append q _ hcont]
      exact ⟨Nat.le_refl _, fun h => absurd h hcont⟩

/-- Decoding in two pieces is decoding at once exactly if the second piece does not
go on with a character the first one ends in. -/
theorem lossy_append_iff (a b : List UInt8) :
    lossy (a ++ b) = lossy a ++ lossy b ↔ ¬ Continues (stateFrom .start a) b := by
  obtain ⟨out, hend, happend⟩ := lossyFrom_append .start a b
  simp only [lossy, hend, happend, List.append_assoc, List.append_cancel_left_eq]
  constructor
  · intro heq hcont
    have hlt := (lossyFrom_le (stateFrom .start a) b).2 hcont
    rw [heq] at hlt
    exact Nat.lt_irrefl _ hlt
  · intro hcont
    exact (flush_append _ b hcont).symm

theorem lossy_append_lt {a b : List UInt8} (h : lossy (a ++ b) ≠ lossy a ++ lossy b) :
    (lossy (a ++ b)).length < (lossy a ++ lossy b).length := by
  have hcont := not_not.mp (mt (lossy_append_iff a b).mpr h)
  obtain ⟨out, hend, happend⟩ := lossyFrom_append .start a b
  have hlt := (lossyFrom_le (stateFrom .start a) b).2 hcont
  simp only [lossy, hend, happend, List.length_append] at hlt ⊢
  omega

theorem lossy_append_le (a b : List UInt8) :
    (lossy (a ++ b)).length ≤ (lossy a ++ lossy b).length := by
  by_cases h : lossy (a ++ b) = lossy a ++ lossy b
  · exact Nat.le_of_eq (congrArg List.length h)
  · exact Nat.le_of_lt (lossy_append_lt h)

theorem lossyFrom_of_decodeFrom {q : State} {bs : List UInt8} {cs : List Char}
    (h : decodeFrom q bs = some cs) (more : List UInt8) :
    lossyFrom q (bs ++ more) = cs ++ lossy more := by
  induction bs generalizing q cs with
  | nil =>
    cases q with
    | start =>
      simp only [decodeFrom, Option.some.injEq] at h
      subst h
      rfl
    | inside code range more => simp [decodeFrom] at h
  | cons b bs ih =>
    simp only [decodeFrom] at h
    simp only [List.cons_append, lossyFrom]
    cases hfeed : feed q b with
    | char c =>
      simp only [hfeed, Option.map_eq_some_iff] at h
      obtain ⟨ds, hds, rfl⟩ := h
      simp only [next_of_char hfeed, List.cons_append, List.nil_append, ih hds]
    | more q' =>
      simp only [hfeed] at h
      simp only [next_of_more hfeed, List.nil_append, ih h]
    | bad => simp [hfeed] at h

theorem lossy_of_decode {bs : List UInt8} {cs : List Char} (h : decode bs = some cs)
    (more : List UInt8) : lossy (bs ++ more) = cs ++ lossy more :=
  lossyFrom_of_decodeFrom h more

theorem decodeFrom_validUpTo (q : State) (pending : ℕ) (bs : List UInt8) :
    validUpToFrom q pending bs = 0 ∨ pending < validUpToFrom q pending bs ∧
      ∃ cs, decodeFrom q (bs.take (validUpToFrom q pending bs - pending)) = some cs := by
  induction bs generalizing q pending with
  | nil => exact .inl rfl
  | cons b bs ih =>
    cases hfeed : feed q b with
    | char c =>
      right
      have htake : validUpToFrom q pending (b :: bs) - pending =
          validUpToFrom .start 0 bs + 1 := by
        simp only [validUpToFrom, hfeed]
        omega
      refine ⟨by simp only [validUpToFrom, hfeed]; omega, ?_⟩
      rw [htake, List.take_succ_cons]
      rcases ih .start 0 with hzero | ⟨-, cs, hcs⟩
      · exact ⟨[c], by simp [decodeFrom, hfeed, hzero]⟩
      · exact ⟨c :: cs, by simpa [decodeFrom, hfeed] using hcs⟩
    | more q' =>
      rcases ih q' (pending + 1) with hzero | ⟨hlt, cs, hcs⟩
      · exact .inl (by simp only [validUpToFrom, hfeed, hzero])
      · right
        have htake : validUpToFrom q pending (b :: bs) - pending =
            validUpToFrom q' (pending + 1) bs - (pending + 1) + 1 := by
          simp only [validUpToFrom, hfeed]
          omega
        refine ⟨by simp only [validUpToFrom, hfeed]; omega, cs, ?_⟩
        rw [htake, List.take_succ_cons]
        simpa [decodeFrom, hfeed] using hcs
    | bad => exact .inl (by simp only [validUpToFrom, hfeed])

theorem decode_take_validUpTo (bs : List UInt8) :
    ∃ cs, decode (bs.take (validUpTo bs)) = some cs := by
  rcases decodeFrom_validUpTo .start 0 bs with hzero | ⟨-, hcs⟩
  · exact ⟨[], by rw [validUpTo, hzero]; rfl⟩
  · exact hcs

theorem ofNat_char (c : Char) {n : ℕ} (h : n = c.val.toNat) : Char.ofNat n = c := by
  subst h
  exact Char.ofNat_toNat c

theorem decodeFrom_char {q : State} {b : UInt8} {c : Char} (h : feed q b = .char c)
    (bs : List UInt8) : decodeFrom q (b :: bs) = (decodeFrom .start bs).map (c :: ·) := by
  simp only [decodeFrom, h]

theorem decodeFrom_more {q q' : State} {b : UInt8} (h : feed q b = .more q')
    (bs : List UInt8) : decodeFrom q (b :: bs) = decodeFrom q' bs := by
  simp only [decodeFrom, h]

theorem feed_last {code n : ℕ} {range : Range} {c : Char} (hn : n < 256)
    (h : range.low ≤ n ∧ n ≤ range.high) (hc : code * 64 + (n - 0x80) = c.val.toNat) :
    feed (.inside code range 0) (UInt8.ofNat n) = .char c := by
  have hb : (UInt8.ofNat n).toNat = n := by
    rw [UInt8.toNat_ofNat']
    omega
  simp only [feed, hb, if_pos h, ofNat_char c hc]

theorem feed_succ {code n more : ℕ} {range : Range} (hn : n < 256)
    (h : range.low ≤ n ∧ n ≤ range.high) :
    feed (.inside code range (more + 1)) (UInt8.ofNat n) =
      .more (.inside (code * 64 + (n - 0x80)) .any more) := by
  have hb : (UInt8.ofNat n).toNat = n := by
    rw [UInt8.toNat_ofNat']
    omega
  simp only [feed, hb, if_pos h]

theorem lead_two {k : ℕ} (hlow : 2 ≤ k) (hhigh : k < 32) :
    feed .start (UInt8.ofNat (k + 0xC0)) = .more (.inside k .any 0) := by
  have hb : (UInt8.ofNat (k + 0xC0)).toNat = k + 0xC0 := by
    rw [UInt8.toNat_ofNat']
    omega
  simp only [feed, lead, hb]
  rw [if_neg (by omega), if_neg (by omega), if_pos (by omega), Nat.add_sub_cancel]

theorem lead_three {k n : ℕ} (hk : k < 16) (hn : 0x80 ≤ n ∧ n ≤ 0xBF)
    (hlong : k = 0 → 0xA0 ≤ n) (hsurrogate : k = 0xD → n ≤ 0x9F) :
    ∃ range : Range, feed .start (UInt8.ofNat (k + 0xE0)) = .more (.inside k range 1) ∧
      range.low ≤ n ∧ n ≤ range.high := by
  have hb : (UInt8.ofNat (k + 0xE0)).toNat = k + 0xE0 := by
    rw [UInt8.toNat_ofNat']
    omega
  simp only [feed, lead, hb]
  rw [if_neg (by omega), if_neg (by omega), if_neg (by omega)]
  by_cases hzero : k = 0
  · subst hzero
    exact ⟨.fromA0, rfl, hlong rfl, hn.2⟩
  by_cases hd : k = 0xD
  · subst hd
    exact ⟨.upTo9F, rfl, hn.1, hsurrogate rfl⟩
  · rw [if_neg (by omega), if_neg (by omega), if_pos (by omega), Nat.add_sub_cancel]
    exact ⟨.any, rfl, hn⟩

theorem lead_four {k n : ℕ} (hk : k < 5) (hn : 0x80 ≤ n ∧ n ≤ 0xBF)
    (hlong : k = 0 → 0x90 ≤ n) (hlast : k = 4 → n ≤ 0x8F) :
    ∃ range : Range, feed .start (UInt8.ofNat (k + 0xF0)) = .more (.inside k range 2) ∧
      range.low ≤ n ∧ n ≤ range.high := by
  have hb : (UInt8.ofNat (k + 0xF0)).toNat = k + 0xF0 := by
    rw [UInt8.toNat_ofNat']
    omega
  simp only [feed, lead, hb]
  rw [if_neg (by omega), if_neg (by omega), if_neg (by omega), if_neg (by omega),
    if_neg (by omega), if_neg (by omega)]
  by_cases hzero : k = 0
  · subst hzero
    exact ⟨.from90, rfl, hlong rfl, hn.2⟩
  by_cases hfour : k = 4
  · subst hfour
    exact ⟨.upTo8F, rfl, hn.1, hlast rfl⟩
  · rw [if_neg (by omega), if_pos (by omega), Nat.add_sub_cancel]
    exact ⟨.any, rfl, hn⟩

theorem decodeFrom_encodeChar (c : Char) (bs : List UInt8) :
    decodeFrom .start (String.utf8EncodeChar c ++ bs) = (decodeFrom .start bs).map (c :: ·) := by
  have hvalid : c.val.toNat < 0xD800 ∨ 0xDFFF < c.val.toNat ∧ c.val.toNat < 0x110000 := c.valid
  have hany : ∀ n, Range.any.low ≤ n % 64 + 128 ∧ n % 64 + 128 ≤ Range.any.high := by
    intro n
    simp only [Range.low, Range.high]
    omega
  unfold String.utf8EncodeChar
  generalize hv : c.val.toNat = v at hvalid
  dsimp only
  split
  · next h1 =>
    refine decodeFrom_char ?_ bs
    have hb : (UInt8.ofNat v).toNat = v := by
      rw [UInt8.toNat_ofNat']
      omega
    simp only [feed, lead, hb, if_pos (show v < 0x80 by omega), ofNat_char c hv.symm]
  split
  · next h1 h2 =>
    have hk : v / 64 % 32 = v / 64 := by omega
    rw [hk]
    simp only [List.cons_append, List.nil_append]
    rw [decodeFrom_more (lead_two (by omega) (by omega)),
      decodeFrom_char (feed_last (c := c) (by omega) (hany v) (by omega))]
  split
  · next h1 h2 h3 =>
    have hk : v / 4096 % 16 = v / 4096 := by omega
    obtain ⟨range, hlead, hrange⟩ := lead_three (k := v / 4096) (n := v / 64 % 64 + 128)
      (by omega) (by omega) (by omega) (by omega)
    rw [hk]
    simp only [List.cons_append, List.nil_append]
    rw [decodeFrom_more hlead,
      decodeFrom_more (feed_succ (by omega) hrange),
      decodeFrom_char (feed_last (c := c) (by omega) (hany v) (by omega))]
  · next h1 h2 h3 =>
    have hk : v / 262144 % 8 = v / 262144 := by omega
    obtain ⟨range, hlead, hrange⟩ := lead_four (k := v / 262144) (n := v / 4096 % 64 + 128)
      (by omega) (by omega) (by omega) (by omega)
    rw [hk]
    simp only [List.cons_append, List.nil_append]
    rw [decodeFrom_more hlead,
      decodeFrom_more (feed_succ (by omega) hrange),
      decodeFrom_more (feed_succ (by omega) (hany (v / 64))),
      decodeFrom_char (feed_last (c := c) (by omega) (hany v) (by omega))]

theorem decode_encode_append (cs : List Char) (bs : List UInt8) :
    decodeFrom .start (encode cs ++ bs) = (decodeFrom .start bs).map (cs ++ ·) := by
  induction cs with
  | nil => simp [encode]
  | cons c cs ih =>
    have hcons : encode (c :: cs) = String.utf8EncodeChar c ++ encode cs := rfl
    rw [hcons, List.append_assoc, decodeFrom_encodeChar, ih, Option.map_map]
    rfl

theorem decode_encode (cs : List Char) : decode (encode cs) = some cs := by
  have h := decode_encode_append cs []
  rw [List.append_nil] at h
  rw [decode, h]
  simp [decodeFrom]

theorem eq_newline_of_mem {c : Char} (h : 0x0A ∈ String.utf8EncodeChar c) : c = '\n' := by
  unfold String.utf8EncodeChar at h
  generalize hv : c.val.toNat = v at h
  have hbyte : ∀ n, n < 256 → (0x0A : UInt8) = UInt8.ofNat n → n = 10 := by
    intro n hn hb
    have hnat := congrArg UInt8.toNat hb
    rw [UInt8.toNat_ofNat'] at hnat
    have hten : (0x0A : UInt8).toNat = 10 := rfl
    omega
  dsimp only at h
  split at h
  · have h10 := hbyte v (by omega) (List.mem_singleton.mp h)
    rw [← ofNat_char c hv.symm, h10]
  split at h
  · simp only [List.mem_cons, List.not_mem_nil, or_false] at h
    rcases h with h | h <;>
    · have h10 := hbyte _ (by omega) h
      omega
  split at h
  · simp only [List.mem_cons, List.not_mem_nil, or_false] at h
    rcases h with h | h | h <;>
    · have h10 := hbyte _ (by omega) h
      omega
  · simp only [List.mem_cons, List.not_mem_nil, or_false] at h
    rcases h with h | h | h | h <;>
    · have h10 := hbyte _ (by omega) h
      omega

theorem newline_not_mem_encode {cs : List Char} (h : '\n' ∉ cs) : 0x0A ∉ encode cs := by
  intro hmem
  obtain ⟨c, hc, hb⟩ := List.mem_flatMap.mp hmem
  exact h (eq_newline_of_mem hb ▸ hc)

theorem decodeFrom_newline (q : State) (bs : List UInt8) :
    decodeFrom q (bs ++ [0x0A]) = (decodeFrom q bs).map (· ++ ['\n']) := by
  induction bs generalizing q with
  | nil =>
    cases q with
    | start => rfl
    | inside code range more =>
      have hbad : feed (.inside code range more) 0x0A = .bad := by
        have hlow := range.bounds.1
        have hten : (0x0A : UInt8).toNat = 10 := rfl
        exact if_neg (by omega)
      simp [decodeFrom, hbad]
  | cons b bs ih =>
    rw [List.cons_append, decodeFrom, decodeFrom]
    cases feed q b with
    | char c =>
      simp only [ih, Option.map_map]
      rfl
    | more q' => exact ih q'
    | bad => rfl

theorem decode_newline (bs : List UInt8) :
    decode (bs ++ [0x0A]) = (decode bs).map (· ++ ['\n']) :=
  decodeFrom_newline .start bs

theorem decodeFrom_append {q : State} {a : List UInt8} {cs : List Char}
    (h : decodeFrom q a = some cs) (b : List UInt8) :
    decodeFrom q (a ++ b) = (decode b).map (cs ++ ·) := by
  induction a generalizing q cs with
  | nil =>
    cases q with
    | start =>
      cases h
      simp only [List.nil_append, Option.map_id']
      rfl
    | inside code range more => cases h
  | cons x a ih =>
    rw [List.cons_append]
    cases hfeed : feed q x with
    | char c =>
      rw [decodeFrom_char hfeed, Option.map_eq_some_iff] at h
      obtain ⟨ds, hds, rfl⟩ := h
      rw [decodeFrom_char hfeed, ih hds, Option.map_map]
      rfl
    | more q' =>
      rw [decodeFrom_more hfeed] at h ⊢
      exact ih h
    | bad => simp [decodeFrom, hfeed] at h

theorem validUpToFrom_drop (q : State) (pending : ℕ) (bs : List UInt8) :
    validUpToFrom q pending bs = 0 ∨ pending < validUpToFrom q pending bs ∧
      validUpTo (bs.drop (validUpToFrom q pending bs - pending)) = 0 := by
  induction bs generalizing q pending with
  | nil => exact .inl rfl
  | cons b bs ih =>
    rw [validUpToFrom]
    cases feed q b with
    | char c =>
      right
      have hdrop : pending + 1 + validUpToFrom .start 0 bs - pending =
          validUpToFrom .start 0 bs + 1 := by omega
      dsimp only
      rw [hdrop, List.drop_succ_cons]
      refine ⟨by omega, ?_⟩
      rcases ih .start 0 with hzero | ⟨-, hrest⟩
      · rw [hzero]
        exact hzero
      · exact hrest
    | more q' =>
      rcases ih q' (pending + 1) with hzero | ⟨hlt, hrest⟩
      · exact .inl hzero
      · right
        have hdrop : validUpToFrom q' (pending + 1) bs - pending =
            validUpToFrom q' (pending + 1) bs - (pending + 1) + 1 := by omega
        dsimp only
        rw [hdrop, List.drop_succ_cons]
        exact ⟨by omega, hrest⟩
    | bad => exact .inl rfl

theorem validUpTo_drop (bs : List UInt8) : validUpTo (bs.drop (validUpTo bs)) = 0 := by
  rcases validUpToFrom_drop .start 0 bs with hzero | ⟨-, hrest⟩
  · rw [show validUpTo bs = 0 from hzero]
    exact hzero
  · exact hrest

def State.room : State → ℕ
  | .start => 3
  | .inside _ _ more => more

theorem inside_of_more {q q' : State} {b : UInt8} (h : feed q b = .more q') :
    ∃ code range more, q' = .inside code range more ∧ more < q.room := by
  cases q with
  | start =>
    simp only [feed, lead] at h
    repeat' split at h
    all_goals
      cases h
      try exact ⟨_, _, _, rfl, Nat.le_of_ble_eq_true rfl⟩
  | inside code range more =>
    simp only [feed] at h
    split at h
    · cases more with
      | zero => cases h
      | succ more =>
        cases h
        exact ⟨_, _, _, rfl, Nat.lt_succ_self more⟩
    · cases h

theorem validUpToFrom_of_text {q : State} {bs : List UInt8} {cs : List Char} (pending : ℕ)
    (hne : bs ≠ []) (h : decodeFrom q bs = some cs) :
    validUpToFrom q pending bs = pending + bs.length := by
  induction bs generalizing q cs pending with
  | nil => exact absurd rfl hne
  | cons b bs ih =>
    rw [validUpToFrom, List.length_cons]
    cases hfeed : feed q b with
    | char c =>
      rw [decodeFrom_char hfeed, Option.map_eq_some_iff] at h
      obtain ⟨ds, hds, rfl⟩ := h
      cases bs with
      | nil => rfl
      | cons b' bs =>
        dsimp only
        rw [ih 0 (List.cons_ne_nil b' bs) hds]
        omega
    | more q' =>
      rw [decodeFrom_more hfeed] at h
      obtain ⟨code, range, more, rfl, -⟩ := inside_of_more hfeed
      cases bs with
      | nil => cases h
      | cons b' bs =>
        dsimp only
        rw [ih (pending + 1) (List.cons_ne_nil b' bs) h]
        omega
    | bad => simp [decodeFrom, hfeed] at h

theorem validUpTo_of_text {bs : List UInt8} {cs : List Char} (h : decode bs = some cs) :
    validUpTo bs = bs.length := by
  cases bs with
  | nil => rfl
  | cons b bs =>
    rw [validUpTo, validUpToFrom_of_text 0 (List.cons_ne_nil b bs) h, Nat.zero_add]

theorem length_le_room {q : State} {pending : ℕ} {bs more : List UInt8} {cs : List Char}
    (hnone : validUpToFrom q pending bs = 0) (h : decodeFrom q (bs ++ more) = some cs) :
    bs.length ≤ q.room := by
  induction bs generalizing q pending with
  | nil => exact Nat.zero_le _
  | cons b bs ih =>
    rw [List.cons_append] at h
    rw [validUpToFrom] at hnone
    cases hfeed : feed q b with
    | char c =>
      rw [hfeed] at hnone
      dsimp only at hnone
      omega
    | more q' =>
      rw [hfeed] at hnone
      rw [decodeFrom_more hfeed] at h
      obtain ⟨code, range, left, rfl, hroom⟩ := inside_of_more hfeed
      have hlen : bs.length ≤ left := ih hnone h
      rw [List.length_cons]
      omega
    | bad => simp [decodeFrom, hfeed] at h

/-- The beginning of a text leaves at most three bytes behind its longest valid
beginning, and those go on as a text does. -/
theorem rest_of_text {bs more : List UInt8} (h : IsUtf8 (bs ++ more) = true) :
    (bs.drop (validUpTo bs)).length ≤ 3 ∧ IsUtf8 (bs.drop (validUpTo bs) ++ more) = true := by
  obtain ⟨cs, hcs⟩ := Option.isSome_iff_exists.mp h
  obtain ⟨ds, hds⟩ := decode_take_validUpTo bs
  have hsplit : decode (bs ++ more) = (decode (bs.drop (validUpTo bs) ++ more)).map (ds ++ ·) := by
    rw [← decodeFrom_append hds, ← List.append_assoc, List.take_append_drop]
    rfl
  rw [hsplit, Option.map_eq_some_iff] at hcs
  obtain ⟨es, hes, -⟩ := hcs
  exact ⟨length_le_room (validUpTo_drop bs) hes, Option.isSome_iff_exists.mpr ⟨es, hes⟩⟩

end Ccgonext.Lib.Utf8
