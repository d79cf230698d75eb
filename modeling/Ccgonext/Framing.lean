import Ccgonext.Stdio
import Mathlib.Data.Bool.AllAny

/-!
# Frames and lines read back

A message framed with a header block is read back by either reader, the first
one as long as its block begins with the length. What the writer puts on stdout,
in either mode, is read back text by text by a server that has to find out the mode.
-/

namespace Ccgonext.Framing
open Lib Lib.Text Lib.Utf8 Lib.Lines JsonRpc Stdio

theorem encode_append (a b : List Char) : encode (a ++ b) = encode a ++ encode b :=
  List.flatMap_append

theorem encode_newline : encode ['\n'] = [0x0A] := by decide

theorem encode_line_ne_nil (line : List Char) (rest : List UInt8) :
    encode (line ++ ['\n']) ++ rest ≠ [] := by
  simp [encode_append, encode_newline]

theorem readLine_line {line : List Char} (h : '\n' ∉ line) (rest : List UInt8) :
    readLine (encode (line ++ ['\n']) ++ rest) = .ok (line ++ ['\n'], rest) := by
  have htake : takeLine 0x0A (encode (line ++ ['\n']) ++ rest) =
      (encode (line ++ ['\n']), rest) := by
    rw [encode_append, encode_newline, List.append_assoc, List.singleton_append,
      takeLine_append (newline_not_mem_encode h)]
  simp only [readLine, htake, decode_encode]

theorem readContent_encode (text : List Char) (rest : List UInt8) :
    readContent (encode text).length (encode text ++ rest) = .ok (text, rest) := by
  have hexact : readExact (encode text).length (encode text ++ rest) =
      .ok (encode text, rest) := by
    have hlen : ¬ (encode text ++ rest).length < (encode text).length := by
      rw [List.length_append]
      omega
    rw [readExact, if_neg hlen, List.take_left, List.drop_left]
  simp only [readContent, hexact, fromUtf8, decode_encode, bind, Except.bind, pure, Except.pure]

theorem readLine_length {bytes : List UInt8} {line : List Char} {rest : List UInt8}
    (h : readLine bytes = .ok (line, rest)) :
    rest.length ≤ bytes.length ∧ (bytes ≠ [] → rest.length < bytes.length) := by
  unfold readLine at h
  split at h
  · cases h
    exact ⟨takeLine_length bytes, takeLine_lt⟩
  · cases h

theorem eq_colon_of_toLower {c : Char} (hc : c.toLower = ':') : c = ':' := by
  unfold Char.toLower at hc
  split at hc
  · next hupper =>
    have hval := congrArg (fun d => d.val.toNat) hc
    have hlow : (65 : ℕ) ≤ c.val.toNat := UInt32.le_iff_toNat_le.mp hupper.1
    have hhigh : c.val.toNat ≤ 90 := UInt32.le_iff_toNat_le.mp hupper.2
    simp only [UInt32.toNat_add] at hval
    have hshift : ('a'.val - 'A'.val).toNat = 32 := by decide
    have hcolon : ':'.val.toNat = 58 := by decide
    omega
  · exact hc

structure Header where
  name : List Char
  value : List Char
  named : name ≠ []
  token : ∀ c ∈ name, ¬ isWhitespace c ∧ c ≠ ':'
  oneLine : '\n' ∉ name ∧ '\n' ∉ value

namespace Header

def line (h : Header) : List Char := h.name ++ ':' :: h.value ++ ['\r']

def IsLength (h : Header) : Prop := h.name.map Char.toLower = contentLengthName

instance (h : Header) : Decidable h.IsLength := inferInstanceAs (Decidable (_ = _))

end Header

theorem append_singleton_isPrefix {x : Char} {a b t : List Char} (ha : x ∉ a) (hb : x ∉ b) :
    a ++ [x] <+: b ++ x :: t ↔ a = b := by
  induction a generalizing b with
  | nil =>
    cases b with
    | nil => simp
    | cons d b =>
      have hd : x ≠ d := fun h => hb (h ▸ List.mem_cons_self)
      simp [List.cons_prefix_cons, hd]
  | cons c a ih =>
    cases b with
    | nil =>
      have hc : c ≠ x := fun h => ha (h ▸ List.mem_cons_self)
      simp [List.cons_prefix_cons, hc]
    | cons d b =>
      simp only [List.cons_append, List.cons_prefix_cons, List.cons.injEq]
      rw [ih (fun h => ha (List.mem_cons_of_mem c h)) (fun h => hb (List.mem_cons_of_mem d h))]

namespace Header

theorem newline_not_mem_line (h : Header) : '\n' ∉ h.line := by
  simp [line, h.oneLine]

theorem trim_line (h : Header) :
    trim (h.line ++ ['\n']) = h.name ++ ':' :: h.value.rdropWhile isWhitespace := by
  have hpad : ∀ c ∈ ['\r', '\n'], isWhitespace c := List.all_eq_true.mp (by decide)
  have hsplit : h.line ++ ['\n'] = h.name ++ ':' :: h.value ++ ['\r', '\n'] := by simp [line]
  rw [hsplit, trim_append_whitespace hpad]
  obtain ⟨c, name, hname⟩ := List.exists_cons_of_ne_nil h.named
  have hc := (h.token c (by rw [hname]; exact List.mem_cons_self)).1
  rw [trim, hname, List.cons_append, List.dropWhile_cons_of_neg hc, ← List.cons_append,
    rdropWhile_append_cons (by decide)]

theorem trim_line_ne_nil (h : Header) : trim (h.line ++ ['\n']) ≠ [] := by
  rw [trim_line]
  simp

theorem isContentLength_line (h : Header) :
    isContentLength (trim (h.line ++ ['\n'])) = true ↔ h.IsLength := by
  have hname : ':' ∉ h.name.map Char.toLower := by
    intro hmem
    obtain ⟨c, hc, heq⟩ := List.mem_map.mp hmem
    exact (h.token c hc).2 (eq_colon_of_toLower heq)
  rw [trim_line, isContentLength, List.isPrefixOf_iff_prefix, List.map_append, List.map_cons]
  have hcolon : Char.toLower ':' = ':' := by decide
  rw [hcolon, append_singleton_isPrefix (by decide) hname]
  exact eq_comm

end Header

/-- The value is the number in decimal digits, with white space around it. -/
def Denotes (value : List Char) (n : ℕ) : Prop :=
  ∃ before digits after, value = before ++ digits ++ after ∧
    (∀ c ∈ before, isWhitespace c) ∧ (∀ c ∈ after, isWhitespace c) ∧
    digits ≠ [] ∧ (∀ c ∈ digits, c.isDigit) ∧ Nat.ofDigitChars 10 digits 0 = n

theorem trim_rdropWhile (text : List Char) :
    trim (text.rdropWhile isWhitespace) = trim text := by
  have hsplit : text = text.rdropWhile isWhitespace ++ text.rtakeWhile isWhitespace := by
    have h := List.takeWhile_append_dropWhile (p := isWhitespace) (l := text.reverse)
    have hrev := congrArg List.reverse h
    rw [List.reverse_append, List.reverse_reverse] at hrev
    exact hrev.symm
  have hpad : ∀ c ∈ text.rtakeWhile isWhitespace, isWhitespace c :=
    fun c hc => List.mem_rtakeWhile_imp hc
  exact ((congrArg trim hsplit).trans (trim_append_whitespace hpad _)).symm

theorem parse_of_denotes {value : List Char} {n : ℕ} (h : Denotes value n)
    (hn : n ≤ maxContentLength) : parseUsize (trim value) = some n := by
  obtain ⟨before, digits, after, rfl, hbefore, hafter, hne, hdigits, rfl⟩ := h
  rw [trim_append_whitespace hafter, trim_whitespace_append hbefore,
    trim_eq_self fun c hc => isWhitespace_digit (hdigits c hc)]
  refine parseUnsigned_digits hne hdigits (Nat.lt_of_le_of_lt hn ?_)
  decide

theorem Header.parse_line {h : Header} {n : ℕ} (hvalue : Denotes h.value n)
    (hn : n ≤ maxContentLength) : parseContentLength (trim (h.line ++ ['\n'])) = .ok n := by
  have hcolon : afterColon (h.name ++ ':' :: h.value.rdropWhile isWhitespace) =
      some (h.value.rdropWhile isWhitespace) := by
    have hdrop : (h.name ++ ':' :: h.value.rdropWhile isWhitespace).dropWhile (· ≠ ':') =
        ':' :: h.value.rdropWhile isWhitespace := by
      rw [List.dropWhile_append_of_pos fun c hc => by simpa using (h.token c hc).2]
      exact List.dropWhile_cons_of_neg (by simp)
    rw [afterColon, hdrop]
  rw [Header.trim_line, parseContentLength, hcolon]
  simp only [trim_rdropWhile, parse_of_denotes hvalue hn, if_neg (Nat.not_lt.mpr hn)]

def headerBytes (headers : List Header) : List UInt8 :=
  headers.flatMap fun h => encode (h.line ++ ['\n'])

def emptyLine : List UInt8 := encode ['\r', '\n']

/-- A message with its header block: other headers before and after the length. -/
structure LspMessage where
  before : List Header
  length : Header
  after : List Header
  content : List Char
  isLength : length.IsLength
  onlyLength : ∀ h ∈ before ++ after, ¬ h.IsLength
  value : Denotes length.value (encode content).length
  small : (encode content).length ≤ maxContentLength

def LspMessage.bytes (m : LspMessage) : List UInt8 :=
  headerBytes (m.before ++ m.length :: m.after) ++ emptyLine ++ encode m.content

theorem readLine_header (h : Header) (rest : List UInt8) :
    readLine (encode (h.line ++ ['\n']) ++ rest) = .ok (h.line ++ ['\n'], rest) :=
  readLine_line h.newline_not_mem_line rest

theorem readLine_emptyLine (rest : List UInt8) :
    readLine (emptyLine ++ rest) = .ok (['\r', '\n'], rest) :=
  @readLine_line ['\r'] (by decide) rest

theorem headerBytes_cons (h : Header) (headers : List Header) (rest : List UInt8) :
    headerBytes (h :: headers) ++ rest =
      encode (h.line ++ ['\n']) ++ (headerBytes headers ++ rest) := by
  simp [headerBytes]

/-- A bound on the bytes that are left pays for a line. -/
theorem exists_bound {n : ℕ} {line : List Char} {rest : List UInt8}
    (h : (encode (line ++ ['\n']) ++ rest).length ≤ n) : ∃ k, n = k + 1 ∧ rest.length ≤ k := by
  have hpos := List.length_pos_of_ne_nil (encode_line_ne_nil line [])
  simp only [List.length_append, List.append_nil] at h hpos
  exact ⟨n - 1, by omega, by omega⟩

theorem trim_emptyLine : trim ['\r', '\n'] = [] := by decide

theorem skipHeaders_headers (headers : List Header) (rest : List UInt8) (n : ℕ)
    (hn : (headerBytes headers ++ (emptyLine ++ rest)).length ≤ n) :
    skipHeaders n (headerBytes headers ++ (emptyLine ++ rest)) = .ok rest := by
  induction headers generalizing n with
  | nil =>
    obtain ⟨k, rfl, -⟩ := @exists_bound n ['\r'] rest hn
    simp only [headerBytes, List.flatMap_nil, List.nil_append, skipHeaders, readLine_emptyLine,
      bind, Except.bind, trim_emptyLine, if_true, pure, Except.pure]
  | cons h headers ih =>
    rw [headerBytes_cons] at hn ⊢
    obtain ⟨k, rfl, hk⟩ := exists_bound hn
    simp only [skipHeaders, readLine_header, bind, Except.bind, if_neg h.trim_line_ne_nil]
    exact ih k hk

theorem readHeaders_succ {h : Header} {acc : Option ℕ} {rest : List UInt8} {n : ℕ} :
    readHeaders (n + 1) acc (encode (h.line ++ ['\n']) ++ rest) =
      if isContentLength (trim (h.line ++ ['\n'])) then
        (parseContentLength (trim (h.line ++ ['\n']))).bind fun length =>
          readHeaders n (some length) rest
      else readHeaders n acc rest := by
  simp only [readHeaders, readLine_header, bind, Except.bind, if_neg h.trim_line_ne_nil,
    if_neg (encode_line_ne_nil h.line rest)]

theorem readHeaders_others (headers : List Header) (hothers : ∀ h ∈ headers, ¬ h.IsLength)
    (acc : Option ℕ) (rest : List UInt8) (n : ℕ)
    (hn : (headerBytes headers ++ (emptyLine ++ rest)).length ≤ n) :
    readHeaders n acc (headerBytes headers ++ (emptyLine ++ rest)) = .ok (some acc, rest) := by
  induction headers generalizing n with
  | nil =>
    obtain ⟨k, rfl, -⟩ := @exists_bound n ['\r'] rest hn
    have hne : emptyLine ++ rest ≠ [] := encode_line_ne_nil ['\r'] rest
    simp only [headerBytes, List.flatMap_nil, List.nil_append, readHeaders, readLine_emptyLine,
      bind, Except.bind, if_neg hne, trim_emptyLine, if_true, pure, Except.pure]
  | cons h headers ih =>
    rw [headerBytes_cons] at hn ⊢
    obtain ⟨k, rfl, hk⟩ := exists_bound hn
    have hother : ¬ isContentLength (trim (h.line ++ ['\n'])) = true :=
      mt h.isContentLength_line.mp (hothers h List.mem_cons_self)
    rw [readHeaders_succ, if_neg hother]
    exact ih (fun d hd => hothers d (List.mem_cons_of_mem h hd)) k hk

theorem readHeaders_message (before after : List Header) (length : Header) {size : ℕ}
    (hlength : length.IsLength) (hvalue : Denotes length.value size)
    (hsize : size ≤ maxContentLength) (hothers : ∀ h ∈ before ++ after, ¬ h.IsLength)
    (rest : List UInt8) (acc : Option ℕ) (n : ℕ)
    (hn : (headerBytes (before ++ length :: after) ++ (emptyLine ++ rest)).length ≤ n) :
    readHeaders n acc (headerBytes (before ++ length :: after) ++ (emptyLine ++ rest)) =
      .ok (some (some size), rest) := by
  induction before generalizing n with
  | nil =>
    rw [List.nil_append, headerBytes_cons] at hn ⊢
    obtain ⟨k, rfl, hk⟩ := exists_bound hn
    rw [readHeaders_succ, if_pos (length.isContentLength_line.mpr hlength),
      Header.parse_line hvalue hsize, Except.bind]
    exact readHeaders_others after (fun h hh => hothers h (by simpa using hh)) (some size) rest k hk
  | cons h before ih =>
    rw [List.cons_append, headerBytes_cons] at hn ⊢
    obtain ⟨k, rfl, hk⟩ := exists_bound hn
    have hother : ¬ isContentLength (trim (h.line ++ ['\n'])) = true :=
      mt h.isContentLength_line.mp (hothers h (by simp))
    rw [readHeaders_succ, if_neg hother]
    exact ih (fun d hd => hothers d (List.mem_cons_of_mem h hd)) k hk

theorem readLspMessage_bytes (m : LspMessage) (rest : List UInt8) :
    readLspMessage (m.bytes ++ rest) = .ok (some m.content, rest) := by
  have hheaders := readHeaders_message m.before m.after m.length m.isLength m.value m.small
    m.onlyLength (encode m.content ++ rest) none (m.bytes ++ rest).length
    (by simp [LspMessage.bytes])
  have hbytes : m.bytes ++ rest = headerBytes (m.before ++ m.length :: m.after) ++
      (emptyLine ++ (encode m.content ++ rest)) := by
    simp [LspMessage.bytes]
  rw [readLspMessage, hbytes]
  rw [hbytes] at hheaders
  simp only [hheaders, bind, Except.bind, readContent_encode, pure, Except.pure]

def ReadByBoth (m : LspMessage) (rest : List UInt8) : Prop :=
  detectAndReadMessage .autoDetect (m.bytes ++ rest) = .ok (some m.content, .lspStyle, rest) ∧
    readLspMessage (m.bytes ++ rest) = .ok (some m.content, rest)

theorem detect_length_first (m : LspMessage) (hfirst : m.before = []) (mode : TransportMode)
    (rest : List UInt8) :
    detectAndReadMessage mode (m.bytes ++ rest) = .ok (some m.content, .lspStyle, rest) := by
  have hbytes : m.bytes ++ rest = encode (m.length.line ++ ['\n']) ++
      (headerBytes m.after ++ (emptyLine ++ (encode m.content ++ rest))) := by
    simp [LspMessage.bytes, hfirst, headerBytes]
  have hskip := skipHeaders_headers m.after (encode m.content ++ rest) _ (Nat.le_refl _)
  rw [hbytes]
  simp only [detectAndReadMessage, readLine_header, bind, Except.bind, pure, Except.pure,
    if_neg (encode_line_ne_nil m.length.line _), m.length.isContentLength_line.mpr m.isLength,
    if_true, Header.parse_line m.value m.small, hskip, readContent_encode]

/-- A first line that is another header is taken for a message of its own. -/
theorem detect_other_first (m : LspMessage) {h : Header} {before : List Header}
    (hbefore : m.before = h :: before) (mode : TransportMode) (rest : List UInt8) :
    ∃ content mode' rest', detectAndReadMessage mode (m.bytes ++ rest) =
      .ok (content, mode', rest') ∧ rest.length < rest'.length := by
  have hbytes : m.bytes ++ rest = encode (h.line ++ ['\n']) ++
      (headerBytes (before ++ m.length :: m.after) ++
        (emptyLine ++ (encode m.content ++ rest))) := by
    simp [LspMessage.bytes, hbefore, headerBytes]
  have hother : ¬ isContentLength (trim (h.line ++ ['\n'])) = true := by
    refine mt h.isContentLength_line.mp (m.onlyLength h ?_)
    rw [hbefore]
    exact List.mem_append_left _ List.mem_cons_self
  rw [hbytes]
  simp only [detectAndReadMessage, readLine_header, bind, Except.bind, pure, Except.pure,
    if_neg (encode_line_ne_nil h.line _), if_neg hother, if_neg h.trim_line_ne_nil]
  have hlonger : rest.length < (headerBytes (before ++ m.length :: m.after) ++
      (emptyLine ++ (encode m.content ++ rest))).length := by
    have hpos : 0 < emptyLine.length := by decide
    simp only [List.length_append]
    omega
  split
  · exact ⟨_, _, _, rfl, hlonger⟩
  · exact ⟨_, _, _, rfl, hlonger⟩

/-- The two readers agree on a message exactly if its length comes first. -/
theorem readByBoth_iff (m : LspMessage) (rest : List UInt8) :
    ReadByBoth m rest ↔ m.before = [] := by
  constructor
  · rintro ⟨hdetect, -⟩
    cases hbefore : m.before with
    | nil => rfl
    | cons h before =>
      obtain ⟨content, mode', rest', hread, hlt⟩ :=
        detect_other_first m hbefore .autoDetect rest
      rw [hread] at hdetect
      simp only [Except.ok.injEq, Prod.mk.injEq] at hdetect
      rw [hdetect.2.2] at hlt
      exact absurd hlt (Nat.lt_irrefl _)
  · intro hfirst
    exact ⟨detect_length_first m hfirst .autoDetect rest, readLspMessage_bytes m rest⟩

theorem contentLength_named : "Content-Length".toList ≠ [] := by decide

theorem contentLength_token : ∀ c ∈ "Content-Length".toList, ¬ isWhitespace c ∧ c ≠ ':' :=
  List.all_iff_forall_prop.mp (by decide)

theorem contentLength_isLength :
    "Content-Length".toList.map Char.toLower = contentLengthName := by decide

def contentType : Header where
  name := "Content-Type".toList
  value := " application/json".toList
  named := by decide
  token := List.all_iff_forall_prop.mp (by decide)
  oneLine := by decide

def twoBytes : Header where
  name := "Content-Length".toList
  value := " 2".toList
  named := contentLength_named
  token := contentLength_token
  oneLine := by decide

def typeFirst : LspMessage where
  before := [contentType]
  length := twoBytes
  after := []
  content := ['{', '}']
  isLength := contentLength_isLength
  onlyLength := by decide
  value := ⟨[' '], ['2'], [], rfl, List.all_eq_true.mp (by decide), nofun, by decide,
    List.all_eq_true.mp (by decide), rfl⟩
  small := by decide

/-- `Content-Type` first: the first reader returns that header as a message. -/
theorem typeFirst_not_readByBoth :
    detectAndReadMessage .autoDetect (typeFirst.bytes ++ []) =
        .ok (some "Content-Type: application/json\r\n".toList, .jsonLines,
          encode "Content-Length: 2\r\n\r\n\x7b\x7d".toList) ∧
      ¬ ReadByBoth typeFirst [] := by
  have hread : detectAndReadMessage .autoDetect (typeFirst.bytes ++ []) =
      .ok (some "Content-Type: application/json\r\n".toList, .jsonLines,
        encode "Content-Length: 2\r\n\r\n\x7b\x7d".toList) := by
    rfl
  refine ⟨hread, ?_⟩
  rintro ⟨hdetect, -⟩
  rw [hread] at hdetect
  simp at hdetect

end Ccgonext.Framing
