import Ccgonext.Framing

/-!
# Reading a stream to its end

The texts that the loop of `run_stdio` comes to do not depend on the answers it
gives to them. A stream of lines or of frames is read text by text from the
first mode on, and so is what the writer puts out.
-/

namespace Ccgonext.Transport
open Lib Lib.Text Lib.Utf8 Lib.Lines JsonRpc Stdio Framing

def readLoop : ℕ → TransportMode → List UInt8 → List (List Char × TransportMode) × Option Stop
  | 0, _, _ => ([], none)
  | n + 1, mode, bytes =>
    match readMessage mode bytes with
    | .ok (none, _, _) => ([], some .eof)
    | .error e => ([], some (.error e))
    | .ok (some content, mode, rest) =>
      if trim content = [] then readLoop n mode rest
      else ((trim content, mode) :: (readLoop n mode rest).1, (readLoop n mode rest).2)

def readFrom (mode : TransportMode) (bytes : List UInt8) :
    List (List Char × TransportMode) × Option Stop :=
  readLoop (bytes.length + 1) mode bytes

section Answers
variable {σ : Type} (h : Handlers σ)

def answers : σ → List (List Char × TransportMode) → List Written
  | _, [] => []
  | s, (content, mode) :: texts =>
    match h.respond s content with
    | (none, s) => answers s texts
    | (some response, s) => ⟨content, response, mode⟩ :: answers s texts

theorem runLoop_eq (n : ℕ) (mode : TransportMode) (s : σ) (bytes : List UInt8) :
    runLoop h n mode s bytes =
      (answers h s (readLoop n mode bytes).1, (readLoop n mode bytes).2) := by
  induction n generalizing mode s bytes with
  | zero => rfl
  | succ n ih =>
    simp only [runLoop, readLoop]
    cases readMessage mode bytes with
    | error e => rfl
    | ok read =>
      obtain ⟨content, mode', rest⟩ := read
      cases content with
      | none => rfl
      | some content =>
        by_cases hempty : trim content = []
        · simp only [if_pos hempty, ih]
        · simp only [if_neg hempty, answers]
          cases h.respond s (trim content) with
          | mk response s' =>
            cases response with
            | none => simp only [ih]
            | some response => simp only [ih]

theorem runFrom_eq (mode : TransportMode) (s : σ) (bytes : List UInt8) :
    runFrom h mode s bytes = (answers h s (readFrom mode bytes).1, (readFrom mode bytes).2) :=
  runLoop_eq h (bytes.length + 1) mode s bytes

end Answers

theorem bind_eq_ok {ε α β : Type} {x : Except ε α} {f : α → Except ε β} {b : β}
    (h : x.bind f = .ok b) : ∃ a, x = .ok a ∧ f a = .ok b := by
  cases x with
  | error e => cases h
  | ok a => exact ⟨a, rfl, h⟩

theorem readContent_length {n : ℕ} {bytes rest : List UInt8} {text : List Char}
    (h : readContent n bytes = .ok (text, rest)) : rest.length ≤ bytes.length := by
  obtain ⟨⟨content, rest'⟩, hexact, h⟩ := bind_eq_ok h
  obtain ⟨text', -, h⟩ := bind_eq_ok h
  cases h
  unfold readExact at hexact
  split at hexact
  · cases hexact
  · cases hexact
    rw [List.length_drop]
    exact Nat.sub_le _ _

theorem skipHeaders_length {n : ℕ} {bytes rest : List UInt8}
    (h : skipHeaders n bytes = .ok rest) : rest.length ≤ bytes.length := by
  induction n generalizing bytes with
  | zero =>
    cases h
    exact Nat.le_refl _
  | succ n ih =>
    obtain ⟨⟨line, rest'⟩, hline, h⟩ := bind_eq_ok h
    have hle := (readLine_length hline).1
    dsimp only at h
    split at h
    · cases h
      exact hle
    · exact (ih h).trans hle

theorem readHeaders_length {n : ℕ} {acc contentLength : Option ℕ} {bytes rest : List UInt8}
    (h : readHeaders n acc bytes = .ok (some contentLength, rest)) :
    rest.length < bytes.length := by
  induction n generalizing acc bytes with
  | zero => cases h
  | succ n ih =>
    obtain ⟨⟨line, rest'⟩, hline, h⟩ := bind_eq_ok h
    dsimp only at h
    split at h
    · cases h
    next hne =>
    have hlt := (readLine_length hline).2 hne
    split at h
    · cases h
      exact hlt
    split at h
    · obtain ⟨length, -, h⟩ := bind_eq_ok h
      exact (ih h).trans hlt
    · exact (ih h).trans hlt

theorem readLspMessage_length {bytes rest : List UInt8} {content : List Char}
    (h : readLspMessage bytes = .ok (some content, rest)) : rest.length < bytes.length := by
  obtain ⟨⟨contentLength, rest'⟩, hheaders, h⟩ := bind_eq_ok h
  cases contentLength with
  | none => cases h
  | some contentLength =>
    have hlt := readHeaders_length hheaders
    cases contentLength with
    | none => cases h
    | some length =>
      obtain ⟨⟨text, rest''⟩, hcontent, h⟩ := bind_eq_ok h
      cases h
      exact (readContent_length hcontent).trans_lt hlt

theorem readJsonlMessage_length {bytes rest : List UInt8} {content : List Char}
    (h : readJsonlMessage bytes = .ok (some content, rest)) : rest.length < bytes.length := by
  obtain ⟨⟨line, rest'⟩, hline, h⟩ := bind_eq_ok h
  dsimp only at h
  split at h
  · cases h
  · next hne =>
    cases h
    exact (readLine_length hline).2 hne

theorem detectAndReadMessage_length {mode mode' : TransportMode} {bytes rest : List UInt8}
    {content : List Char}
    (h : detectAndReadMessage mode bytes = .ok (some content, mode', rest)) :
    rest.length < bytes.length := by
  obtain ⟨⟨line, afterLine⟩, hline, h⟩ := bind_eq_ok h
  dsimp only at h
  split at h
  · cases h
  next hne =>
  have hlt := (readLine_length hline).2 hne
  split at h
  · obtain ⟨length, -, h⟩ := bind_eq_ok h
    obtain ⟨afterHeaders, hskip, h⟩ := bind_eq_ok h
    obtain ⟨⟨text, afterContent⟩, hcontent, h⟩ := bind_eq_ok h
    cases h
    exact ((readContent_length hcontent).trans (skipHeaders_length hskip)).trans_lt hlt
  split at h
  · cases h
    exact hlt
  split at h
  · cases h
    exact hlt
  · cases h
    exact hlt

theorem map_eq_ok {ε α β : Type} {x : Except ε α} {f : α → β} {b : β}
    (h : x.map f = .ok b) : ∃ a, x = .ok a ∧ f a = b := by
  cases x with
  | error e => cases h
  | ok a => exact ⟨a, rfl, Except.ok.inj h⟩

theorem readMessage_length {mode mode' : TransportMode} {bytes rest : List UInt8}
    {content : List Char} (h : readMessage mode bytes = .ok (some content, mode', rest)) :
    rest.length < bytes.length := by
  cases mode with
  | autoDetect => exact detectAndReadMessage_length h
  | jsonLines =>
    obtain ⟨⟨content', rest'⟩, hread, heq⟩ := map_eq_ok h
    cases heq
    exact readJsonlMessage_length hread
  | lspStyle =>
    obtain ⟨⟨content', rest'⟩, hread, heq⟩ := map_eq_ok h
    cases heq
    exact readLspMessage_length hread

theorem readLoop_stable {n m : ℕ} {mode : TransportMode} {bytes : List UInt8}
    (hn : bytes.length < n) (hm : bytes.length < m) :
    readLoop n mode bytes = readLoop m mode bytes := by
  induction n generalizing m mode bytes with
  | zero => exact absurd hn (Nat.not_lt_zero _)
  | succ n ih =>
    obtain ⟨m, rfl⟩ : ∃ k, m = k + 1 := ⟨m - 1, by omega⟩
    simp only [readLoop]
    cases hread : readMessage mode bytes with
    | error e => rfl
    | ok read =>
      obtain ⟨content, mode', rest⟩ := read
      cases content with
      | none => rfl
      | some content =>
        have hlt := readMessage_length hread
        have hrest : readLoop n mode' rest = readLoop m mode' rest := ih (by omega) (by omega)
        simp only [hrest]

theorem readFrom_stops (mode : TransportMode) (bytes : List UInt8) :
    (readFrom mode bytes).2 ≠ none := by
  unfold readFrom
  generalize hn : bytes.length + 1 = n
  have hlt : bytes.length < n := by omega
  clear hn
  induction n generalizing mode bytes with
  | zero => exact absurd hlt (Nat.not_lt_zero _)
  | succ n ih =>
    simp only [readLoop]
    cases hread : readMessage mode bytes with
    | error e => exact Option.some_ne_none _
    | ok read =>
      obtain ⟨content, mode', rest⟩ := read
      cases content with
      | none => exact Option.some_ne_none _
      | some content =>
        have hlen := readMessage_length hread
        dsimp only
        split
        · exact ih mode' rest (by omega)
        · exact ih mode' rest (by omega)

theorem readFrom_message {mode mode' : TransportMode} {bytes rest : List UInt8}
    {content : List Char} (h : readMessage mode bytes = .ok (some content, mode', rest))
    (hne : trim content ≠ []) :
    readFrom mode bytes =
      ((trim content, mode') :: (readFrom mode' rest).1, (readFrom mode' rest).2) := by
  have hlt := readMessage_length h
  have hrest : readLoop bytes.length mode' rest = readFrom mode' rest :=
    readLoop_stable hlt (Nat.lt_succ_self _)
  rw [readFrom, readLoop]
  simp only [h, if_neg hne, hrest]

theorem readFrom_blank {mode mode' : TransportMode} {bytes rest : List UInt8}
    {content : List Char} (h : readMessage mode bytes = .ok (some content, mode', rest))
    (hblank : trim content = []) : readFrom mode bytes = readFrom mode' rest := by
  have hlt := readMessage_length h
  rw [readFrom, readLoop]
  simp only [h, if_pos hblank]
  exact readLoop_stable hlt (Nat.lt_succ_self _)

theorem readFrom_error {mode : TransportMode} {bytes : List UInt8} {e : ReadError}
    (h : readMessage mode bytes = .error e) : readFrom mode bytes = ([], some (.error e)) := by
  rw [readFrom, readLoop]
  simp only [h]

theorem readFrom_nil (mode : TransportMode) : readFrom mode [] = ([], some .eof) := by
  cases mode <;> rfl

structure IsJsonText (text : List Char) : Prop where
  oneLine : '\n' ∉ text
  brace : text.head? = some '{'

theorem IsJsonText.head_trim {text : List Char} (h : IsJsonText text) :
    (trim text).head? = some '{' := by
  obtain ⟨rest, rfl⟩ := List.head?_eq_some_iff.mp h.brace
  rw [trim, List.dropWhile_cons_of_neg (by decide), ← List.nil_append ('{' :: rest),
    rdropWhile_append_cons (by decide)]
  rfl

theorem IsJsonText.trim_ne_nil {text : List Char} (h : IsJsonText text) : trim text ≠ [] := by
  intro hnil
  have hhead := h.head_trim
  rw [hnil] at hhead
  cases hhead

theorem trim_newline (text : List Char) : trim (text ++ ['\n']) = trim text :=
  trim_append_whitespace (List.all_eq_true.mp (by decide)) text

theorem not_isContentLength_of_brace {text : List Char} (h : text.head? = some '{') :
    ¬ isContentLength text = true := by
  obtain ⟨rest, rfl⟩ := List.head?_eq_some_iff.mp h
  rw [isContentLength, List.isPrefixOf_iff_prefix, List.map_cons]
  rintro ⟨t, ht⟩
  have hhead := (List.cons.inj ht).1
  exact absurd hhead (by decide)

theorem readMessage_jsonLine {mode : TransportMode} (hmode : mode ≠ .lspStyle) {text : List Char}
    (h : IsJsonText text) (rest : List UInt8) :
    readMessage mode (encode (text ++ ['\n']) ++ rest) =
      .ok (some (text ++ ['\n']), .jsonLines, rest) := by
  cases mode with
  | lspStyle => exact absurd rfl hmode
  | autoDetect =>
    have hbrace : (trim (text ++ ['\n'])).head? = some '{' := by
      rw [trim_newline]
      exact h.head_trim
    simp only [readMessage, detectAndReadMessage, readLine_line h.oneLine, bind, Except.bind, pure,
      Except.pure, if_neg (encode_line_ne_nil text rest), hbrace, if_true,
      if_neg (not_isContentLength_of_brace hbrace)]
  | jsonLines =>
    simp only [readMessage, readJsonlMessage, readLine_line h.oneLine, bind, Except.bind, pure,
      Except.pure, if_neg (encode_line_ne_nil text rest), Except.map]

def lineBytes (texts : List (List Char)) : List UInt8 :=
  texts.flatMap fun text => encode (text ++ ['\n'])

theorem readFrom_lines {mode : TransportMode} (hmode : mode ≠ .lspStyle)
    {texts : List (List Char)} (htexts : ∀ text ∈ texts, IsJsonText text) :
    readFrom mode (lineBytes texts) =
      (texts.map fun text => (trim text, .jsonLines), some .eof) := by
  induction texts generalizing mode with
  | nil => exact readFrom_nil mode
  | cons text texts ih =>
    have htext := htexts text List.mem_cons_self
    have hread := readMessage_jsonLine hmode htext (lineBytes texts)
    have hbytes : lineBytes (text :: texts) = encode (text ++ ['\n']) ++ lineBytes texts := rfl
    have hne : trim (text ++ ['\n']) ≠ [] := by
      rw [trim_newline]
      exact htext.trim_ne_nil
    rw [hbytes, readFrom_message hread hne, trim_newline,
      ih (by decide) fun t ht => htexts t (List.mem_cons_of_mem text ht), List.map_cons]

theorem readMessage_frame {mode : TransportMode} (hmode : mode ≠ .jsonLines) (m : LspMessage)
    (hfirst : m.before = []) (rest : List UInt8) :
    readMessage mode (m.bytes ++ rest) = .ok (some m.content, .lspStyle, rest) := by
  cases mode with
  | jsonLines => exact absurd rfl hmode
  | autoDetect => exact detect_length_first m hfirst .autoDetect rest
  | lspStyle => simp only [readMessage, readLspMessage_bytes, Except.map]

def frameBytes (messages : List LspMessage) : List UInt8 := messages.flatMap LspMessage.bytes

theorem readFrom_frames {mode : TransportMode} (hmode : mode ≠ .jsonLines)
    {messages : List LspMessage} (hfirst : ∀ m ∈ messages, m.before = [])
    (htexts : ∀ m ∈ messages, IsJsonText m.content) :
    readFrom mode (frameBytes messages) =
      (messages.map fun m => (trim m.content, .lspStyle), some .eof) := by
  induction messages generalizing mode with
  | nil => exact readFrom_nil mode
  | cons m messages ih =>
    have hread := readMessage_frame hmode m (hfirst m List.mem_cons_self) (frameBytes messages)
    have hbytes : frameBytes (m :: messages) = m.bytes ++ frameBytes messages := rfl
    rw [hbytes, readFrom_message hread (htexts m List.mem_cons_self).trim_ne_nil,
      ih (by decide) (fun d hd => hfirst d (List.mem_cons_of_mem m hd))
        fun d hd => htexts d (List.mem_cons_of_mem m hd), List.map_cons]

theorem denotes_toDigits (n : ℕ) : Denotes (' ' :: Nat.toDigits 10 n) n := by
  have hbefore : ∀ c ∈ [' '], isWhitespace c := List.all_eq_true.mp (by decide)
  refine ⟨[' '], Nat.toDigits 10 n, [], by simp, hbefore, by simp, Nat.toDigits_ne_nil, ?_,
    Nat.ofDigitChars_ten_toDigits⟩
  intro c hc
  exact Nat.isDigit_of_mem_toDigits (by decide) (by decide) hc

theorem newline_not_mem_toDigits (n : ℕ) : '\n' ∉ Nat.toDigits 10 n := by
  intro hmem
  have hdigit := Nat.isDigit_of_mem_toDigits (by decide) (by decide) hmem
  exact absurd hdigit (by decide)

def frame (text : List Char) (hsmall : (encode text).length ≤ maxContentLength) : LspMessage where
  before := []
  length :=
    { name := "Content-Length".toList
      value := ' ' :: Nat.toDigits 10 (encode text).length
      named := contentLength_named
      token := contentLength_token
      oneLine := ⟨by decide, by simp [newline_not_mem_toDigits]⟩ }
  after := []
  content := text
  isLength := contentLength_isLength
  onlyLength := by simp
  value := denotes_toDigits (encode text).length
  small := hsmall

theorem writeResponse_frame {text : List Char}
    (hsmall : (encode text).length ≤ maxContentLength) :
    writeResponse .lspStyle text = (frame text hsmall).bytes := by
  have hheader : "Content-Length: ".toList ++ Nat.toDigits 10 (encode text).length ++
      "\r\n\r\n".toList = (frame text hsmall).length.line ++ ['\n'] ++ ['\r', '\n'] := by
    have hname : "Content-Length: ".toList = "Content-Length".toList ++ [':', ' '] := by decide
    have hends : "\r\n\r\n".toList = ['\r', '\n', '\r', '\n'] := by decide
    rw [hname, hends]
    simp only [frame, Header.line, List.append_assoc, List.cons_append, List.nil_append]
  have hbytes : (frame text hsmall).bytes =
      encode ((frame text hsmall).length.line ++ ['\n'] ++ ['\r', '\n']) ++ encode text := by
    rw [LspMessage.bytes, encode_append _ ['\r', '\n']]
    simp [frame, headerBytes, emptyLine]
  rw [writeResponse, hheader, hbytes]

theorem writeResponse_line (text : List Char) :
    writeResponse .jsonLines text = encode (text ++ ['\n']) := by
  rw [writeResponse, encode_append]

theorem exists_frames {texts : List (List Char)}
    (hsmall : ∀ text ∈ texts, (encode text).length ≤ maxContentLength) :
    ∃ messages : List LspMessage, texts.flatMap (writeResponse .lspStyle) = frameBytes messages ∧
      messages.map LspMessage.content = texts ∧ ∀ m ∈ messages, m.before = [] := by
  induction texts with
  | nil => exact ⟨[], rfl, rfl, by simp⟩
  | cons text texts ih =>
    obtain ⟨messages, hbytes, hcontents, hfirst⟩ :=
      ih fun t ht => hsmall t (List.mem_cons_of_mem text ht)
    refine ⟨frame text (hsmall text List.mem_cons_self) :: messages, ?_, ?_, ?_⟩
    · rw [List.flatMap_cons, hbytes, writeResponse_frame (hsmall text List.mem_cons_self)]
      rfl
    · rw [List.map_cons, hcontents]
      rfl
    · rw [List.forall_mem_cons]
      exact ⟨rfl, hfirst⟩

def Serializes (serialize : JsonRpcResponse → List Char) : Prop :=
  ∀ response, IsJsonText (serialize response)

theorem forall_mem_serialized {serialize : JsonRpcResponse → List Char}
    (hserialize : Serializes serialize) (responses : List JsonRpcResponse) :
    ∀ text ∈ responses.map serialize, IsJsonText text := by
  intro text htext
  obtain ⟨r, -, rfl⟩ := List.mem_map.mp htext
  exact hserialize r

/-- What the writer puts out in a mode is read back from the start in that mode. -/
theorem written_read_back {serialize : JsonRpcResponse → List Char}
    (hserialize : Serializes serialize) {mode : TransportMode} (hmode : mode ≠ .autoDetect)
    {responses : List JsonRpcResponse}
    (hsmall : ∀ r ∈ responses, (encode (serialize r)).length ≤ maxContentLength) :
    readFrom .autoDetect (responses.flatMap fun r => writeResponse mode (serialize r)) =
      (responses.map fun r => (trim (serialize r), mode), some .eof) := by
  have htexts := forall_mem_serialized hserialize responses
  cases mode with
  | autoDetect => exact absurd rfl hmode
  | jsonLines =>
    have hbytes : (responses.flatMap fun r => writeResponse .jsonLines (serialize r)) =
        lineBytes (responses.map serialize) := by
      simp only [lineBytes, List.flatMap_map, writeResponse_line]
    rw [hbytes, readFrom_lines (by decide) htexts, List.map_map]
    rfl
  | lspStyle =>
    obtain ⟨messages, hbytes, hcontents, hfirst⟩ := @exists_frames (responses.map serialize)
      (by simpa using hsmall)
    rw [List.flatMap_map] at hbytes
    have hjson : ∀ m ∈ messages, IsJsonText m.content := by
      intro m hm
      exact htexts m.content (hcontents ▸ List.mem_map_of_mem hm)
    have hpairs : (messages.map fun m => (trim m.content, TransportMode.lspStyle)) =
        (responses.map serialize).map fun text => (trim text, .lspStyle) := by
      rw [← hcontents, List.map_map]
      rfl
    rw [hbytes, readFrom_frames (by decide) hfirst hjson, hpairs, List.map_map]
    rfl

def nullResult : List Char :=
  "\x7b\"jsonrpc\":\"2.0\",\"id\":1,\"result\":null\x7d".toList

theorem nullResult_isJsonText : IsJsonText nullResult := ⟨by decide, by decide⟩

def nullResponse : JsonRpcResponse := .success (.number "1") .null

theorem written_read_back_twice :
    readFrom .autoDetect ([nullResponse, nullResponse].flatMap fun _ =>
        writeResponse .lspStyle nullResult) =
      ([nullResponse, nullResponse].map fun _ => (trim nullResult, .lspStyle), some .eof) :=
  written_read_back (fun _ => nullResult_isJsonText) (by decide) fun _ _ => by decide

end Ccgonext.Transport
