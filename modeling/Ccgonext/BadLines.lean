import Ccgonext.Replies

/-!
# Malformed lines

In JSON-lines mode a text that is no message gets a parse error and changes
nothing else, but a line that is not UTF-8 is an error of the reader and ends the
server. The requests before that line are answered as if the malformed ones were
not there, and those after it are lost.
-/

namespace Ccgonext.BadLines
open Lib Lib.Text Lib.Utf8 JsonRpc Stdio Framing Transport Replies

/-- A stream of lines, which are given without their line feeds. -/
def lineStream (lines : List (List UInt8)) : List UInt8 := lines.flatMap (· ++ [0x0A])

def requestOfText (parse : List Char → Except String Json) (text : List Char) :
    Option JsonRpcRequest :=
  match decodeMessage parse text with
  | .ok (.request request) => some request
  | _ => none

def requestOf (parse : List Char → Except String Json) (line : List UInt8) :
    Option JsonRpcRequest :=
  match decode line with
  | none => none
  | some text => if trim text = [] then none else requestOfText parse (trim text)

/-- No text, or a text that is neither blank nor a message. -/
def Malformed (parse : List Char → Except String Json) (line : List UInt8) : Bool :=
  match decode line with
  | none => true
  | some text => trim text ≠ [] ∧ (decodeMessage parse (trim text)).toOption.isNone

def requestReplies {σ : Type} (h : Handlers σ) (out : List Written × Option Stop) :
    List JsonRpcResponse :=
  (out.1.filter fun w => (requestOfText h.parse w.content).isSome).map Written.response

section Lines
variable {line : List UInt8} {lines : List (List UInt8)}

theorem readMessage_line (hline : 0x0A ∉ line) (rest : List UInt8) :
    readMessage .jsonLines (line ++ [0x0A] ++ rest) =
      match decode line with
      | none => .error .notUtf8
      | some text => .ok (some (text ++ ['\n']), .jsonLines, rest) := by
  have hread : readLine (line ++ [0x0A] ++ rest) =
      match decode line with
      | none => .error .notUtf8
      | some text => .ok (text ++ ['\n'], rest) := by
    have htake : Lines.takeLine 0x0A (line ++ [0x0A] ++ rest) = (line ++ [0x0A], rest) := by
      rw [List.append_assoc, List.singleton_append, Lines.takeLine_append hline]
    simp only [readLine, htake, decode_newline]
    cases decode line <;> rfl
  have hne : line ++ [0x0A] ++ rest ≠ [] := by simp
  simp only [readMessage, readJsonlMessage, hread]
  cases decode line with
  | none => rfl
  | some text => simp only [bind, Except.bind, pure, Except.pure, if_neg hne, Except.map]

theorem readFrom_cons (hline : 0x0A ∉ line) :
    readFrom .jsonLines (lineStream (line :: lines)) =
      match decode line with
      | none => ([], some (.error .notUtf8))
      | some text =>
        if trim text = [] then readFrom .jsonLines (lineStream lines)
        else ((trim text, .jsonLines) :: (readFrom .jsonLines (lineStream lines)).1,
          (readFrom .jsonLines (lineStream lines)).2) := by
  have hread := readMessage_line hline (lineStream lines)
  have hbytes : lineStream (line :: lines) = line ++ [0x0A] ++ lineStream lines := rfl
  rw [hbytes]
  cases hdecode : decode line with
  | none =>
    rw [hdecode] at hread
    exact readFrom_error hread
  | some text =>
    rw [hdecode] at hread
    have htrim := trim_newline text
    dsimp only
    split
    · next hblank => exact readFrom_blank hread (htrim.trans hblank)
    · next hne => rw [readFrom_message hread (by rw [htrim]; exact hne), htrim]

end Lines

section Serving
variable {σ : Type} (h : Handlers σ)

def serve : σ → List JsonRpcRequest → List JsonRpcResponse
  | _, [] => []
  | s, request :: requests =>
    (h.handleRequest s request).1 :: serve (h.handleRequest s request).2 requests

theorem length_serve (s : σ) (requests : List JsonRpcRequest) :
    (serve h s requests).length = requests.length := by
  induction requests generalizing s with
  | nil => rfl
  | cons request requests ih => simp only [serve, List.length_cons, ih]

theorem answers_requests (s : σ) (texts : List (List Char × TransportMode)) :
    ((answers h s texts).filter fun w => (requestOfText h.parse w.content).isSome).map
        Written.response =
      serve h s (texts.filterMap fun text => requestOfText h.parse text.1) := by
  induction texts generalizing s with
  | nil => rfl
  | cons text texts ih =>
    obtain ⟨content, mode⟩ := text
    cases hmessage : decodeMessage h.parse content with
    | error e =>
      have hnone : requestOfText h.parse content = none := by simp only [requestOfText, hmessage]
      rw [List.filterMap_cons_none (by exact hnone)]
      simp [answers, Handlers.respond, hmessage, hnone, ih]
    | ok message =>
      cases message with
      | notification notification =>
        have hnone : requestOfText h.parse content = none := by
          simp only [requestOfText, hmessage]
        rw [List.filterMap_cons_none (by exact hnone)]
        simp [answers, Handlers.respond, hmessage, Handlers.handleMessage, ih]
      | request request =>
        have hsome : requestOfText h.parse content = some request := by
          simp only [requestOfText, hmessage]
        rw [List.filterMap_cons_some (by exact hsome)]
        have hrespond : h.respond s content =
            (some (h.handleRequest s request).1, (h.handleRequest s request).2) := by
          simp only [Handlers.respond, hmessage]
          rfl
        simp [answers, hrespond, hsome, serve, ih]

end Serving

section Streams
variable {σ : Type} (h : Handlers σ)

theorem readFrom_requests {lines : List (List UInt8)} (hlines : ∀ line ∈ lines, 0x0A ∉ line) :
    (readFrom .jsonLines (lineStream lines)).1.filterMap
        (fun text => requestOfText h.parse text.1) =
      (lines.takeWhile IsUtf8).filterMap (requestOf h.parse) := by
  induction lines with
  | nil => rfl
  | cons line lines ih =>
    have ih := ih fun l hl => hlines l (List.mem_cons_of_mem line hl)
    rw [readFrom_cons (hlines line List.mem_cons_self)]
    cases hdecode : decode line with
    | none =>
      have hbad : ¬ IsUtf8 line = true := by simp [IsUtf8, hdecode]
      rw [List.takeWhile_cons_of_neg hbad]
      rfl
    | some text =>
      have hutf8 : IsUtf8 line = true := by simp [IsUtf8, hdecode]
      rw [List.takeWhile_cons_of_pos hutf8]
      dsimp only
      by_cases hblank : trim text = []
      · have hnone : requestOf h.parse line = none := by simp [requestOf, hdecode, hblank]
        rw [if_pos hblank, List.filterMap_cons_none hnone, ih]
      · have hrequest : requestOf h.parse line = requestOfText h.parse (trim text) := by
          simp [requestOf, hdecode, hblank]
        rw [if_neg hblank, List.filterMap_cons, List.filterMap_cons, ih, hrequest]

theorem requestReplies_eq (s : σ) {lines : List (List UInt8)}
    (hlines : ∀ line ∈ lines, 0x0A ∉ line) :
    requestReplies h (runFrom h .jsonLines s (lineStream lines)) =
      serve h s ((lines.takeWhile IsUtf8).filterMap (requestOf h.parse)) := by
  rw [← readFrom_requests h hlines, requestReplies, runFrom_eq]
  exact answers_requests h s _

theorem runFrom_stop (s : σ) {lines : List (List UInt8)} (hlines : ∀ line ∈ lines, 0x0A ∉ line) :
    (runFrom h .jsonLines s (lineStream lines)).2 = some .eof ↔
      ∀ line ∈ lines, IsUtf8 line = true := by
  rw [runFrom_eq]
  induction lines with
  | nil => exact iff_of_true (congrArg Prod.snd (readFrom_nil .jsonLines)) (by simp)
  | cons line lines ih =>
    have ih := ih fun l hl => hlines l (List.mem_cons_of_mem line hl)
    rw [readFrom_cons (hlines line List.mem_cons_self), List.forall_mem_cons, ← ih]
    cases hdecode : decode line with
    | none => simp [IsUtf8, hdecode]
    | some text =>
      have hutf8 : IsUtf8 line = true := by simp [IsUtf8, hdecode]
      dsimp only
      split <;> simp [hutf8]

theorem requestOf_malformed {parse : List Char → Except String Json} {line : List UInt8}
    (hbad : Malformed parse line = true) : requestOf parse line = none := by
  unfold Malformed at hbad
  unfold requestOf
  cases hdecode : decode line with
  | none => rfl
  | some text =>
    simp only [hdecode, decide_eq_true_eq] at hbad ⊢
    rw [if_neg hbad.1, requestOfText]
    cases hmessage : decodeMessage parse (trim text) with
    | error e => rfl
    | ok message => simp [hmessage, Except.toOption] at hbad

theorem isUtf8_of_not_malformed {parse : List Char → Except String Json} {line : List UInt8}
    (hgood : ¬ Malformed parse line = true) : IsUtf8 line = true := by
  unfold Malformed at hgood
  unfold IsUtf8
  cases hdecode : decode line with
  | none => simp [hdecode] at hgood
  | some text => rfl

theorem filterMap_wellFormed (parse : List Char → Except String Json)
    (lines : List (List UInt8)) :
    (lines.filter fun line => !Malformed parse line).filterMap (requestOf parse) =
      lines.filterMap (requestOf parse) := by
  rw [List.filterMap_filter]
  congr 1
  funext line
  cases hbad : Malformed parse line with
  | false => rfl
  | true => exact (requestOf_malformed hbad).symm

/-- The requests are answered as if the malformed lines were absent exactly if none
comes after a line that is not UTF-8, and the server reads on to the end exactly if
there is no such line. -/
theorem isolated_iff (s : σ) {lines : List (List UInt8)} (hlines : ∀ line ∈ lines, 0x0A ∉ line) :
    (requestReplies h (runFrom h .jsonLines s (lineStream lines)) =
        requestReplies h (runFrom h .jsonLines s
          (lineStream (lines.filter fun line => !Malformed h.parse line))) ↔
      ∀ line ∈ lines.dropWhile IsUtf8, requestOf h.parse line = none) ∧
    ((runFrom h .jsonLines s (lineStream lines)).2 = some .eof ↔
      ∀ line ∈ lines, IsUtf8 line = true) := by
  refine ⟨?_, runFrom_stop h s hlines⟩
  have hkept : ∀ line ∈ lines.filter fun line => !Malformed h.parse line, 0x0A ∉ line :=
    fun line hline => hlines line (List.mem_of_mem_filter hline)
  have hall : (lines.filter fun line => !Malformed h.parse line).takeWhile IsUtf8 =
      lines.filter fun line => !Malformed h.parse line := by
    rw [List.takeWhile_eq_self_iff]
    intro line hline
    exact isUtf8_of_not_malformed (by simpa using List.of_mem_filter hline)
  rw [requestReplies_eq h s hlines, requestReplies_eq h s hkept, hall, filterMap_wellFormed]
  have hsplit : lines.filterMap (requestOf h.parse) =
      (lines.takeWhile IsUtf8).filterMap (requestOf h.parse) ++
        (lines.dropWhile IsUtf8).filterMap (requestOf h.parse) := by
    rw [← List.filterMap_append, List.takeWhile_append_dropWhile]
  rw [hsplit, ← List.filterMap_eq_nil_iff]
  constructor
  · intro heq
    have hlen := congrArg List.length heq
    simp only [length_serve, List.length_append] at hlen
    exact List.eq_nil_of_length_eq_zero (by omega)
  · intro hnone
    rw [hnone, List.append_nil]

end Streams

def blankThenPing : List (List UInt8) := [encode [' '], encode ['x'], encode pingText]

theorem isolated_blankThenPing :
    (requestReplies pingHandlers (runFrom pingHandlers .jsonLines () (lineStream blankThenPing)) =
        requestReplies pingHandlers (runFrom pingHandlers .jsonLines ()
          (lineStream (blankThenPing.filter fun line => !Malformed pingParse line))) ↔
      ∀ line ∈ blankThenPing.dropWhile IsUtf8, requestOf pingParse line = none) ∧
    ((runFrom pingHandlers .jsonLines () (lineStream blankThenPing)).2 = some .eof ↔
      ∀ line ∈ blankThenPing, IsUtf8 line = true) :=
  isolated_iff pingHandlers () (by decide)

def badThenPing : List (List UInt8) := [[0xFF], encode pingText]

theorem badThenPing_not_isolated :
    (requestReplies pingHandlers
        (runFrom pingHandlers .jsonLines () (lineStream badThenPing))).length = 0 ∧
      (requestReplies pingHandlers (runFrom pingHandlers .jsonLines ()
        (lineStream (badThenPing.filter fun line => !Malformed pingParse line)))).length = 1 := by
  decide

end Ccgonext.BadLines
