import Ccgonext.Transport
import Mathlib.Data.List.ReduceOption

/-!
# One reply to each request

Whatever the handlers do, a text that is a request gets one response with its
id, one that is a notification gets none, and one that is neither gets a parse
error without an id. The way the texts come in, as lines or in frames, makes no
difference to the replies.
-/

namespace Ccgonext.Replies
open Lib Lib.Text Lib.Utf8 JsonRpc Stdio Framing Transport

/-- The fields name this one once, with this value. -/
def Once (fields : List (String × Json)) (name : String) (value : Json) : Prop :=
  ∃ before after, fields = before ++ (name, value) :: after ∧
    ∀ field ∈ before ++ after, field.1 ≠ name

def AtMostOnce (fields : List (String × Json)) (name : String) : Prop :=
  (fields.map Prod.fst).count name ≤ 1

/-- What a client sends as a request with this id: the four fields by name, or in
their order. -/
inductive IsRequest (id : Json) : Json → Prop
  | object {fields : List (String × Json)} {jsonrpc method : String}
      (hjsonrpc : Once fields "jsonrpc" (.string jsonrpc)) (hid : Once fields "id" id)
      (hmethod : Once fields "method" (.string method)) (hparams : AtMostOnce fields "params") :
      IsRequest id (.object fields)
  | items (jsonrpc method : String) :
      IsRequest id (.array [.string jsonrpc, id, .string method])
  | itemsParams (jsonrpc method : String) (params : Json) :
      IsRequest id (.array [.string jsonrpc, id, .string method, params])

inductive IsCall : Json → Prop
  | object {fields : List (String × Json)} {jsonrpc method : String}
      (hjsonrpc : Once fields "jsonrpc" (.string jsonrpc))
      (hmethod : Once fields "method" (.string method)) (hparams : AtMostOnce fields "params") :
      IsCall (.object fields)
  | items (jsonrpc method : String) : IsCall (.array [.string jsonrpc, .string method])
  | itemsParams (jsonrpc method : String) (params : Json) :
      IsCall (.array [.string jsonrpc, .string method, params])

def IsNotification (json : Json) : Prop := IsCall json ∧ ∀ id, ¬ IsRequest id json

def parseErrorCode : ℤ := -32700

def IsParseError (reply : Option JsonRpcResponse) : Prop :=
  ∃ response, reply = some response ∧ response.id = .null ∧
    response.error.map JsonRpcError.code = some parseErrorCode

/-- What a text may get for a reply. -/
def ReplyTo (parse : List Char → Except String Json) (text : List Char)
    (reply : Option JsonRpcResponse) : Prop :=
  match parse (trim text) with
  | .error _ => IsParseError reply
  | .ok json =>
    (∀ id, IsRequest id json → ∃ response, reply = some response ∧ response.id = id) ∧
    (IsNotification json → reply = none) ∧
    ((∀ id, ¬ IsRequest id json) → ¬ IsNotification json → IsParseError reply)

section Forms
variable {fields : List (String × Json)} {name : String} {value : Json}

theorem field_eq_some_iff : field fields name = some value ↔ Once fields name value := by
  have hone : field fields name = some value ↔
      fields.filter (fun field => field.1 == name) = [(name, value)] := by
    unfold field optionalField
    constructor
    · intro h
      split at h
      · cases h
      · rename_i found hfound
        have hname : found.1 = name := by
          have hmem : found ∈ fields.filter fun field => field.1 == name := by
            rw [hfound]
            exact List.mem_singleton_self found
          exact eq_of_beq (List.mem_filter.mp hmem).2
        have hvalue : found.2 = value := Option.some.inj h
        rw [hfound, ← hname, ← hvalue]
      · cases h
    · intro h
      rw [h]
      rfl
  rw [hone, List.filter_eq_cons_iff]
  constructor
  · rintro ⟨before, after, rfl, hbefore, -, hafter⟩
    rw [List.filter_eq_nil_iff] at hafter
    refine ⟨before, after, rfl, fun field hfield => ?_⟩
    rcases List.mem_append.mp hfield with h | h
    · simpa using hbefore field h
    · simpa using hafter field h
  · rintro ⟨before, after, rfl, hothers⟩
    refine ⟨before, after, rfl, fun field h => ?_, by simp, ?_⟩
    · simpa using hothers field (List.mem_append_left _ h)
    · rw [List.filter_eq_nil_iff]
      intro field h
      simpa using hothers field (List.mem_append_right _ h)

theorem field_eq_some_string_iff {s : String} :
    (field fields name).bind Json.asString = some s ↔ Once fields name (.string s) := by
  rw [← field_eq_some_iff]
  cases field fields name with
  | none => simp
  | some value => cases value <;> simp [Json.asString]

theorem isSome_defaultField_iff :
    (defaultField fields name).isSome ↔ AtMostOnce fields name := by
  have hcount : (fields.map Prod.fst).count name =
      (fields.filter fun field => field.1 == name).length := by
    rw [List.count_eq_countP, List.countP_map, List.countP_eq_length_filter]
    rfl
  unfold AtMostOnce defaultField optionalField
  rw [hcount, Option.isSome_map]
  generalize fields.filter (fun field => field.1 == name) = found
  match found with
  | [] => simp
  | [_] => simp
  | _ :: _ :: _ => simp

theorem exists_deserialize_iff (json id : Json) :
    (∃ request, JsonRpcRequest.deserialize json = some request ∧ request.id = id) ↔
      IsRequest id json := by
  constructor
  · rintro ⟨request, h, rfl⟩
    unfold JsonRpcRequest.deserialize at h
    split at h
    · rename_i fields
      simp only [Option.bind_eq_bind, Option.bind_eq_some_iff, Option.pure_def] at h
      obtain ⟨v, hv, jsonrpc, hjsonrpc, id, hid, w, hw, method, hmethod, params, hparams,
        hrequest⟩ := h
      cases hrequest
      exact .object
        (field_eq_some_string_iff.mp (Option.bind_eq_some_iff.mpr ⟨v, hv, hjsonrpc⟩))
        (field_eq_some_iff.mp hid)
        (field_eq_some_string_iff.mp (Option.bind_eq_some_iff.mpr ⟨w, hw, hmethod⟩))
        (isSome_defaultField_iff.mp (Option.isSome_of_eq_some hparams))
    · cases h
      exact .items _ _
    · cases h
      exact .itemsParams _ _ _
    · cases h
  · intro h
    cases h with
    | @object fields jsonrpc method hjsonrpc hid hmethod hparams =>
      obtain ⟨params, hparams⟩ := Option.isSome_iff_exists.mp (isSome_defaultField_iff.mpr hparams)
      refine ⟨⟨jsonrpc, id, method, params⟩, ?_, rfl⟩
      simp only [JsonRpcRequest.deserialize, field_eq_some_iff.mpr hjsonrpc,
        field_eq_some_iff.mpr hid, field_eq_some_iff.mpr hmethod, hparams, Json.asString,
        Option.bind_eq_bind, Option.bind_some, Option.pure_def]
    | items jsonrpc method => exact ⟨_, rfl, rfl⟩
    | itemsParams jsonrpc method params => exact ⟨_, rfl, rfl⟩

theorem isSome_deserialize_iff (json : Json) :
    (JsonRpcNotification.deserialize json).isSome ↔ IsCall json := by
  rw [Option.isSome_iff_exists]
  constructor
  · rintro ⟨notification, h⟩
    unfold JsonRpcNotification.deserialize at h
    split at h
    · rename_i fields
      simp only [Option.bind_eq_bind, Option.bind_eq_some_iff, Option.pure_def] at h
      obtain ⟨v, hv, jsonrpc, hjsonrpc, w, hw, method, hmethod, params, hparams, -⟩ := h
      exact .object
        (field_eq_some_string_iff.mp (Option.bind_eq_some_iff.mpr ⟨v, hv, hjsonrpc⟩))
        (field_eq_some_string_iff.mp (Option.bind_eq_some_iff.mpr ⟨w, hw, hmethod⟩))
        (isSome_defaultField_iff.mp (Option.isSome_of_eq_some hparams))
    · exact .items _ _
    · exact .itemsParams _ _ _
    · cases h
  · intro h
    cases h with
    | @object fields jsonrpc method hjsonrpc hmethod hparams =>
      obtain ⟨params, hparams⟩ := Option.isSome_iff_exists.mp (isSome_defaultField_iff.mpr hparams)
      refine ⟨⟨jsonrpc, method, params⟩, ?_⟩
      simp only [JsonRpcNotification.deserialize, field_eq_some_iff.mpr hjsonrpc,
        field_eq_some_iff.mpr hmethod, hparams, Json.asString, Option.bind_eq_bind,
        Option.bind_some, Option.pure_def]
    | items jsonrpc method => exact ⟨_, rfl⟩
    | itemsParams jsonrpc method params => exact ⟨_, rfl⟩

end Forms

section Handling
variable {σ : Type} (h : Handlers σ)

theorem handleToolsCall_id (s : σ) (request : JsonRpcRequest) :
    (h.handleToolsCall s request).1.id = request.id := by
  unfold Handlers.handleToolsCall
  cases h.toolCallParams request.params with
  | error e => rfl
  | ok params =>
    dsimp only
    cases h.executeTool s params.name params.arguments with
    | mk result s' => cases result <;> rfl

theorem handleRequest_id (s : σ) (request : JsonRpcRequest) :
    (h.handleRequest s request).1.id = request.id := by
  unfold Handlers.handleRequest
  split
  · rfl
  · rfl
  · exact handleToolsCall_id h s request
  · rfl

theorem respond_error {s : σ} {content : List Char} {e : String}
    (hparse : h.parse content = .error e) : IsParseError (h.respond s content).1 := by
  simp only [Handlers.respond, decodeMessage, hparse]
  exact ⟨_, rfl, rfl, rfl⟩

theorem respond_request {s : σ} {content : List Char} {json id : Json}
    (hparse : h.parse content = .ok json) (hrequest : IsRequest id json) :
    ∃ response, (h.respond s content).1 = some response ∧ response.id = id := by
  obtain ⟨request, hdecode, rfl⟩ := (exists_deserialize_iff json id).mpr hrequest
  simp only [Handlers.respond, decodeMessage, hparse, JsonRpcMessage.deserialize, hdecode]
  exact ⟨_, rfl, handleRequest_id h s request⟩

theorem deserialize_eq_none {json : Json} (h : ∀ id, ¬ IsRequest id json) :
    JsonRpcRequest.deserialize json = none := by
  cases hdecode : JsonRpcRequest.deserialize json with
  | none => rfl
  | some request => exact absurd ((exists_deserialize_iff json _).mp ⟨request, hdecode, rfl⟩) (h _)

theorem respond_notification {s : σ} {content : List Char} {json : Json}
    (hparse : h.parse content = .ok json) (hnotification : IsNotification json) :
    (h.respond s content).1 = none := by
  obtain ⟨notification, hcall⟩ :=
    Option.isSome_iff_exists.mp ((isSome_deserialize_iff json).mpr hnotification.1)
  simp only [Handlers.respond, decodeMessage, hparse, JsonRpcMessage.deserialize,
    deserialize_eq_none hnotification.2, hcall]
  rfl

theorem respond_neither {s : σ} {content : List Char} {json : Json}
    (hparse : h.parse content = .ok json) (hrequest : ∀ id, ¬ IsRequest id json)
    (hnotification : ¬ IsNotification json) : IsParseError (h.respond s content).1 := by
  have hcall : JsonRpcNotification.deserialize json = none :=
    Option.not_isSome_iff_eq_none.mp fun hsome =>
      hnotification ⟨(isSome_deserialize_iff json).mp hsome, hrequest⟩
  simp only [Handlers.respond, decodeMessage, hparse, JsonRpcMessage.deserialize,
    deserialize_eq_none hrequest, hcall]
  exact ⟨_, rfl, rfl, rfl⟩

theorem respond_replyTo (s : σ) (text : List Char) :
    ReplyTo h.parse text (h.respond s (trim text)).1 := by
  unfold ReplyTo
  cases hparse : h.parse (trim text) with
  | error e => exact respond_error h hparse
  | ok json =>
    exact ⟨fun id => respond_request h hparse, respond_notification h hparse,
      respond_neither h hparse⟩

def replies : σ → List (List Char) → List (Option JsonRpcResponse)
  | _, [] => []
  | s, text :: texts =>
    (h.respond s (trim text)).1 :: replies (h.respond s (trim text)).2 texts

theorem replies_replyTo (s : σ) (texts : List (List Char)) :
    List.Forall₂ (ReplyTo h.parse) texts (replies h s texts) := by
  induction texts generalizing s with
  | nil => exact .nil
  | cons text texts ih => exact .cons (respond_replyTo h s text) (ih _)

theorem answers_response (mode : TransportMode) (s : σ) (texts : List (List Char)) :
    (answers h s (texts.map fun text => (trim text, mode))).map Written.response =
      (replies h s texts).reduceOption := by
  induction texts generalizing s with
  | nil => rfl
  | cons text texts ih =>
    simp only [List.map_cons, answers, replies]
    cases h.respond s (trim text) with
    | mk response s' =>
      cases response with
      | none => simp only [List.reduceOption_cons_of_none, ih s']
      | some response => simp only [List.map_cons, List.reduceOption_cons_of_some, ih s']

end Handling

def responses (out : List Written × Option Stop) : List JsonRpcResponse :=
  out.1.map Written.response

theorem runStdio_lines {σ : Type} (h : Handlers σ) (s : σ) {texts : List (List Char)}
    (htexts : ∀ text ∈ texts, IsJsonText text) :
    responses (runStdio h s (lineBytes texts)) = (replies h s texts).reduceOption ∧
      (runStdio h s (lineBytes texts)).2 = some .eof := by
  constructor
  · rw [runStdio, runFrom_eq, readFrom_lines (by decide) htexts]
    exact answers_response h .jsonLines s _
  · rw [runStdio, runFrom_eq, readFrom_lines (by decide) htexts]

theorem runStdio_frames {σ : Type} (h : Handlers σ) (s : σ) {messages : List LspMessage}
    (hfirst : ∀ m ∈ messages, m.before = []) (htexts : ∀ m ∈ messages, IsJsonText m.content) :
    responses (runStdio h s (frameBytes messages)) =
        (replies h s (messages.map LspMessage.content)).reduceOption ∧
      (runStdio h s (frameBytes messages)).2 = some .eof := by
  have hframes : (messages.map fun m => (trim m.content, TransportMode.lspStyle)) =
      (messages.map LspMessage.content).map fun text => (trim text, .lspStyle) := by
    rw [List.map_map]
    rfl
  constructor
  · rw [runStdio, runFrom_eq, readFrom_frames (by decide) hfirst htexts, hframes]
    exact answers_response h .lspStyle s _
  · rw [runStdio, runFrom_eq, readFrom_frames (by decide) hfirst htexts]

/-- Lines and frames with the same texts get the same responses, one reply to each
text in turn, and both streams are read to their end. -/
theorem replies_agree {σ : Type} (h : Handlers σ) (s : σ) {messages : List LspMessage}
    (hfirst : ∀ m ∈ messages, m.before = []) (htexts : ∀ m ∈ messages, IsJsonText m.content) :
    ∃ replies, List.Forall₂ (ReplyTo h.parse) (messages.map LspMessage.content) replies ∧
      responses (runStdio h s (lineBytes (messages.map LspMessage.content))) =
        replies.reduceOption ∧
      responses (runStdio h s (frameBytes messages)) = replies.reduceOption ∧
      (runStdio h s (lineBytes (messages.map LspMessage.content))).2 = some .eof ∧
      (runStdio h s (frameBytes messages)).2 = some .eof := by
  have hlines : ∀ text ∈ messages.map LspMessage.content, IsJsonText text := by
    intro text htext
    obtain ⟨m, hm, rfl⟩ := List.mem_map.mp htext
    exact htexts m hm
  obtain ⟨hlineReplies, hlineEnd⟩ := runStdio_lines h s hlines
  obtain ⟨hframeReplies, hframeEnd⟩ := runStdio_frames h s hfirst htexts
  exact ⟨replies h s (messages.map LspMessage.content), replies_replyTo h s _, hlineReplies,
    hframeReplies, hlineEnd, hframeEnd⟩

def pingText : List Char :=
  "\x7b\"jsonrpc\":\"2.0\",\"id\":7,\"method\":\"ping\"\x7d".toList

def readyText : List Char :=
  "\x7b\"jsonrpc\":\"2.0\",\"method\":\"notifications/initialized\"\x7d".toList

def idText : List Char := "\x7b\"id\":8\x7d".toList

def pingParse (text : List Char) : Except String Json :=
  if text = pingText then
    .ok (.object [("jsonrpc", .string "2.0"), ("id", .number "7"), ("method", .string "ping")])
  else if text = readyText then
    .ok (.object [("jsonrpc", .string "2.0"), ("method", .string "notifications/initialized")])
  else if text = idText then .ok (.object [("id", .number "8")])
  else .error "expected value at line 1 column 1"

def pingHandlers : Handlers Unit where
  parse := pingParse
  initializeResult := .null
  toolsListResult := .null
  toolCallParams := fun _ => .error "missing field `name`"
  executeTool := fun s name _ => (.error ("Unknown tool: " ++ name), s)

def pingMessages : List LspMessage :=
  [frame readyText (by decide), frame pingText (by decide), frame idText (by decide)]

/-- To a notification, to a request and to an object that has nothing but an id. -/
def pingReplies : List (Option JsonRpcResponse) :=
  [none,
    some ⟨"2.0", .number "7", none, some ⟨-32601, "Method not found: ping"⟩⟩,
    some ⟨"2.0", .null, none, some ⟨-32700,
      "Parse error: data did not match any variant of untagged enum JsonRpcMessage"⟩⟩]

theorem replies_agree_ping :
    (∃ replies, List.Forall₂ (ReplyTo pingParse) (pingMessages.map LspMessage.content) replies ∧
      responses (runStdio pingHandlers () (lineBytes (pingMessages.map LspMessage.content))) =
        replies.reduceOption ∧
      responses (runStdio pingHandlers () (frameBytes pingMessages)) = replies.reduceOption ∧
      (runStdio pingHandlers () (lineBytes (pingMessages.map LspMessage.content))).2 =
        some .eof ∧
      (runStdio pingHandlers () (frameBytes pingMessages)).2 = some .eof) ∧
    List.Forall₂ (ReplyTo pingParse) (pingMessages.map LspMessage.content) pingReplies ∧
    responses (runStdio pingHandlers () (lineBytes (pingMessages.map LspMessage.content))) =
      pingReplies.reduceOption ∧
    responses (runStdio pingHandlers () (frameBytes pingMessages)) =
      pingReplies.reduceOption := by
  have hready : IsJsonText readyText := ⟨by decide, by decide⟩
  have hping : IsJsonText pingText := ⟨by decide, by decide⟩
  have hid : IsJsonText idText := ⟨by decide, by decide⟩
  have hfirst : ∀ m ∈ pingMessages, m.before = [] := by simp [pingMessages, frame]
  have htexts : ∀ m ∈ pingMessages, IsJsonText m.content := by
    simpa [pingMessages, frame] using ⟨hready, hping, hid⟩
  have hlines : ∀ text ∈ pingMessages.map LspMessage.content, IsJsonText text := by
    simpa [pingMessages, frame] using ⟨hready, hping, hid⟩
  have hreplies : replies pingHandlers () (pingMessages.map LspMessage.content) =
      pingReplies := by rfl
  refine ⟨replies_agree pingHandlers () hfirst htexts, ?_, ?_, ?_⟩
  · rw [← hreplies]
    exact replies_replyTo pingHandlers () _
  · rw [(runStdio_lines pingHandlers () hlines).1, hreplies]
  · rw [(runStdio_frames pingHandlers () hfirst htexts).1, hreplies]

end Ccgonext.Replies
