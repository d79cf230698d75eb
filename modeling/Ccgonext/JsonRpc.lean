import Mathlib.Data.List.Basic
import Mathlib.Data.Int.Notation

/-!
# The messages of the MCP server

`mcp/protocol.rs`. `serde_json` reads a text into a `Json` or fails with a text of
its own; what the derived decoders make of the `Json` is written out. A decoder
takes the fields of an object by name, refuses a field that is there twice and
passes over the ones it does not know; it takes the items of an array in the
order of the fields.
-/

namespace Ccgonext.JsonRpc

inductive Json
  | null
  | bool (b : Bool)
  | number (text : String)
  | string (s : String)
  | array (items : List Json)
  | object (fields : List (String × Json))
  deriving Repr

structure JsonRpcRequest where
  jsonrpc : String
  id : Json
  method : String
  params : Json
  deriving Repr

structure JsonRpcNotification where
  jsonrpc : String
  method : String
  params : Json
  deriving Repr

inductive JsonRpcMessage
  | request (r : JsonRpcRequest)
  | notification (n : JsonRpcNotification)
  deriving Repr

structure JsonRpcError where
  code : ℤ
  message : String
  deriving DecidableEq, Repr

structure JsonRpcResponse where
  jsonrpc : String
  id : Json
  result : Option Json
  error : Option JsonRpcError
  deriving Repr

def JsonRpcResponse.success (id result : Json) : JsonRpcResponse := ⟨"2.0", id, some result, none⟩

def JsonRpcResponse.failure (id : Json) (error : JsonRpcError) : JsonRpcResponse :=
  ⟨"2.0", id, none, some error⟩

/-- A field that may be missing, but not be there twice. -/
def optionalField (fields : List (String × Json)) (name : String) : Option (Option Json) :=
  match fields.filter fun field => field.1 == name with
  | [] => some none
  | [field] => some (some field.2)
  | _ => none

def field (fields : List (String × Json)) (name : String) : Option Json :=
  (optionalField fields name).join

def Json.asString : Json → Option String
  | .string s => some s
  | _ => none

def defaultField (fields : List (String × Json)) (name : String) : Option Json :=
  (optionalField fields name).map fun value => value.getD .null

def JsonRpcRequest.deserialize : Json → Option JsonRpcRequest
  | .object fields => do
    let jsonrpc ← (← field fields "jsonrpc").asString
    let id ← field fields "id"
    let method ← (← field fields "method").asString
    let params ← defaultField fields "params"
    return ⟨jsonrpc, id, method, params⟩
  | .array [.string jsonrpc, id, .string method] => some ⟨jsonrpc, id, method, .null⟩
  | .array [.string jsonrpc, id, .string method, params] => some ⟨jsonrpc, id, method, params⟩
  | _ => none

def JsonRpcNotification.deserialize : Json → Option JsonRpcNotification
  | .object fields => do
    let jsonrpc ← (← field fields "jsonrpc").asString
    let method ← (← field fields "method").asString
    let params ← defaultField fields "params"
    return ⟨jsonrpc, method, params⟩
  | .array [.string jsonrpc, .string method] => some ⟨jsonrpc, method, .null⟩
  | .array [.string jsonrpc, .string method, params] => some ⟨jsonrpc, method, params⟩
  | _ => none

/-- The untagged enum: the first variant that fits. -/
def JsonRpcMessage.deserialize (json : Json) : Option JsonRpcMessage :=
  match JsonRpcRequest.deserialize json with
  | some r => some (.request r)
  | none => (JsonRpcNotification.deserialize json).map .notification

def decodeMessage (parse : List Char → Except String Json) (text : List Char) :
    Except String JsonRpcMessage :=
  match parse text with
  | .error e => .error e
  | .ok json =>
    match JsonRpcMessage.deserialize json with
    | some message => .ok message
    | none => .error "data did not match any variant of untagged enum JsonRpcMessage"

example : (JsonRpcMessage.deserialize (.object [("jsonrpc", .string "2.0"), ("id", .null),
    ("method", .string "initialize")])).isSome = true := by decide

end Ccgonext.JsonRpc
