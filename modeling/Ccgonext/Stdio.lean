import Ccgonext.JsonRpc
import Ccgonext.Lib.Lines
import Ccgonext.Lib.Text
import Ccgonext.Lib.Utf8

/-!
# The MCP server on stdin and stdout

`McpServer` of `mcp/mod.rs`: the two readers, the writer and the loop of
`run_stdio`. Stdin is the bytes up to the end of the file, stdout takes every
write, and texts are lists of characters. A loop over lines is given the number
of bytes left as its bound, which it cannot exceed. The results of `initialize` and
`tools/list`, the decoder of the parameters of `tools/call` and `execute_tool`, which
may change the state of the sessions, are the fields of `Handlers`.
-/

namespace Ccgonext.Stdio
open Lib Lib.Text Lib.Utf8 Lib.Lines JsonRpc

inductive TransportMode
  | autoDetect
  | jsonLines
  | lspStyle
  deriving DecidableEq, Repr

def maxContentLength : ℕ := 16 * 1024 * 1024

inductive ReadError
  | notUtf8
  | unexpectedEof
  | invalidHeader
  | parseInt
  | tooLong (length : ℕ)
  | missingContentLength
  deriving DecidableEq, Repr

def readLine (bytes : List UInt8) : Except ReadError (List Char × List UInt8) :=
  match decode (takeLine 0x0A bytes).1 with
  | some line => .ok (line, (takeLine 0x0A bytes).2)
  | none => .error .notUtf8

def readExact (n : ℕ) (bytes : List UInt8) : Except ReadError (List UInt8 × List UInt8) :=
  if bytes.length < n then .error .unexpectedEof else .ok (bytes.take n, bytes.drop n)

def fromUtf8 (content : List UInt8) : Except ReadError (List Char) :=
  match decode content with
  | some text => .ok text
  | none => .error .notUtf8

def contentLengthName : List Char := "content-length".toList

/-- `to_lowercase().starts_with("content-length:")`. No character but an ASCII
capital has a lower case that begins with one of these letters. -/
def isContentLength (line : List Char) : Bool :=
  (contentLengthName ++ [':']).isPrefixOf (line.map Char.toLower)

/-- The second part of `splitn(2, ':')`. -/
def afterColon (header : List Char) : Option (List Char) :=
  match header.dropWhile (· ≠ ':') with
  | [] => none
  | _ :: value => some value

def parseContentLength (header : List Char) : Except ReadError ℕ :=
  match afterColon header with
  | none => .error .invalidHeader
  | some value =>
    match parseUsize (trim value) with
    | none => .error .parseInt
    | some length =>
      if maxContentLength < length then .error (.tooLong length) else .ok length

def skipHeaders : ℕ → List UInt8 → Except ReadError (List UInt8)
  | 0, bytes => .ok bytes
  | n + 1, bytes => do
    let (headerLine, rest) ← readLine bytes
    if trim headerLine = [] then return rest else skipHeaders n rest

/-- The end of `detect_and_read_message` and of `read_lsp_message`. -/
def readContent (length : ℕ) (bytes : List UInt8) :
    Except ReadError (List Char × List UInt8) := do
  let (content, rest) ← readExact length bytes
  let text ← fromUtf8 content
  return (text, rest)

def detectAndReadMessage (mode : TransportMode) (bytes : List UInt8) :
    Except ReadError (Option (List Char) × TransportMode × List UInt8) := do
  let (firstLine, rest) ← readLine bytes
  if bytes = [] then return (none, mode, rest)
  let trimmed := trim firstLine
  if isContentLength trimmed then
    let length ← parseContentLength trimmed
    let rest ← skipHeaders rest.length rest
    let (content, rest) ← readContent length rest
    return (some content, .lspStyle, rest)
  else if trimmed.head? = some '{' then return (some firstLine, .jsonLines, rest)
  else if trimmed = [] then return (some [], mode, rest)
  else return (some firstLine, .jsonLines, rest)

def readJsonlMessage (bytes : List UInt8) :
    Except ReadError (Option (List Char) × List UInt8) := do
  let (line, rest) ← readLine bytes
  if bytes = [] then return (none, rest)
  return (some line, rest)

/-- The loop over the headers, which ends without one at the end of the file. -/
def readHeaders : ℕ → Option ℕ → List UInt8 →
    Except ReadError (Option (Option ℕ) × List UInt8)
  | 0, _, bytes => .ok (none, bytes)
  | n + 1, contentLength, bytes => do
    let (headerLine, rest) ← readLine bytes
    if bytes = [] then return (none, rest)
    let trimmed := trim headerLine
    if trimmed = [] then return (some contentLength, rest)
    if isContentLength trimmed then
      let length ← parseContentLength trimmed
      readHeaders n (some length) rest
    else readHeaders n contentLength rest

def readLspMessage (bytes : List UInt8) :
    Except ReadError (Option (List Char) × List UInt8) := do
  match ← readHeaders bytes.length none bytes with
  | (none, rest) => return (none, rest)
  | (some none, _) => throw .missingContentLength
  | (some (some length), rest) =>
    let (content, rest) ← readContent length rest
    return (some content, rest)

def readMessage (mode : TransportMode) (bytes : List UInt8) :
    Except ReadError (Option (List Char) × TransportMode × List UInt8) :=
  match mode with
  | .autoDetect => detectAndReadMessage mode bytes
  | .jsonLines => (readJsonlMessage bytes).map fun (content, rest) => (content, .jsonLines, rest)
  | .lspStyle => (readLspMessage bytes).map fun (content, rest) => (content, .lspStyle, rest)

def writeResponse (mode : TransportMode) (json : List Char) : List UInt8 :=
  match mode with
  | .lspStyle =>
    encode ("Content-Length: ".toList ++ Nat.toDigits 10 (encode json).length ++
      "\r\n\r\n".toList) ++ encode json
  | .jsonLines | .autoDetect => encode json ++ encode ['\n']

structure ToolCallParams where
  name : String
  arguments : Json
  deriving Repr

structure Handlers (σ : Type) where
  parse : List Char → Except String Json
  initializeResult : Json
  toolsListResult : Json
  toolCallParams : Json → Except String ToolCallParams
  executeTool : σ → String → Json → Except String String × σ

def toolCallResult (text : String) (isError : Bool) : Json :=
  .object [("content", .array [.object [("type", .string "text"), ("text", .string text)]]),
    ("isError", .bool isError)]

namespace Handlers
variable {σ : Type} (h : Handlers σ)

def handleToolsCall (s : σ) (request : JsonRpcRequest) : JsonRpcResponse × σ :=
  match h.toolCallParams request.params with
  | .error e => (.failure request.id ⟨-32602, "Invalid params: " ++ e⟩, s)
  | .ok params =>
    match h.executeTool s params.name params.arguments with
    | (.ok content, s) => (.success request.id (toolCallResult content false), s)
    | (.error e, s) => (.success request.id (toolCallResult e true), s)

def handleRequest (s : σ) (request : JsonRpcRequest) : JsonRpcResponse × σ :=
  match request.method with
  | "initialize" => (.success request.id h.initializeResult, s)
  | "tools/list" => (.success request.id h.toolsListResult, s)
  | "tools/call" => h.handleToolsCall s request
  | method => (.failure request.id ⟨-32601, "Method not found: " ++ method⟩, s)

def handleMessage (s : σ) : JsonRpcMessage → Option JsonRpcResponse × σ
  | .request request => ((h.handleRequest s request).map some id)
  | .notification _ => (none, s)

/-- The body of the loop for one trimmed text that is not empty. -/
def respond (s : σ) (content : List Char) : Option JsonRpcResponse × σ :=
  match decodeMessage h.parse content with
  | .ok message => h.handleMessage s message
  | .error e => (some (.failure .null ⟨-32700, "Parse error: " ++ e⟩), s)

end Handlers

/-- A response written, with the text it answers and the mode it is written in. -/
structure Written where
  content : List Char
  response : JsonRpcResponse
  mode : TransportMode

inductive Stop
  | eof
  | error (e : ReadError)
  deriving DecidableEq, Repr

/-- The loop of `run_stdio`, at most `n` passes; it ends without a `Stop` when they
do not suffice. -/
def runLoop {σ : Type} (h : Handlers σ) :
    ℕ → TransportMode → σ → List UInt8 → List Written × Option Stop
  | 0, _, _, _ => ([], none)
  | n + 1, mode, s, bytes =>
    match readMessage mode bytes with
    | .ok (none, _, _) => ([], some .eof)
    | .error e => ([], some (.error e))
    | .ok (some content, mode, rest) =>
      if trim content = [] then runLoop h n mode s rest
      else
        match h.respond s (trim content) with
        | (none, s) => runLoop h n mode s rest
        | (some response, s) =>
          (⟨trim content, response, mode⟩ :: (runLoop h n mode s rest).1,
            (runLoop h n mode s rest).2)

/-- `run_stdio` from a mode on: a pass takes a byte or is the last. -/
def runFrom {σ : Type} (h : Handlers σ) (mode : TransportMode) (s : σ) (bytes : List UInt8) :
    List Written × Option Stop :=
  runLoop h (bytes.length + 1) mode s bytes

def runStdio {σ : Type} (h : Handlers σ) (s : σ) (bytes : List UInt8) :
    List Written × Option Stop :=
  runFrom h .autoDetect s bytes

end Ccgonext.Stdio
