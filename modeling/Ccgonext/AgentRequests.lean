import Ccgonext.Callbacks
import Ccgonext.Permissions

/-!
# Requests of the agent

`handle_agent_request` of `acp/mod.rs` and the handlers of `CallbackHandler` it
calls, as `reader_task` runs them: each request in a task of its own that takes a
permit of `request_semaphore`, works, writes its answer and gives the permit
back. `Host` is what the handlers share: the handler, the file system, the
permission dialogue and the terminals. A handler's step is its local work up to
and including one access to what is shared.

The method names, the decoding of parameters and the texts of
`agent_client_protocol_schema` are a parameter. What the drain tasks put in a
terminal's buffer, when its process ends and how, and what others do to files is
left to actions. The two last steps of `supervise_terminal` are one.
-/

namespace Ccgonext.AgentRequests
open Lib Lib.Runs Lib.Pool Lib.Posix Callbacks

inductive PermissionOptionKind
  | allowOnce
  | allowAlways
  | rejectOnce
  | rejectAlways
  deriving DecidableEq, Repr

structure PermissionOption where
  optionId : String
  kind : PermissionOptionKind
  deriving DecidableEq, Repr

inductive RequestPermissionOutcome
  | cancelled
  | selected (optionId : String)
  deriving DecidableEq, Repr

/-- `toolCall` is the debug text of the tool call. -/
structure RequestPermissionRequest where
  toolCall : String
  options : List PermissionOption
  deriving DecidableEq, Repr

structure CreateTerminalRequest where
  command : String
  args : List String
  env : List (String × String)
  cwd : Option Path
  deriving DecidableEq, Repr

inductive ClientRequest
  | requestPermission (req : RequestPermissionRequest)
  | readTextFile (path : Path)
  | writeTextFile (path : Path) (content : String)
  | createTerminal (req : CreateTerminalRequest)
  | terminalOutput (terminalId : String)
  | releaseTerminal (terminalId : String)
  | waitForTerminalExit (terminalId : String)
  | killTerminal (terminalId : String)
  deriving DecidableEq, Repr

structure TerminalExitStatus where
  exitCode : Option ℕ
  signal : Option String
  deriving DecidableEq, Repr

inductive Response
  | permission (outcome : RequestPermissionOutcome)
  | content (text : String)
  | written
  | created (terminalId : String)
  | output (text : String) (truncated : Bool) (exitStatus : Option TerminalExitStatus)
  | released
  | exited (exitStatus : TerminalExitStatus)
  | killed
  deriving DecidableEq, Repr

structure ClientMethodNames where
  sessionRequestPermission : String
  fsReadTextFile : String
  fsWriteTextFile : String
  terminalCreate : String
  terminalOutput : String
  terminalRelease : String
  terminalWaitForExit : String
  terminalKill : String
  deriving DecidableEq, Repr

/-- What the handlers take from `agent_client_protocol_schema`, and two texts that
only the user reads. -/
structure Schema (Value : Type) where
  names : ClientMethodNames
  requestPermission : Value → Except String RequestPermissionRequest
  readTextFile : Value → Except String Path
  writeTextFile : Value → Except String (Path × String)
  createTerminal : Value → Except String CreateTerminalRequest
  terminalOutput : Value → Except String String
  releaseTerminal : Value → Except String String
  waitForTerminalExit : Value → Except String String
  killTerminal : Value → Except String String
  errorText : RpcError → String
  displayPath : Path → String
  debugArgs : List String → String

inductive Purpose
  | answer (req : RequestPermissionRequest)
  | write (path : Path) (content : String)
  | create (req : CreateTerminalRequest)
  deriving DecidableEq, Repr

/-- The terminals are numbered as they are spawned. -/
inductive HandlerPc
  | acquire
  | dispatch
  | requestUserPermission (purpose : Purpose)
  | awaitPermission (purpose : Purpose) (call : ℕ)
  | readFile (path : Path)
  | writeFile (path : Path) (content : String)
  | resolveCwd (req : CreateTerminalRequest)
  | spawn (req : CreateTerminalRequest) (cwd : Path)
  | insertTerminal (terminal : ℕ) (terminalId : String)
  | readBuffer (terminal : ℕ)
  | readExit (terminal : ℕ) (output : String) (truncated : Bool)
  | takeKill (terminal : ℕ) (response : Response)
  | checkExit (terminal : ℕ)
  | waitExit (terminal : ℕ)
  | respond (result : Except String Response)
  | done (result : Except String Response)

/-- `killTx` is there until a handler takes it and sends on it. -/
structure ManagedTerminal where
  running : Bool
  supervised : Bool
  output : String
  truncated : Bool
  exitStatus : Option TerminalExitStatus
  killTx : Bool
  killSent : Bool
  deriving DecidableEq, Repr

def ManagedTerminal.spawned : ManagedTerminal := ⟨true, false, "", false, none, true, false⟩

def ManagedTerminal.kill (t : ManagedTerminal) : ManagedTerminal :=
  if t.killTx then { t with killTx := false, killSent := true } else t

structure AgentRequest (Value : Type) where
  method : String
  params : Value
  asked : Option ℕ
  pc : HandlerPc

structure Host where
  handler : CallbackHandler
  fs : FileSystem
  perms : Permissions.Sys
  terminals : List (String × ℕ)
  managed : List ManagedTerminal

structure Sys (Value : Type) where
  host : Host
  permits : ℕ
  requests : List (AgentRequest Value)

def requestPermits : ℕ := 16

def Sys.start {Value : Type} (handler : CallbackHandler) (fs : FileSystem) : Sys Value :=
  ⟨⟨handler, fs, .new, [], []⟩, requestPermits, []⟩

inductive Action (Value : Type)
  | arrive (method : String) (params : Value)
  | acquire (r : ℕ)
  | advance (r : ℕ)
  | requestUserPermission (r : ℕ) (permId : String)
  | spawn (r : ℕ) (outcome : Except String String)
  | reply (r : ℕ)
  | permission (action : Permissions.Action)
  | changeFiles (fs : FileSystem)
  | drain (terminal : ℕ) (output : String) (truncated : Bool)
  | exit (terminal : ℕ)
  | storeExit (terminal : ℕ) (exitStatus : TerminalExitStatus)

namespace PermissionOptionKind

def rejects : PermissionOptionKind → Bool
  | .rejectOnce | .rejectAlways => true
  | .allowOnce | .allowAlways => false

def allows : PermissionOptionKind → Bool
  | .allowOnce | .allowAlways => true
  | .rejectOnce | .rejectAlways => false

end PermissionOptionKind

def RequestPermissionOutcome.makeResponse : Option String → RequestPermissionOutcome
  | some optionId => .selected optionId
  | none => .cancelled

namespace RequestPermissionRequest
variable (req : RequestPermissionRequest)

def denyOption : Option String :=
  (req.options.find? fun o => o.kind.rejects).map PermissionOption.optionId

def approveOption : Option String :=
  (req.options.find? fun o => o.kind.allows).map PermissionOption.optionId

def autoApprove : RequestPermissionOutcome :=
  match req.approveOption with
  | some optionId => .selected optionId
  | none => .makeResponse (req.options.head?.map PermissionOption.optionId)

end RequestPermissionRequest

section Handlers
variable {Value : Type} (schema : Schema Value)

/-- The `match` of `handle_agent_request` and the decoding in each of its arms. -/
def decode (method : String) (params : Value) : Except String ClientRequest :=
  if method = schema.names.sessionRequestPermission then
    (schema.requestPermission params).map .requestPermission
  else if method = schema.names.fsReadTextFile then
    (schema.readTextFile params).map .readTextFile
  else if method = schema.names.fsWriteTextFile then
    (schema.writeTextFile params).map fun req => .writeTextFile req.1 req.2
  else if method = schema.names.terminalCreate then
    (schema.createTerminal params).map .createTerminal
  else if method = schema.names.terminalOutput then
    (schema.terminalOutput params).map .terminalOutput
  else if method = schema.names.terminalRelease then
    (schema.releaseTerminal params).map .releaseTerminal
  else if method = schema.names.terminalWaitForExit then
    (schema.waitForTerminalExit params).map .waitForTerminalExit
  else if method = schema.names.terminalKill then
    (schema.killTerminal params).map .killTerminal
  else .error ("Unknown method: " ++ method)

def AgentRequest.decoded (q : AgentRequest Value) : Except String ClientRequest :=
  decode schema q.method q.params

def fail (e : RpcError) : HandlerPc := .respond (.error (schema.errorText e))

namespace Purpose

def method : Purpose → String
  | .answer _ => "session/request_permission"
  | .write _ _ => "fs/write_text_file"
  | .create _ => "terminal/create"

def description : Purpose → String
  | .answer req => req.toolCall
  | .write path _ => "Write to " ++ schema.displayPath path
  | .create req => "Execute " ++ req.command ++ " " ++ schema.debugArgs req.args

def cleared : Purpose → HandlerPc
  | .answer req => .respond (.ok (.permission (.makeResponse req.approveOption)))
  | .write path content => .writeFile path content
  | .create req => .resolveCwd req

def refused : Purpose → HandlerPc
  | .answer req => .respond (.ok (.permission (.makeResponse req.denyOption)))
  | .write _ _ | .create _ => fail schema ⟨-32001, "Operation denied by user"⟩

end Purpose

namespace Host
variable (c : Host)

/-- `with_write_permission` up to the question, for a write or a new terminal. -/
def withWritePermission (purpose : Purpose) : HandlerPc :=
  match c.handler.policy with
  | .denyAll | .readOnly => fail schema ⟨-32001, "Operation denied by policy"⟩
  | .autoApprove => purpose.cleared
  | .ask => .requestUserPermission purpose

def getTerminal (terminalId : String) : Except RpcError ℕ :=
  match c.terminals.lookup terminalId with
  | some terminal => .ok terminal
  | none => .error ⟨-32004, "Terminal not found"⟩

def handleRequestPermission (req : RequestPermissionRequest) : HandlerPc :=
  match c.handler.policy with
  | .denyAll | .readOnly => .respond (.ok (.permission (.makeResponse req.denyOption)))
  | .ask => .requestUserPermission (.answer req)
  | .autoApprove => .respond (.ok (.permission req.autoApprove))

def handleReadFile (path : Path) : HandlerPc :=
  match c.handler.policy with
  | .denyAll => fail schema ⟨-32001, "File read denied by policy"⟩
  | .readOnly | .ask | .autoApprove =>
    match c.handler.resolvePath c.fs path false with
    | .error e => fail schema e
    | .ok path => .readFile path

def handleWriteFile (path : Path) (content : String) : HandlerPc :=
  match c.handler.resolvePath c.fs path true with
  | .error e => fail schema e
  | .ok path => c.withWritePermission schema (.write path content)

def handleCreateTerminal (req : CreateTerminalRequest) : HandlerPc :=
  c.withWritePermission schema (.create req)

/-- The directory is resolved, and what comes of that is resolved again. -/
def resolveCwd (req : CreateTerminalRequest) : HandlerPc :=
  let cwd := match req.cwd with
    | some cwd => c.handler.resolvePath c.fs cwd false
    | none => .ok c.handler.cwd
  match cwd with
  | .error e => fail schema e
  | .ok cwd =>
    match c.handler.resolvePath c.fs cwd false with
    | .error e => fail schema e
    | .ok _ => .spawn req cwd

def withTerminal (terminalId : String) (next : ℕ → HandlerPc) : HandlerPc :=
  match c.getTerminal terminalId with
  | .error e => fail schema e
  | .ok terminal => next terminal

def handleTerminalOutput (terminalId : String) : HandlerPc :=
  c.withTerminal schema terminalId .readBuffer

def handleKillTerminal (terminalId : String) : HandlerPc :=
  c.withTerminal schema terminalId fun terminal => .takeKill terminal .killed

def handleWaitForTerminalExit (terminalId : String) : HandlerPc :=
  c.withTerminal schema terminalId .checkExit

/-- The other handler that looks a terminal up takes it out of the map. -/
def handleReleaseTerminal (terminalId : String) : Host × HandlerPc :=
  ({ c with terminals := c.terminals.filter fun e => e.1 ≠ terminalId },
    c.withTerminal schema terminalId fun terminal => .takeKill terminal .released)

def handleAgentRequest (method : String) (params : Value) : Host × HandlerPc :=
  match decode schema method params with
  | .error e => (c, .respond (.error e))
  | .ok (.requestPermission req) => (c, c.handleRequestPermission req)
  | .ok (.readTextFile path) => (c, c.handleReadFile schema path)
  | .ok (.writeTextFile path content) => (c, c.handleWriteFile schema path content)
  | .ok (.createTerminal req) => (c, c.handleCreateTerminal schema req)
  | .ok (.terminalOutput id) => (c, c.handleTerminalOutput schema id)
  | .ok (.releaseTerminal id) => c.handleReleaseTerminal schema id
  | .ok (.waitForTerminalExit id) => (c, c.handleWaitForTerminalExit schema id)
  | .ok (.killTerminal id) => (c, c.handleKillTerminal schema id)

def readFile (path : Path) : HandlerPc :=
  match c.fs.openRead path with
  | .error e => fail schema ⟨-32002, "Read failed: " ++ e.text⟩
  | .ok loc =>
    match c.fs.readText loc with
    | .error e => fail schema ⟨-32002, "Read failed: " ++ e.text⟩
    | .ok content => .respond (.ok (.content content))

def writeFile (path : Path) (content : String) : Host × HandlerPc :=
  match c.fs.writeText path content with
  | .error e => (c, fail schema ⟨-32002, "Write failed: " ++ e.text⟩)
  | .ok (_, fs) => ({ c with fs := fs }, .respond (.ok .written))

def updateTerminal (terminal : ℕ) (f : ManagedTerminal → ManagedTerminal) : Host :=
  { c with managed := c.managed.modify terminal f }

def insertTerminal (terminal : ℕ) (terminalId : String) : Host :=
  { c.updateTerminal terminal fun t => { t with supervised := true } with
    terminals := (terminalId, terminal) :: c.terminals.filter fun e => e.1 ≠ terminalId }

def advance (q : AgentRequest Value) : Option (Host × HandlerPc) :=
  match q.pc with
  | .dispatch => some (c.handleAgentRequest schema q.method q.params)
  | .awaitPermission purpose call =>
    match c.perms.calls[call]? with
    | none => none
    | some asked =>
      match asked.pc with
      | .returned true => some (c, purpose.cleared)
      | .returned false => some (c, purpose.refused schema)
      | _ => none
  | .readFile path => some (c, c.readFile schema path)
  | .writeFile path content => some (c.writeFile schema path content)
  | .resolveCwd req => some (c, c.resolveCwd schema req)
  | .insertTerminal terminal terminalId =>
    some (c.insertTerminal terminal terminalId, .respond (.ok (.created terminalId)))
  | .readBuffer terminal =>
    match c.managed[terminal]? with
    | none => none
    | some t => some (c, .readExit terminal t.output t.truncated)
  | .readExit terminal output truncated =>
    match c.managed[terminal]? with
    | none => none
    | some t => some (c, .respond (.ok (.output output truncated t.exitStatus)))
  | .takeKill terminal response =>
    some (c.updateTerminal terminal .kill, .respond (.ok response))
  | .checkExit terminal =>
    match c.managed[terminal]? with
    | none => none
    | some t =>
      match t.exitStatus with
      | some exitStatus => some (c, .respond (.ok (.exited exitStatus)))
      | none => some (c, .waitExit terminal)
  | .waitExit terminal =>
    match c.managed[terminal]? with
    | none => none
    | some t => if t.exitStatus.isSome then some (c, .checkExit terminal) else none
  | .acquire | .requestUserPermission _ | .spawn _ _ | .respond _ | .done _ => none

end Host

def Sys.step (s : Sys Value) : Action Value → Option (Sys Value)
  | .arrive method params =>
    some { s with requests := s.requests ++ [⟨method, params, none, .acquire⟩] }
  | .acquire r =>
    match s.requests[r]? with
    | none => none
    | some q =>
      match q.pc with
      | .acquire =>
        if 0 < s.permits then some
          { s with
            permits := s.permits - 1
            requests := s.requests.set r { q with pc := .dispatch } }
        else none
      | _ => none
  | .advance r =>
    match s.requests[r]? with
    | none => none
    | some q =>
      match s.host.advance schema q with
      | none => none
      | some (host, pc) =>
        some { s with host := host, requests := s.requests.set r { q with pc := pc } }
  | .requestUserPermission r permId =>
    match s.requests[r]? with
    | none => none
    | some q =>
      match q.pc with
      | .requestUserPermission purpose =>
        match s.host.perms.step (.request permId purpose.method (purpose.description schema)) with
        | none => none
        | some perms =>
          let call := s.host.perms.calls.length
          some { s with
            host := { s.host with perms := perms }
            requests := s.requests.set r
              { q with asked := some call, pc := .awaitPermission purpose call } }
      | _ => none
  | .spawn r outcome =>
    match s.requests[r]? with
    | none => none
    | some q =>
      match q.pc with
      | .spawn _ _ =>
        match outcome with
        | .error e => some
          { s with
            requests := s.requests.set r
              { q with pc := fail schema ⟨-32002, "Terminal spawn failed: " ++ e⟩ } }
        | .ok terminalId => some
          { s with
            host := { s.host with managed := s.host.managed ++ [.spawned] }
            requests := s.requests.set r
              { q with pc := .insertTerminal s.host.managed.length terminalId } }
      | _ => none
  | .reply r =>
    match s.requests[r]? with
    | none => none
    | some q =>
      match q.pc with
      | .respond result => some
        { s with
          permits := s.permits + 1
          requests := s.requests.set r { q with pc := .done result } }
      | _ => none
  | .permission action =>
    match action with
    | .request _ _ _ => none
    | .advance _ | .timeout _ | .respondPermission _ _ | .cancelAllPending =>
      match s.host.perms.step action with
      | none => none
      | some perms => some { s with host := { s.host with perms := perms } }
  | .changeFiles fs => some { s with host := { s.host with fs := fs } }
  | .drain terminal output truncated =>
    match s.host.managed[terminal]? with
    | none => none
    | some t =>
      if t.supervised ∧ t.exitStatus = none then some
        { s with host := s.host.updateTerminal terminal fun t =>
            { t with output := output, truncated := truncated } }
      else none
  | .exit terminal =>
    match s.host.managed[terminal]? with
    | none => none
    | some t =>
      if t.running then some
        { s with host := s.host.updateTerminal terminal fun t => { t with running := false } }
      else none
  | .storeExit terminal exitStatus =>
    match s.host.managed[terminal]? with
    | none => none
    | some t =>
      if t.supervised ∧ t.running = false ∧ t.exitStatus = none then some
        { s with host := s.host.updateTerminal terminal fun t =>
            { t with exitStatus := some exitStatus } }
      else none

end Handlers

def Host.running (c : Host) (terminal : ℕ) : Bool :=
  c.managed[terminal]?.any ManagedTerminal.running

inductive Moves {Value : Type} (schema : Schema Value) (s : Sys Value) (r : ℕ)
    (q : AgentRequest Value) : Action Value → Host → ℕ → AgentRequest Value → Prop
  | acquire (hpc : q.pc = .acquire) (hfree : 0 < s.permits) :
    Moves schema s r q (.acquire r) s.host (s.permits - 1) { q with pc := .dispatch }
  | advance {host : Host} {pc : HandlerPc} (h : s.host.advance schema q = some (host, pc)) :
    Moves schema s r q (.advance r) host s.permits { q with pc := pc }
  | ask {purpose : Purpose} {permId : String} {perms : Permissions.Sys}
    (hpc : q.pc = .requestUserPermission purpose)
    (h : s.host.perms.step (.request permId purpose.method (purpose.description schema)) =
      some perms) :
    Moves schema s r q (.requestUserPermission r permId) { s.host with perms := perms } s.permits
      { q with
        asked := some s.host.perms.calls.length
        pc := .awaitPermission purpose s.host.perms.calls.length }
  | spawnFailed {req : CreateTerminalRequest} {cwd : Path} {e : String}
    (hpc : q.pc = .spawn req cwd) :
    Moves schema s r q (.spawn r (.error e)) s.host s.permits
      { q with pc := fail schema ⟨-32002, "Terminal spawn failed: " ++ e⟩ }
  | spawned {req : CreateTerminalRequest} {cwd : Path} {terminalId : String}
    (hpc : q.pc = .spawn req cwd) :
    Moves schema s r q (.spawn r (.ok terminalId))
      { s.host with managed := s.host.managed ++ [.spawned] } s.permits
      { q with pc := .insertTerminal s.host.managed.length terminalId }
  | reply {result : Except String Response} (hpc : q.pc = .respond result) :
    Moves schema s r q (.reply r) s.host (s.permits + 1) { q with pc := .done result }

inductive Outside {Value : Type} (c : Host) : Action Value → Host → Prop
  | permission {action : Permissions.Action} {perms : Permissions.Sys}
    (h : c.perms.step action = some perms) :
    Outside c (.permission action) { c with perms := perms }
  | changeFiles (fs : FileSystem) : Outside c (.changeFiles fs) { c with fs := fs }
  | exit (terminal : ℕ) :
    Outside c (.exit terminal) (c.updateTerminal terminal fun t => { t with running := false })
  | terminal {a : Action Value} {terminal : ℕ} {f : ManagedTerminal → ManagedTerminal}
    (hf : ∀ t, (f t).running = t.running)
    (hs : ∀ t, c.managed[terminal]? = some t → t.running = true →
      (f t).exitStatus = t.exitStatus)
    (ha : ∀ fs, a ≠ .changeFiles fs) : Outside c a (c.updateTerminal terminal f)

section Steps
variable {Value : Type} {schema : Schema Value} {s s' : Sys Value} {a : Action Value}
  {c c' : Host} {q : AgentRequest Value} {pc : HandlerPc} {r terminal : ℕ}

theorem Sys.step_advance (h : s.step schema (.advance r) = some s') :
    ∃ q host pc, s.requests[r]? = some q ∧ s.host.advance schema q = some (host, pc) ∧
      s' = { s with host := host, requests := s.requests.set r { q with pc := pc } } := by
  simp only [step] at h
  split at h
  · cases h
  · next q hq =>
    split at h
    · cases h
    · next host pc hadv => exact ⟨q, host, pc, hq, hadv, (Option.some.inj h).symm⟩

def Action.byHandler : Action Value → Bool
  | .arrive .. | .acquire _ | .advance _ | .requestUserPermission .. | .spawn .. | .reply _ => true
  | .permission _ | .changeFiles _ | .drain .. | .exit _ | .storeExit .. => false

theorem Sys.step_byHandler (ha : a.byHandler = true) (h : s.step schema a = some s') :
    (∃ method params, a = .arrive method params ∧
      s' = { s with requests := s.requests ++ [⟨method, params, none, .acquire⟩] }) ∨
    ∃ r q host permits q', s.requests[r]? = some q ∧ Moves schema s r q a host permits q' ∧
      s' = ⟨host, permits, s.requests.set r q'⟩ := by
  cases a with
  | arrive method params => exact .inl ⟨method, params, rfl, (Option.some.inj h).symm⟩
  | acquire r =>
    simp only [step] at h
    split at h
    · cases h
    · next q hq =>
      split at h
      · next hpc =>
        split at h
        · next hfree =>
          cases h
          exact .inr ⟨r, q, _, _, _, hq, .acquire hpc hfree, rfl⟩
        · cases h
      · cases h
  | advance r =>
    obtain ⟨q, host, pc, hq, hadv, rfl⟩ := step_advance h
    exact .inr ⟨r, q, _, _, _, hq, .advance hadv, rfl⟩
  | requestUserPermission r permId =>
    simp only [step] at h
    split at h
    · cases h
    · next q hq =>
      split at h
      · next purpose hpc =>
        split at h
        · cases h
        · next perms hstep =>
          cases h
          exact .inr ⟨r, q, _, _, _, hq, .ask hpc hstep, rfl⟩
      · cases h
  | spawn r outcome =>
    simp only [step] at h
    split at h
    · cases h
    · next q hq =>
      split at h
      · next req cwd hpc =>
        cases outcome with
        | error e =>
          cases h
          exact .inr ⟨r, q, _, _, _, hq, .spawnFailed hpc, rfl⟩
        | ok terminalId =>
          cases h
          exact .inr ⟨r, q, _, _, _, hq, .spawned hpc, rfl⟩
      · cases h
  | reply r =>
    simp only [step] at h
    split at h
    · cases h
    · next q hq =>
      split at h
      · next result hpc =>
        cases h
        exact .inr ⟨r, q, _, _, _, hq, .reply hpc, rfl⟩
      · cases h
  | permission | changeFiles | drain | exit | storeExit => cases ha

theorem Sys.step_outside (ha : a.byHandler = false) (h : s.step schema a = some s') :
    ∃ host, Outside s.host a host ∧ s' = { s with host := host } := by
  cases a with
  | arrive | acquire | advance | requestUserPermission | spawn | reply => cases ha
  | permission action =>
    simp only [step] at h
    split at h
    · cases h
    all_goals
      split at h
      · cases h
      · next perms hstep =>
        cases h
        exact ⟨_, .permission hstep, rfl⟩
  | changeFiles fs =>
    cases h
    exact ⟨_, .changeFiles fs, rfl⟩
  | drain terminal output truncated =>
    simp only [step] at h
    split at h
    · cases h
    · split at h
      · cases h
        refine ⟨_, .terminal ?_ ?_ nofun, rfl⟩
        · exact fun _ => rfl
        · exact fun _ _ _ => rfl
      · cases h
  | exit terminal =>
    simp only [step] at h
    split at h
    · cases h
    · split at h
      · cases h
        exact ⟨_, .exit terminal, rfl⟩
      · cases h
  | storeExit terminal exitStatus =>
    simp only [step] at h
    split at h
    · cases h
    · next t ht =>
      split at h
      · next hended =>
        cases h
        refine ⟨_, .terminal ?_ ?_ nofun, rfl⟩
        · exact fun _ => rfl
        · intro u hu hrun
          cases ht.symm.trans hu
          rw [hended.2.1] at hrun
          cases hrun
      · cases h

theorem Sys.step_cases (h : s.step schema a = some s') :
    (∃ method params, a = .arrive method params ∧
      s' = { s with requests := s.requests ++ [⟨method, params, none, .acquire⟩] }) ∨
    (∃ r q host permits q', s.requests[r]? = some q ∧ Moves schema s r q a host permits q' ∧
      s' = ⟨host, permits, s.requests.set r q'⟩) ∨
    ∃ host, Outside s.host a host ∧ s' = { s with host := host } := by
  cases ha : a.byHandler with
  | true => exact or_assoc.mp (.inl (step_byHandler ha h))
  | false => exact .inr (.inr (step_outside ha h))

theorem Host.length_updateTerminal {f : ManagedTerminal → ManagedTerminal} :
    (c.updateTerminal terminal f).managed.length = c.managed.length :=
  List.length_modify ..

theorem Host.managed_update {f : ManagedTerminal → ManagedTerminal} {j : ℕ} {t : ManagedTerminal}
    (h : (c.updateTerminal terminal f).managed[j]? = some t) :
    ∃ u, c.managed[j]? = some u ∧ (terminal = j ∧ t = f u ∨ terminal ≠ j ∧ t = u) := by
  simp only [updateTerminal, List.getElem?_modify] at h
  obtain ⟨u, hu, rfl⟩ := Option.map_eq_some_iff.mp h
  refine ⟨u, hu, ?_⟩
  by_cases hj : terminal = j
  · exact .inl ⟨hj, by simp [hj]⟩
  · exact .inr ⟨hj, by simp [hj]⟩

theorem Host.running_of_update {f : ManagedTerminal → ManagedTerminal}
    (hf : ∀ t, (f t).running = true → t.running = true) {j : ℕ}
    (h : (c.updateTerminal terminal f).running j = true) : c.running j = true := by
  simp only [running, updateTerminal, List.getElem?_modify] at h ⊢
  cases hj : c.managed[j]? with
  | none =>
    rw [hj] at h
    exact h
  | some t =>
    rw [hj] at h
    by_cases hk : terminal = j
    · simp only [hk, ↓reduceIte] at h
      exact hf t h
    · simpa [hk] using h

theorem Host.running_update {f : ManagedTerminal → ManagedTerminal}
    (hf : ∀ t, (f t).running = t.running) (j : ℕ) :
    (c.updateTerminal terminal f).running j = c.running j := by
  simp only [running, updateTerminal, List.getElem?_modify]
  cases c.managed[j]? with
  | none => rfl
  | some t =>
    by_cases hk : terminal = j
    · simp [hk, hf]
    · simp [hk]

/-- No exit is stored of a process that runs. -/
def Host.Timely (c : Host) : Prop :=
  ∀ (terminal : ℕ) (t : ManagedTerminal), c.managed[terminal]? = some t → t.running = true →
    t.exitStatus = none

theorem Host.Timely.update (h : c.Timely) {f : ManagedTerminal → ManagedTerminal}
    (hf : ∀ t, c.managed[terminal]? = some t → (f t).running = true →
      t.running = true ∧ (f t).exitStatus = t.exitStatus) :
    (c.updateTerminal terminal f).Timely := by
  intro j t ht hrun
  obtain ⟨u, hu, ⟨rfl, rfl⟩ | ⟨-, rfl⟩⟩ := managed_update ht
  · obtain ⟨hold, hsame⟩ := hf u hu hrun
    rw [hsame]
    exact h terminal u hu hold
  · exact h j t hu hrun

theorem ManagedTerminal.running_kill (t : ManagedTerminal) : t.kill.running = t.running := by
  unfold kill
  split <;> rfl

theorem ManagedTerminal.exitStatus_kill (t : ManagedTerminal) :
    t.kill.exitStatus = t.exitStatus := by
  unfold kill
  split <;> rfl

structure Kept (c c' : Host) (q : AgentRequest Value) : Prop where
  handler : c'.handler = c.handler
  perms : c'.perms = c.perms
  length : c'.managed.length = c.managed.length
  running : ∀ terminal, c'.running terminal = c.running terminal
  entries : ∀ e ∈ c'.terminals, e ∈ c.terminals ∨ q.pc = .insertTerminal e.2 e.1
  files : c'.fs = c.fs ∨ ∃ path content, q.pc = .writeFile path content
  timely : c.Timely → c'.Timely

theorem Kept.refl (c : Host) (q : AgentRequest Value) : Kept c c q :=
  ⟨rfl, rfl, rfl, fun _ => rfl, fun _ => .inl, .inl rfl, id⟩

theorem Host.handleAgentRequest_kept {method : String} {params : Value} :
    Kept c (c.handleAgentRequest schema method params).1 q := by
  unfold handleAgentRequest
  split
  case h_7 =>
    exact ⟨rfl, rfl, rfl, fun _ => rfl, fun e he => .inl (List.mem_filter.mp he).1, .inl rfl, id⟩
  all_goals exact .refl c q

theorem Host.advance_kept (h : c.advance schema q = some (c', pc)) : Kept c c' q := by
  unfold advance at h
  split at h
  case h_1 =>
    obtain rfl : _ = c' := congrArg Prod.fst (Option.some.inj h)
    exact handleAgentRequest_kept
  case h_4 path content hpc =>
    simp only [writeFile] at h
    split at h
    · cases h
      exact .refl c q
    · cases h
      exact ⟨rfl, rfl, rfl, fun _ => rfl, fun _ => .inl, .inr ⟨path, content, hpc⟩, id⟩
  case h_6 terminal terminalId hpc =>
    cases h
    refine ⟨rfl, rfl, length_updateTerminal, running_update fun _ => rfl, fun e he => ?_, .inl rfl,
      fun ht => ht.update fun _ _ hrun => ⟨hrun, rfl⟩⟩
    rcases List.mem_cons.mp he with rfl | he
    · exact .inr hpc
    · exact .inl (List.mem_filter.mp he).1
  case h_9 =>
    cases h
    refine ⟨rfl, rfl, length_updateTerminal, running_update ManagedTerminal.running_kill,
      fun _ => .inl, .inl rfl, fun ht => ht.update fun t _ hrun => ⟨?_, ?_⟩⟩
    · rwa [ManagedTerminal.running_kill] at hrun
    · exact ManagedTerminal.exitStatus_kill t
  all_goals
    repeat' split at h
    all_goals
      cases h
      try exact .refl c q

end Steps

def acpMethodNames : ClientMethodNames :=
  ⟨"session/request_permission", "fs/read_text_file", "fs/write_text_file", "terminal/create",
    "terminal/output", "terminal/release", "terminal/wait_for_exit", "terminal/kill"⟩

def invalidParams {α : Type} : Except String α := .error "invalid params"

def plainSchema : Schema ClientRequest where
  names := acpMethodNames
  requestPermission
    | .requestPermission req => .ok req
    | _ => invalidParams
  readTextFile
    | .readTextFile path => .ok path
    | _ => invalidParams
  writeTextFile
    | .writeTextFile path content => .ok (path, content)
    | _ => invalidParams
  createTerminal
    | .createTerminal req => .ok req
    | _ => invalidParams
  terminalOutput
    | .terminalOutput terminalId => .ok terminalId
    | _ => invalidParams
  releaseTerminal
    | .releaseTerminal terminalId => .ok terminalId
    | _ => invalidParams
  waitForTerminalExit
    | .waitForTerminalExit terminalId => .ok terminalId
    | _ => invalidParams
  killTerminal
    | .killTerminal terminalId => .ok terminalId
    | _ => invalidParams
  errorText := RpcError.message
  displayPath path := String.join (path.comps.map fun
    | .name n => "/" ++ n
    | .up => "/.."
    | .cur => "/."
    | .empty => "/")
  debugArgs args := "[" ++ ", ".intercalate (args.map fun arg => "\"" ++ arg ++ "\"") ++ "]"

def projectFiles : FileSystem :=
  FileSystem.ofEntries [(["proj"], .dir)] [] 40 (by decide)

end Ccgonext.AgentRequests
