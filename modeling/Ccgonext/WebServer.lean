import Ccgonext.Indexes
import Ccgonext.Origin

/-!
# The requests of the web server

`auth_middleware` of `web/auth.rs` and the four handlers of `web/handlers.rs`, with
`list_sessions` and `get_all_status` of `session/mod.rs`, over the session manager.
Any number of requests are under way, and the manager takes its other steps in
between. A request comes with its headers and what the router and the extractors
made of its path and body; one whose client hangs up is left out.

A handler calls the manager as any other caller does and waits for the call to
return. The keys of the configuration and a snapshot of the registry come in an
order that the step is given. `responded` records the calls of
`respond_to_permission`.
-/

namespace Ccgonext.WebServer
open Lib Text Session Manager Indexes Origin

structure Headers where
  origin : Option HeaderValue
  authorization : Option HeaderValue

/-- The constant part of `AppState`; the manager was made with the same agents. -/
structure Config where
  agents : List (String × ℕ)
  projectRoot : String
  defaultTimeout : ℕ
  authToken : Option (List Char)
  serverPort : UInt16
  deriving DecidableEq, Repr

def validateBearerToken (authorization : Option HeaderValue) (expectedToken : List Char) : Bool :=
  match authorization.bind HeaderValue.toStr with
  | none => false
  | some auth =>
    match stripPrefix "Bearer ".toList auth with
    | none => false
    | some token => token = expectedToken

inductive Refusal
  | forbidden
  | unauthorized
  deriving DecidableEq, Repr

def authMiddleware (cfg : Config) (headers : Headers) : Option Refusal :=
  if validateOrigin headers.origin cfg.serverPort then
    match cfg.authToken with
    | some expectedToken =>
      if validateBearerToken headers.authorization expectedToken then none else some .unauthorized
    | none => none
  else some .forbidden

inductive Call
  | getStatus
  | listSessions
  | promptSession (sessionId : ObjId) (text : List Char) (timeout : Option ℕ)
  | permissionResponse (sessionId : ObjId) (id : String) (granted : Bool)
  deriving DecidableEq, Repr

def Call.sessionId : Call → Option ObjId
  | .promptSession id _ _ | .permissionResponse id _ _ => some id
  | .getStatus | .listSessions => none

structure Request where
  headers : Headers
  call : Call

structure SessionInfo where
  id : ObjId
  agent : String
  cwd : String
  processState : String
  turnState : String
  deriving DecidableEq, Repr

structure AgentStatus where
  name : String
  processState : String
  turnState : String
  deriving DecidableEq, Repr

inductive Reply
  | refused (refusal : Refusal)
  | notFound
  | internalServerError
  | status (agents : List AgentStatus) (projectRoot : String)
  | sessions (sessions : List SessionInfo)
  | prompt (success : Bool) (response error : Option String)
  | permission (success : Bool)
  deriving DecidableEq, Repr

structure Row where
  key : SessionKey
  obj : ObjId
  process : ProcessState
  turn : TurnState
  deriving DecidableEq, Repr

def Row.info (row : Row) : SessionInfo :=
  ⟨row.obj, row.key.agent, row.key.cwd, row.process.toText, row.turn.toText⟩

def Row.status (row : Row) : AgentStatus := ⟨row.key.agent, row.process.toText, row.turn.toText⟩

inductive Pc
  | authorize
  | nextAgent (todo : List String)
  | getOrCreate (agent : String) (g : ℕ) (todo : List String)
  | snapshot
  | readProcess (todo : Registry) (rows : List Row)
  | readTurn (key : SessionKey) (obj : ObjId) (process : ProcessState) (todo : Registry)
      (rows : List Row)
  | getById
  | lookUp (g : ℕ)
  | respond (obj : ObjId)
  | ask (obj : ObjId) (i timeout : ℕ)
  | replied (reply : Reply)
  deriving DecidableEq, Repr

structure Handler where
  request : Request
  pc : Pc

structure Server where
  r : Registrar
  handlers : List Handler
  responded : List (ObjId × String × Bool)

inductive Action
  | manager (a : Manager.Action)
  | receive (request : Request)
  | handle (i : ℕ) (keys : List String) (order : Registry)

def promptError (text : List Char) (timeout : Option ℕ) : Option String :=
  if (trim text).isEmpty then some "prompt text cannot be empty"
  else if timeout = some 0 then some "timeout must be greater than zero"
  else none

def Call.Seeks (call : Call) (id : ObjId) : Prop :=
  call.sessionId = some id ∧
    ∀ id' text timeout, call = .promptSession id' text timeout → promptError text timeout = none

def promptReply : AskResult → Reply
  | .ok text => .prompt true (some text) none
  | .err error => .prompt false none (some error.text)

/-- What a listing replies with: `list_sessions` or `get_all_status`. -/
def listReply (cfg : Config) (rows : List Row) : Call → Reply
  | .getStatus => .status (rows.map Row.status) cfg.projectRoot
  | _ => .sessions (rows.map Row.info)

namespace Server

def new (cfg : Config) : Server := ⟨.new cfg.agents, [], []⟩

def callManager (s : Server) (a : Manager.Action) (pc : Pc) : Option (Server × Pc) :=
  (s.r.step (.manager a)).map fun r => ({ s with r := r }, pc)

def route (cfg : Config) (s : Server) (keys : List String) : Call → Option (Server × Pc)
  | .getStatus => some (s, .snapshot)
  | .listSessions =>
    if keys.Perm (cfg.agents.map Prod.fst) then some (s, .nextAgent keys) else none
  | .promptSession _ text timeout =>
    match promptError text timeout with
    | some error => some (s, .replied (.prompt false none (some error)))
    | none => some (s, .getById)
  | .permissionResponse .. => some (s, .getById)

def found (cfg : Config) (s : Server) (g : ℕ) (obj : ObjId) : Call → Option (Server × Pc)
  | .promptSession _ _ timeout =>
    match s.r.m.objs[obj]? with
    | none => none
    | some o =>
      s.callManager (.ask g) (.ask obj o.sys.asks.length (timeout.getD cfg.defaultTimeout))
  | .permissionResponse _ _ _ => some (s, .respond obj)
  | .getStatus | .listSessions => none

def handleStep (cfg : Config) (s : Server) (keys : List String) (order : Registry)
    (request : Request) : Pc → Option (Server × Pc)
  | .authorize =>
    match authMiddleware cfg request.headers with
    | some refusal => some (s, .replied (.refused refusal))
    | none => s.route cfg keys request.call
  | .nextAgent [] => some (s, .snapshot)
  | .nextAgent (agent :: todo) =>
    s.callManager (.getOrCreate ⟨agent, cfg.projectRoot⟩)
      (.getOrCreate agent s.r.m.gets.length todo)
  | .getOrCreate _ g todo =>
    match s.r.m.gets[g]? with
    | some (.returned _) => some (s, .nextAgent todo)
    | some (.failed _) => some (s, .replied .internalServerError)
    | _ => none
  | .snapshot =>
    if s.r.m.writer = none ∧ order.Perm s.r.m.sessions then some (s, .readProcess order [])
    else none
  | .readProcess [] rows => some (s, .replied (listReply cfg rows request.call))
  | .readProcess ((key, obj) :: todo) rows =>
    match s.r.m.objs[obj]? with
    | none => none
    | some o => some (s, .readTurn key obj o.sys.session.processState todo rows)
  | .readTurn key obj process todo rows =>
    match s.r.m.objs[obj]? with
    | none => none
    | some o => some
      (s, .readProcess todo (rows ++ [⟨key, obj, process, o.sys.session.turnState⟩]))
  | .getById =>
    match request.call with
    | .promptSession id _ _ | .permissionResponse id _ _ =>
      s.callManager (.getById id) (.lookUp s.r.m.gets.length)
    | .getStatus | .listSessions => none
  | .lookUp g =>
    match s.r.m.gets[g]? with
    | some (.returned obj) => s.found cfg g obj request.call
    | some .missing => some (s, .replied .notFound)
    | _ => none
  | .respond obj =>
    match request.call with
    | .permissionResponse _ id granted => some
      ({ s with responded := s.responded ++ [(obj, id, granted)] }, .replied (.permission true))
    | _ => none
  | .ask obj i _ =>
    match (s.r.m.objs[obj]?.bind fun o => o.sys.asks[i]?) with
    | some (.returned result) => some (s, .replied (promptReply result))
    | _ => none
  | .replied _ => none

def step (cfg : Config) (s : Server) : Action → Option Server
  | .manager a => (s.r.step (.manager a)).map fun r => { s with r := r }
  | .receive request => some { s with handlers := s.handlers ++ [⟨request, .authorize⟩] }
  | .handle i keys order =>
    match s.handlers[i]? with
    | none => none
    | some h =>
      match s.handleStep cfg keys order h.request h.pc with
      | none => none
      | some (s, pc) => some { s with handlers := s.handlers.set i { h with pc := pc } }

section Steps
variable {cfg : Config} {s s' : Server} {keys : List String} {order : Registry}
  {request : Request} {pc pc' : Pc}

/-- What the next step of a handler does to the manager and to itself. -/
inductive Handles (cfg : Config) (s : Server) (request : Request) : Pc → Server → Pc → Prop
  | refused {refusal : Refusal} (hauth : authMiddleware cfg request.headers = some refusal) :
      Handles cfg s request .authorize s (.replied (.refused refusal))
  | status (hauth : authMiddleware cfg request.headers = none)
      (hcall : request.call = .getStatus) : Handles cfg s request .authorize s .snapshot
  | lists {keys : List String} (hauth : authMiddleware cfg request.headers = none)
      (hcall : request.call = .listSessions) (hkeys : keys.Perm (cfg.agents.map Prod.fst)) :
      Handles cfg s request .authorize s (.nextAgent keys)
  | rejects {id : ObjId} {text : List Char} {timeout : Option ℕ} {error : String}
      (hauth : authMiddleware cfg request.headers = none)
      (hcall : request.call = .promptSession id text timeout)
      (herror : promptError text timeout = some error) :
      Handles cfg s request .authorize s (.replied (.prompt false none (some error)))
  | seeks {id : ObjId} (hauth : authMiddleware cfg request.headers = none)
      (hcall : request.call.Seeks id) : Handles cfg s request .authorize s .getById
  | created : Handles cfg s request (.nextAgent []) s .snapshot
  | creates {agent : String} {todo : List String} {r : Registrar}
      (hr : s.r.step (.manager (.getOrCreate ⟨agent, cfg.projectRoot⟩)) = some r) :
      Handles cfg s request (.nextAgent (agent :: todo)) { s with r := r }
        (.getOrCreate agent s.r.m.gets.length todo)
  | creating {agent : String} {g : ℕ} {todo : List String} {obj : ObjId}
      (hg : s.r.m.gets[g]? = some (.returned obj)) :
      Handles cfg s request (.getOrCreate agent g todo) s (.nextAgent todo)
  | fails {agent : String} {g : ℕ} {todo : List String} {message : String}
      (hg : s.r.m.gets[g]? = some (.failed message)) :
      Handles cfg s request (.getOrCreate agent g todo) s (.replied .internalServerError)
  | snapshots {order : Registry} (hfree : s.r.m.writer = none)
      (horder : order.Perm s.r.m.sessions) :
      Handles cfg s request .snapshot s (.readProcess order [])
  | listed {rows : List Row} :
      Handles cfg s request (.readProcess [] rows) s (.replied (listReply cfg rows request.call))
  | readsProcess {key : SessionKey} {obj : ObjId} {o : Obj} {todo : Registry} {rows : List Row}
      (ho : s.r.m.objs[obj]? = some o) :
      Handles cfg s request (.readProcess ((key, obj) :: todo) rows) s
        (.readTurn key obj o.sys.session.processState todo rows)
  | readsTurn {key : SessionKey} {obj : ObjId} {o : Obj} {process : ProcessState}
      {todo : Registry} {rows : List Row} (ho : s.r.m.objs[obj]? = some o) :
      Handles cfg s request (.readTurn key obj process todo rows) s
        (.readProcess todo (rows ++ [⟨key, obj, process, o.sys.session.turnState⟩]))
  | finds {id : ObjId} {r : Registrar} (hcall : request.call.sessionId = some id)
      (hr : s.r.step (.manager (.getById id)) = some r) :
      Handles cfg s request .getById { s with r := r } (.lookUp s.r.m.gets.length)
  | missing {g : ℕ} (hg : s.r.m.gets[g]? = some .missing) :
      Handles cfg s request (.lookUp g) s (.replied .notFound)
  | asks {g : ℕ} {obj id : ObjId} {o : Obj} {text : List Char} {timeout : Option ℕ}
      {r : Registrar} (hg : s.r.m.gets[g]? = some (.returned obj))
      (hcall : request.call = .promptSession id text timeout) (ho : s.r.m.objs[obj]? = some o)
      (hr : s.r.step (.manager (.ask g)) = some r) :
      Handles cfg s request (.lookUp g) { s with r := r }
        (.ask obj o.sys.asks.length (timeout.getD cfg.defaultTimeout))
  | responds {g : ℕ} {obj id : ObjId} {permission : String} {granted : Bool}
      (hg : s.r.m.gets[g]? = some (.returned obj))
      (hcall : request.call = .permissionResponse id permission granted) :
      Handles cfg s request (.lookUp g) s (.respond obj)
  | relays {obj id : ObjId} {permission : String} {granted : Bool}
      (hcall : request.call = .permissionResponse id permission granted) :
      Handles cfg s request (.respond obj)
        { s with responded := s.responded ++ [(obj, permission, granted)] }
        (.replied (.permission true))
  | answers {obj : ObjId} {i timeout : ℕ} {o : Obj} {result : AskResult}
      (ho : s.r.m.objs[obj]? = some o) (hi : o.sys.asks[i]? = some (.returned result)) :
      Handles cfg s request (.ask obj i timeout) s (.replied (promptReply result))

theorem callManager_eq {a : Manager.Action} {pc : Pc} (h : s.callManager a pc = some (s', pc')) :
    ∃ r, s.r.step (.manager a) = some r ∧ s' = { s with r := r } ∧ pc' = pc := by
  obtain ⟨r, hr, heq⟩ := Option.map_eq_some_iff.mp h
  cases heq
  exact ⟨r, hr, rfl, rfl⟩

theorem route_cases (hauth : authMiddleware cfg request.headers = none)
    (h : s.route cfg keys request.call = some (s', pc)) :
    Handles cfg s request .authorize s' pc := by
  cases hcall : request.call with
  | getStatus =>
    rw [hcall] at h
    cases h
    exact .status hauth hcall
  | listSessions =>
    rw [hcall] at h
    simp only [route] at h
    split at h
    · next hkeys =>
      cases h
      exact .lists hauth hcall hkeys
    · cases h
  | promptSession id text timeout =>
    rw [hcall] at h
    simp only [route] at h
    split at h
    · next error herror =>
      cases h
      exact .rejects hauth hcall herror
    · next herror =>
      cases h
      have hseeks : request.call.Seeks id := by
        refine ⟨congrArg Call.sessionId hcall, fun id' text' timeout' heq => ?_⟩
        cases hcall.symm.trans heq
        exact herror
      exact .seeks hauth hseeks
  | permissionResponse id permission granted =>
    rw [hcall] at h
    cases h
    have hseeks : request.call.Seeks id := by
      refine ⟨congrArg Call.sessionId hcall, fun id' text' timeout' heq => ?_⟩
      cases hcall.symm.trans heq
    exact .seeks hauth hseeks

theorem found_cases {g : ℕ} {obj : ObjId} (hg : s.r.m.gets[g]? = some (.returned obj))
    (h : s.found cfg g obj request.call = some (s', pc)) :
    Handles cfg s request (.lookUp g) s' pc := by
  cases hcall : request.call with
  | promptSession id text timeout =>
    rw [hcall] at h
    simp only [found] at h
    split at h
    · cases h
    · next o ho =>
      obtain ⟨r, hr, rfl, rfl⟩ := callManager_eq h
      exact .asks hg hcall ho hr
  | permissionResponse id permission granted =>
    rw [hcall] at h
    cases h
    exact .responds hg hcall
  | getStatus | listSessions =>
    rw [hcall] at h
    cases h

theorem handleStep_cases (h : s.handleStep cfg keys order request pc = some (s', pc')) :
    Handles cfg s request pc s' pc' := by
  cases pc with
  | authorize =>
    simp only [handleStep] at h
    split at h
    · next refusal hauth =>
      cases h
      exact .refused hauth
    · next hauth => exact route_cases hauth h
  | nextAgent todo =>
    cases todo with
    | nil =>
      cases h
      exact .created
    | cons agent todo =>
      obtain ⟨r, hr, rfl, rfl⟩ := callManager_eq h
      exact .creates hr
  | getOrCreate agent g todo =>
    simp only [handleStep] at h
    split at h
    · next obj hg =>
      cases h
      exact .creating hg
    · next message hg =>
      cases h
      exact .fails hg
    · cases h
  | snapshot =>
    simp only [handleStep] at h
    split at h
    · next hfree =>
      cases h
      exact .snapshots hfree.1 hfree.2
    · cases h
  | readProcess todo rows =>
    cases todo with
    | nil =>
      cases h
      exact .listed
    | cons e todo =>
      obtain ⟨key, obj⟩ := e
      simp only [handleStep] at h
      split at h
      · cases h
      · next o ho =>
        cases h
        exact .readsProcess ho
  | readTurn key obj process todo rows =>
    simp only [handleStep] at h
    split at h
    · cases h
    · next o ho =>
      cases h
      exact .readsTurn ho
  | getById =>
    simp only [handleStep] at h
    split at h
    · next id text timeout hcall =>
      obtain ⟨r, hr, rfl, rfl⟩ := callManager_eq h
      exact .finds (by rw [hcall]; rfl) hr
    · next id permission granted hcall =>
      obtain ⟨r, hr, rfl, rfl⟩ := callManager_eq h
      exact .finds (by rw [hcall]; rfl) hr
    · cases h
    · cases h
  | lookUp g =>
    simp only [handleStep] at h
    split at h
    · next obj hg => exact found_cases hg h
    · next hg =>
      cases h
      exact .missing hg
    · cases h
  | respond obj =>
    simp only [handleStep] at h
    split at h
    · next id permission granted hcall =>
      cases h
      exact .relays hcall
    · cases h
  | ask obj i timeout =>
    simp only [handleStep] at h
    split at h
    · next result hresult =>
      cases h
      obtain ⟨o, ho, hi⟩ := Option.bind_eq_some_iff.mp hresult
      exact .answers ho hi
    · cases h
  | replied reply => cases h

theorem Handles.handlers_eq (h : Handles cfg s request pc s' pc') : s'.handlers = s.handlers := by
  cases h <;> rfl

inductive Steps (cfg : Config) (s : Server) : Action → Server → Prop
  | manager {a : Manager.Action} {r : Registrar} (hr : s.r.step (.manager a) = some r) :
      Steps cfg s (.manager a) { s with r := r }
  | receive (request : Request) :
      Steps cfg s (.receive request)
        { s with handlers := s.handlers ++ [⟨request, .authorize⟩] }
  | handle {i : ℕ} {keys : List String} {order : Registry} {h : Handler} {t : Server} {pc : Pc}
      (hh : s.handlers[i]? = some h) (hs : Handles cfg s h.request h.pc t pc) :
      Steps cfg s (.handle i keys order) { t with handlers := s.handlers.set i { h with pc := pc } }

theorem step_cases {a : Action} (h : s.step cfg a = some s') : Steps cfg s a s' := by
  cases a with
  | manager a =>
    obtain ⟨r, hr, rfl⟩ := Option.map_eq_some_iff.mp h
    exact .manager hr
  | receive request =>
    cases h
    exact .receive request
  | handle i keys order =>
    simp only [step] at h
    split at h
    · cases h
    · next hd hh =>
      split at h
      · cases h
      · next t pc hs =>
        cases h
        have hhandles := handleStep_cases hs
        rw [hhandles.handlers_eq]
        exact .handle hh hhandles

end Steps

end Server

end Ccgonext.WebServer
