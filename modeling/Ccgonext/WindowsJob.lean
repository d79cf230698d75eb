import Ccgonext.Lib.JobViews
import Ccgonext.Lib.Runs

/-!
# Agents in job objects

`spawn` of `acp/windows_job.rs` and the `JobOwnedChild` it returns. A function is
the list of the calls it makes, given what the system answers, with the drops of
its locals at its exits. A life is one call of `spawn` and what becomes of it:
the calls that the function in progress has still to make, the wrapper, and the
diagnostic task. The process handle and the pipes of a child are tokio's, which
opens and closes them: a call that takes the process handle names the process. The
lives, the tasks and the processes themselves go on side by
side, call by call. Aborting a task that is in the middle of a poll lets it come
to the end of the poll.
-/

namespace Ccgonext.WindowsJob
open Lib Lib.Runs Lib.JobObjects

variable {η : Type}

abbrev Pid := ℕ
abbrev ExitStatus := ℕ

structure Snapshot (η : Type) where
  handle : η
  pids : List Pid
  deriving DecidableEq, Repr

/-- An entry of the list of a job's processes, and the snapshot that the lookup of
its name gets. -/
structure Member (η : Type) where
  pid : Pid
  snapshot : Option (Snapshot η)
  deriving DecidableEq, Repr

structure ThreadEntry (η : Type) where
  th32OwnerProcessID : Pid
  openThread : Option η
  resumeThread : Bool
  deriving DecidableEq, Repr

/-- What the system answers to one call of `spawn`. There are no `members` where the
query fails. `dropKills` is the kill that dropping the child makes. -/
structure Outcome (η : Type) where
  verbose : Bool
  createJobObject : Option η
  setInformation : Bool
  spawned : Except String Pid
  idKnown : Bool
  handleKnown : Bool
  assigned : Bool
  members : List (Member η)
  snapshot : Option η
  threads : List (ThreadEntry η)
  killed : Bool
  dropKills : Bool
  stdin : Bool
  stdout : Bool
  stderr : Bool
  lastError : String

/-- tokio's child. A kill that succeeds disarms the kill on drop, as does a status. -/
structure Child where
  pid : Pid
  killOnDrop : Bool
  deriving DecidableEq, Repr

structure JobOwnedChild (η : Type) where
  inner : Option Child
  job : Option η
  rootPid : Pid
  exitStatus : Option ExitStatus
  verbose : Bool
  deriving DecidableEq, Repr

def Child.startKill (child : Child) (ok : Bool) : List (Call η) × Child :=
  ([.terminate child.pid ok], { child with killOnDrop := child.killOnDrop && !ok })

def Child.drop (child : Child) (ok : Bool) : List (Call η) :=
  if child.killOnDrop then [.terminate child.pid ok] else []

/-- `Process32FirstW` and `Process32NextW` up to the entry of the process, or to the
call that finds no more. -/
def findProcess (snap : η) (pid : Pid) : List Pid → List (Call η)
  | [] => [.walk snap]
  | entry :: entries => .walk snap :: if entry = pid then [] else findProcess snap pid entries

def lookupProcessName (member : Member η) : List (Call η) :=
  match member.snapshot with
  | none => [.openAux none]
  | some snap =>
    .openAux (some snap.handle) :: findProcess snap.handle member.pid snap.pids ++
      [.close snap.handle .aux]

def slots : ℕ := 128

def logJobMembers (job : η) (members : List (Member η)) : List (Call η) :=
  .query job :: (members.take slots).flatMap lookupProcessName

def createJob (o : Outcome η) : List (Call η) × Except String η :=
  match o.createJobObject with
  | none => ([.createJob none], .error ("CreateJobObjectW failed: " ++ o.lastError))
  | some job =>
    if o.setInformation then ([.createJob (some job), .limit job true], .ok job)
    else ([.createJob (some job), .limit job false, .close job .job],
      .error ("SetInformationJobObject(KILL_ON_JOB_CLOSE) failed: " ++ o.lastError))

def resumeThread (pid : Pid) (entry : ThreadEntry η) : List (Call η) :=
  if entry.th32OwnerProcessID = pid then
    match entry.openThread with
    | none => [.openAux none]
    | some th => [.openAux (some th), .resume th pid entry.resumeThread, .close th .aux]
  else []

def ThreadEntry.resumed (pid : Pid) (entry : ThreadEntry η) : Bool :=
  entry.th32OwnerProcessID = pid && entry.openThread.isSome && entry.resumeThread

def resumeProcessThreads (o : Outcome η) (pid : Pid) : List (Call η) × Except String Unit :=
  match o.snapshot with
  | none => ([.openAux none], .error o.lastError)
  | some snap =>
    -- One `Thread32First`, and a `Thread32Next` after each entry.
    let calls := .openAux (some snap) :: .walk snap ::
      o.threads.flatMap (fun entry => resumeThread pid entry ++ [.walk snap]) ++
        [.close snap .aux]
    if o.threads.countP (ThreadEntry.resumed pid) = 0 then
      (calls, .error s!"no threads resumed for pid {pid}")
    else (calls, .ok ())

def takeStdio (o : Outcome η) : Option String :=
  if !o.stdin then some "stdin not piped"
  else if !o.stdout then some "stdout not piped"
  else if !o.stderr then some "stderr not piped"
  else none

/-- `spawn` with a job and a child in its hands, and the child as it leaves it. -/
def setUp (o : Outcome η) (job : η) (child : Child) : List (Call η) × Child × Option String :=
  if !o.idKnown then ([], child, some "Child PID missing")
  else if !o.handleKnown then ([], child, some "Child handle missing")
  else
    let anyJob := if o.verbose then [.inJob none child.pid] else []
    if !o.assigned then
      let (kill, child') := child.startKill o.killed
      (anyJob ++ .assign job child.pid false :: kill, child',
        some s!"AssignProcessToJobObject failed (Win32 error {o.lastError})")
    else
      let log :=
        if o.verbose then .inJob (some job) child.pid :: logJobMembers job o.members else []
      match resumeProcessThreads o child.pid with
      | (resume, .error e) =>
        let (kill, child') := child.startKill o.killed
        (anyJob ++ .assign job child.pid true :: log ++ resume ++ kill, child',
          some ("resume_process_threads failed: " ++ e))
      | (resume, .ok ()) =>
        (anyJob ++ .assign job child.pid true :: log ++ resume, child, takeStdio o)

/-- At an exit with an error the child is dropped before the guard of the job. -/
def spawn (o : Outcome η) : List (Call η) × Except String (JobOwnedChild η) :=
  match createJob o with
  | (calls, .error e) => (calls, .error e)
  | (calls, .ok job) =>
    let log := if o.verbose then [.query job] else []
    match o.spawned with
    | .error e =>
      (calls ++ log ++ [.spawn none, .close job .job], .error ("Failed to spawn cmd.exe: " ++ e))
    | .ok pid =>
      match setUp o job ⟨pid, true⟩ with
      | (calls', child, some e) =>
        (calls ++ log ++ .spawn (some pid) :: calls' ++ child.drop o.dropKills ++ [.close job .job],
          .error e)
      | (calls', child, none) =>
        (calls ++ log ++ .spawn (some pid) :: calls',
          .ok ⟨some child, some job, pid, none, o.verbose⟩)

namespace JobOwnedChild

def intoInner (c : JobOwnedChild η) : List (Call η) := (c.job.map Call.release).toList

def startKill (c : JobOwnedChild η) (members : List (Member η)) (ok : Bool) : List (Call η) :=
  match c.job with
  | none => []
  | some job => (if c.verbose then logJobMembers job members else []) ++ [.terminateJob job ok]

/-- `Drop`, and then the drop of the field `inner`. -/
def drop (c : JobOwnedChild η) (members : List (Member η)) (killed : Bool) : List (Call η) :=
  (match c.job with
    | none => []
    | some job => (if c.verbose then logJobMembers job members else []) ++ [.close job .job]) ++
  c.inner.elim [] fun child => child.drop killed

def exited (c : JobOwnedChild η) (status : ExitStatus) : JobOwnedChild η :=
  { c with
    inner := c.inner.map fun child => { child with killOnDrop := false }
    exitStatus := some status }

def tryWait (c : JobOwnedChild η) (answer : Except String (Option ExitStatus)) :
    Except String (Option ExitStatus) × JobOwnedChild η :=
  match c.exitStatus with
  | some status => (.ok (some status), c)
  | none =>
    match c.inner with
    | none => (.ok c.exitStatus, c)
    | some _ =>
      match answer with
      | .error e => (.error e, c)
      | .ok none => (.ok none, c)
      | .ok (some status) => (.ok (some status), c.exited status)

def wait (c : JobOwnedChild η) (answer : Except String ExitStatus) :
    Except String ExitStatus × JobOwnedChild η :=
  match c.exitStatus with
  | some status => (.ok status, c)
  | none =>
    match c.inner with
    | none => (.error "child taken", c)
    | some _ =>
      match answer with
      | .error e => (.error e, c)
      | .ok status => (.ok status, c.exited status)

end JobOwnedChild

/-- The diagnostic task: the delays before the polls to come, and what the poll in
progress has still to call. -/
structure Diagnostic (η : Type) where
  job : η
  delays : List ℕ
  todo : List (Call η)
  aborted : Bool
  deriving DecidableEq, Repr

def Diagnostic.new (job : η) : Diagnostic η :=
  ⟨job, [400, 1200, 3000, 6000, 12000, 30000], [], false⟩

def Diagnostic.abort (d : Diagnostic η) : Diagnostic η := { d with aborted := true }

/-- Who has the child: `spawn` until it returns, the wrapper, or after `into_inner`
somebody else, who may drop it. -/
inductive Owner (η : Type)
  | starting (result : Except String (JobOwnedChild η))
  | failed (error : String)
  | owned (child : JobOwnedChild η)
  | taken (child : Option Child)
  | released
  | dropped

structure Life (η : Type) where
  todo : List (Call η)
  owner : Owner η
  diagnostic : Option (Diagnostic η)

inductive Party
  | main (i : ℕ)
  | diagnostic (i : ℕ)
  deriving DecidableEq, Repr

structure Sys (η : Type) where
  machine : Machine η Party
  lives : List (Life η)
  ended : Bool

/-- `event .ended` is the end of the program. -/
inductive Action (η : Type)
  | spawn (o : Outcome η)
  | call (i : ℕ)
  | returned (i : ℕ)
  | startKill (i : ℕ) (members : List (Member η)) (ok : Bool)
  | tryWait (i : ℕ) (answer : Except String (Option ExitStatus))
  | wait (i : ℕ) (answer : Except String ExitStatus)
  | intoInner (i : ℕ)
  | dropInner (i : ℕ) (killed : Bool)
  | drop (i : ℕ) (members : List (Member η)) (killed : Bool)
  | poll (i : ℕ) (members : List (Member η))
  | pollCall (i : ℕ)
  | event (e : Event)

namespace Life

/-- `spawn` returns; in verbose mode it has started the diagnostic task. -/
def returned (life : Life η) : Option (Life η) :=
  match life.todo, life.owner with
  | [], .starting (.error e) => some { life with owner := .failed e }
  | [], .starting (.ok child) =>
    some { life with
      owner := .owned child
      diagnostic := if child.verbose then child.job.map .new else none }
  | _, _ => none

def method (life : Life η) (f : JobOwnedChild η → List (Call η) × Owner η) : Option (Life η) :=
  match life.todo, life.owner with
  | [], .owned child => some { life with todo := (f child).1, owner := (f child).2 }
  | _, _ => none

def abort (life : Life η) : Life η :=
  { life with diagnostic := life.diagnostic.map .abort }

def dropInner (life : Life η) (killed : Bool) : Option (Life η) :=
  match life.todo, life.owner with
  | [], .taken child =>
    some { life with todo := child.elim [] fun c => c.drop killed, owner := .released }
  | _, _ => none

def poll (life : Life η) (members : List (Member η)) : Option (Life η) :=
  match life.diagnostic with
  | some ⟨job, _ :: delays, [], false⟩ =>
    some { life with diagnostic := some ⟨job, delays, logJobMembers job members, false⟩ }
  | _ => none

end Life

namespace Sys

def new : Sys η := ⟨.new, [], false⟩

def setLife (s : Sys η) (i : ℕ) (life : Life η) : Sys η := { s with lives := s.lives.set i life }

def update (s : Sys η) (i : ℕ) (f : Life η → Option (Life η)) : Option (Sys η) :=
  (s.lives[i]?.bind f).map (s.setLife i)

variable [DecidableEq η]

def call (s : Sys η) (i : ℕ) : Option (Sys η) :=
  match s.lives[i]? with
  | some ⟨c :: todo, owner, diagnostic⟩ =>
    (s.machine.call (.main i) c).map fun machine =>
      { s with machine := machine, lives := s.lives.set i ⟨todo, owner, diagnostic⟩ }
  | _ => none

def pollCall (s : Sys η) (i : ℕ) : Option (Sys η) :=
  match s.lives[i]? with
  | some ⟨todo, owner, some ⟨job, delays, c :: rest, aborted⟩⟩ =>
    (s.machine.call (.diagnostic i) c).map fun machine =>
      { s with
        machine := machine
        lives := s.lives.set i ⟨todo, owner, some ⟨job, delays, rest, aborted⟩⟩ }
  | _ => none

def truthful (s : Sys η) (i : ℕ) : Option ExitStatus → Bool
  | none => true
  | some _ =>
    match s.lives[i]? with
    | some ⟨_, .owned child, _⟩ => (s.machine.procs[child.rootPid]?).any fun p => !p.alive
    | _ => false

def program (s : Sys η) : Action η → Option (Sys η)
  | .spawn o =>
    let r := WindowsJob.spawn o
    some { s with lives := s.lives ++ [⟨r.1, .starting r.2, none⟩] }
  | .call i => s.call i
  | .returned i => s.update i Life.returned
  | .startKill i members ok =>
    s.update i fun life => life.method fun child => (child.startKill members ok, .owned child)
  | .tryWait i answer =>
    if s.truthful i answer.toOption.join then
      s.update i fun life => life.method fun child => ([], .owned (child.tryWait answer).2)
    else none
  | .wait i answer =>
    if s.truthful i answer.toOption then
      s.update i fun life => life.method fun child => ([], .owned (child.wait answer).2)
    else none
  | .intoInner i =>
    s.update i fun life => (life.method fun child =>
      (child.intoInner, .taken child.inner)).map Life.abort
  | .dropInner i killed => s.update i fun life => life.dropInner killed
  | .drop i members killed =>
    s.update i fun life => (life.method fun child =>
      (child.drop members killed, .dropped)).map Life.abort
  | .poll i members => s.update i fun life => life.poll members
  | .pollCall i => s.pollCall i
  | .event _ => none

def step (s : Sys η) : Action η → Option (Sys η)
  | .event e =>
    (s.machine.event e).map fun machine =>
      { s with machine := machine, ended := s.ended || decide (e = .ended) }
  | a => if s.ended then none else s.program a

section Cases
variable {s s' : Sys η} {i : ℕ} {a : Action η}

theorem call_cases (hs : s.call i = some s') :
    ∃ c todo owner diagnostic machine, s.lives[i]? = some ⟨c :: todo, owner, diagnostic⟩ ∧
      s.machine.call (.main i) c = some machine ∧
      s' = { s with machine := machine, lives := s.lives.set i ⟨todo, owner, diagnostic⟩ } := by
  unfold Sys.call at hs
  split at hs
  case h_2 => cases hs
  next c todo owner diagnostic hlife =>
  obtain ⟨machine, hc, rfl⟩ := Option.map_eq_some_iff.mp hs
  exact ⟨c, todo, owner, diagnostic, machine, hlife, hc, rfl⟩

theorem pollCall_cases (hs : s.pollCall i = some s') :
    ∃ todo owner job delays c rest aborted machine,
      s.lives[i]? = some ⟨todo, owner, some ⟨job, delays, c :: rest, aborted⟩⟩ ∧
      s.machine.call (.diagnostic i) c = some machine ∧
      s' = { s with
        machine := machine
        lives := s.lives.set i ⟨todo, owner, some ⟨job, delays, rest, aborted⟩⟩ } := by
  unfold Sys.pollCall at hs
  split at hs
  case h_2 => cases hs
  next todo owner job delays c rest aborted hlife =>
  obtain ⟨machine, hc, rfl⟩ := Option.map_eq_some_iff.mp hs
  exact ⟨todo, owner, job, delays, c, rest, aborted, machine, hlife, hc, rfl⟩

theorem tryWait_cases {answer : Except String (Option ExitStatus)}
    (hs : s.program (.tryWait i answer) = some s') :
    s.truthful i answer.toOption.join = true ∧
      (s.update i fun life => life.method fun child =>
        ([], .owned (child.tryWait answer).2)) = some s' := by
  simp only [Sys.program] at hs
  split at hs
  case isFalse => cases hs
  next htrue => exact ⟨htrue, hs⟩

theorem wait_cases {answer : Except String ExitStatus}
    (hs : s.program (.wait i answer) = some s') :
    s.truthful i answer.toOption = true ∧
      (s.update i fun life => life.method fun child =>
        ([], .owned (child.wait answer).2)) = some s' := by
  simp only [Sys.program] at hs
  split at hs
  case isFalse => cases hs
  next htrue => exact ⟨htrue, hs⟩

/-- A step of the program starts a life, changes one, or is the next call of one. -/
theorem program_cases (hs : s.program a = some s') :
    (∃ life, s' = { s with lives := s.lives ++ [life] }) ∨ (∃ i f, s.update i f = some s') ∨
      (∃ i, a = .call i ∧ s.call i = some s') ∨ ∃ i, a = .pollCall i ∧ s.pollCall i = some s' := by
  cases a with
  | spawn o =>
    cases hs
    exact .inl ⟨_, rfl⟩
  | call i => exact .inr (.inr (.inl ⟨i, rfl, hs⟩))
  | pollCall i => exact .inr (.inr (.inr ⟨i, rfl, hs⟩))
  | tryWait i answer => exact .inr (.inl ⟨i, _, (tryWait_cases hs).2⟩)
  | wait i answer => exact .inr (.inl ⟨i, _, (wait_cases hs).2⟩)
  | event e => cases hs
  | _ => exact .inr (.inl ⟨_, _, hs⟩)

theorem step_cases (hs : s.step a = some s') :
    (∃ e machine, a = .event e ∧ s.machine.event e = some machine ∧
      s' = { s with machine := machine, ended := s.ended || decide (e = .ended) }) ∨
      s.ended = false ∧ s.program a = some s' := by
  cases a with
  | event e =>
    obtain ⟨machine, hm, rfl⟩ := Option.map_eq_some_iff.mp hs
    exact .inl ⟨e, machine, rfl, hm, rfl⟩
  | _ =>
    simp only [Sys.step] at hs
    split at hs
    · cases hs
    next hend => exact .inr ⟨eq_false_of_ne_true hend, hs⟩

end Cases

end Sys

end Ccgonext.WindowsJob
