import Ccgonext.Session

/-!
# The session manager

`SessionManager` of `session/mod.rs` with the sessions it ever made. A session is
named by the number of sessions made before it, which stands for its uuid as
well. Callers keep the sessions that `get_or_create` and `get_by_id` returned and
ask them, registered or not.

`get_or_create` and `shutdown_all` wait for the lock of `sessions_by_id` while
they hold the write lock of `sessions`; `writer` names the call that does.
`reap_idle` runs in one task, one pass after the other. It collects keys; the
session that was inspected under a key is kept beside it for reference only. A
snapshot or a drain of a hash map may come in any order, which its step is given.

`retired` records the sessions that were taken out of `sessions`, `lastEnd` when
an ask of the session last returned.
-/

namespace Ccgonext.Manager
open Session

structure SessionKey where
  agent : String
  cwd : String
  deriving DecidableEq, Repr

abbrev ObjId := ℕ

structure Obj where
  key : SessionKey
  idleTimeout : ℕ
  sys : Sys
  lastEnd : Option ℕ
  deriving DecidableEq, Repr

def Obj.new (key : SessionKey) (idleTimeout now : ℕ) : Obj := ⟨key, idleTimeout, .new now, none⟩

abbrev Registry := List (SessionKey × ObjId)

inductive GetPc
  | lookup (key : SessionKey)
  | create (key : SessionKey) (idleTimeout : ℕ)
  | insert (key : SessionKey) (obj : ObjId)
  | lookupId (id : ObjId)
  | returned (obj : ObjId)
  | failed (message : String)
  | missing
  deriving DecidableEq, Repr

inductive ReapPc
  | sleep
  | inspect (todo marked : Registry)
  | readTurn (key : SessionKey) (obj : ObjId) (todo marked : Registry)
  | readActivity (key : SessionKey) (obj : ObjId) (todo marked : Registry)
  | elapsed (key : SessionKey) (obj : ObjId) (last : ℕ) (todo marked : Registry)
  | remove (marked : Registry)
  | removeId (obj : ObjId) (marked : Registry)
  | wait (obj : ObjId) (j : ℕ) (marked : Registry)
  deriving DecidableEq, Repr

/-- The keys to reap, with the sessions inspected under them. -/
def ReapPc.marked : ReapPc → Registry
  | .sleep => []
  | .inspect _ marked | .readTurn _ _ _ marked | .readActivity _ _ _ marked
  | .elapsed _ _ _ _ marked | .remove marked | .removeId _ marked | .wait _ _ marked => marked

def ReapPc.removes : ReapPc → Bool
  | .removeId _ _ => true
  | _ => false

inductive AllPc
  | drain
  | clear (drained : List ObjId)
  | next (drained todo : List ObjId)
  | wait (drained : List ObjId) (obj : ObjId) (j : ℕ) (todo : List ObjId)
  | returned (drained : List ObjId)
  deriving DecidableEq, Repr

namespace AllPc

def drained : AllPc → List ObjId
  | .drain => []
  | .clear drained | .next drained _ | .wait drained .. | .returned drained => drained

def todo : AllPc → List ObjId
  | .clear todo | .next _ todo | .wait _ _ _ todo => todo
  | .drain | .returned _ => []

def clears : AllPc → Bool
  | .clear _ => true
  | _ => false

end AllPc

inductive Writer
  | get (g : ℕ)
  | all (a : ℕ)
  deriving DecidableEq, Repr

structure SessionManager where
  configs : List (String × ℕ)
  now : ℕ
  objs : List Obj
  sessions : Registry
  sessionsById : List ObjId
  writer : Option Writer
  gets : List GetPc
  reaper : ReapPc
  shutdownAlls : List AllPc
  retired : List ObjId
  deriving DecidableEq, Repr

inductive Action
  | getOrCreate (key : SessionKey)
  | getById (id : ObjId)
  | getStep (g : ℕ)
  | ask (g : ℕ)
  | askStep (o : ObjId) (i : ℕ) (out : Outcome)
  | shutdownStep (o : ObjId) (j : ℕ)
  | reapStep (order : Registry)
  | shutdownAll
  | shutdownAllStep (a : ℕ) (order : Registry)
  | tick (d : ℕ)
  deriving DecidableEq, Repr

/-- The clock that `touch` reads is the manager's. -/
def onTime (now : ℕ) : Outcome → Bool
  | .now time => time = now
  | _ => true

def ends : AskPc → Bool
  | .busy | .returning _ => true
  | _ => false

namespace SessionManager

def new (configs : List (String × ℕ)) : SessionManager :=
  ⟨configs, 0, [], [], [], none, [], .sleep, [], []⟩

def setSys (m : SessionManager) (o : ObjId) (obj : Obj) (sys : Sys) : SessionManager :=
  { m with objs := m.objs.set o { obj with sys := sys } }

def getStep (m : SessionManager) (g : ℕ) : GetPc → Option (SessionManager × GetPc)
  | .lookup key =>
    if m.writer = none then
      match m.sessions.lookup key with
      | some o => some (m, .returned o)
      | none =>
        match m.configs.lookup key.agent with
        | none => some (m, .failed ("Unknown agent: " ++ key.agent))
        | some idleTimeout => some (m, .create key idleTimeout)
    else none
  | .create key idleTimeout =>
    if m.writer = none then
      match m.sessions.lookup key with
      | some o => some (m, .returned o)
      | none => some
        ({ m with objs := m.objs ++ [.new key idleTimeout m.now], writer := some (.get g) },
          .insert key m.objs.length)
    else none
  | .insert key o => some
    ({ m with
        sessions := (key, o) :: m.sessions.filter fun e => e.1 ≠ key
        sessionsById := o :: m.sessionsById
        writer := none },
      .returned o)
  | .lookupId id => some (m, if id ∈ m.sessionsById then .returned id else .missing)
  | .returned _ | .failed _ | .missing => none

def handle (m : SessionManager) (g : ℕ) : Option ObjId :=
  match m.gets[g]? with
  | some (.returned o) => some o
  | _ => none

def creating (m : SessionManager) (g : ℕ) : Option SessionKey :=
  match m.gets[g]? with
  | some (.create key _) => if m.sessions.lookup key = none then some key else none
  | _ => none

def shutdown (m : SessionManager) (o : ObjId) : Option (SessionManager × ℕ) :=
  match m.objs[o]? with
  | none => none
  | some obj => some
    (m.setSys o obj { obj.sys with shutdowns := obj.sys.shutdowns ++ [.readPid] },
      obj.sys.shutdowns.length)

def hasShutDown (m : SessionManager) (o : ObjId) (j : ℕ) : Prop :=
  ∃ obj ∈ m.objs[o]?, obj.sys.shutdowns[j]? = some .returned

instance (m : SessionManager) (o : ObjId) (j : ℕ) : Decidable (m.hasShutDown o j) :=
  inferInstanceAs (Decidable (∃ obj ∈ m.objs[o]?, _))

def reapStep (m : SessionManager) (order : Registry) : ReapPc → Option (SessionManager × ReapPc)
  | .sleep => if m.writer = none ∧ order.Perm m.sessions then some (m, .inspect order []) else none
  | .inspect [] marked => some (m, .remove marked)
  | .inspect ((key, o) :: todo) marked =>
    match m.objs[o]? with
    | none => none
    | some obj =>
      if obj.sys.session.processState = .running then some (m, .readTurn key o todo marked)
      else some (m, .inspect todo marked)
  | .readTurn key o todo marked =>
    match m.objs[o]? with
    | none => none
    | some obj =>
      if obj.sys.session.turnState = .idle then some (m, .readActivity key o todo marked)
      else some (m, .inspect todo marked)
  | .readActivity key o todo marked =>
    match m.objs[o]? with
    | none => none
    | some obj => some (m, .elapsed key o obj.sys.session.lastActivity todo marked)
  | .elapsed key o last todo marked =>
    match m.objs[o]? with
    | none => none
    | some obj =>
      if obj.idleTimeout < m.now - last then some (m, .inspect todo (marked ++ [(key, o)]))
      else some (m, .inspect todo marked)
  | .remove [] => some (m, .sleep)
  | .remove ((key, _) :: marked) =>
    if m.writer = none then
      match m.sessions.lookup key with
      | none => some (m, .remove marked)
      | some o => some
        ({ m with
            sessions := m.sessions.filter fun e => e.1 ≠ key
            retired := o :: m.retired },
          .removeId o marked)
    else none
  | .removeId o marked =>
    match m.shutdown o with
    | none => none
    | some (m, j) => some
      ({ m with sessionsById := m.sessionsById.filter fun id => id ≠ o }, .wait o j marked)
  | .wait o j marked => if m.hasShutDown o j then some (m, .remove marked) else none

def shutdownAllStep (m : SessionManager) (a : ℕ) (order : Registry) :
    AllPc → Option (SessionManager × AllPc)
  | .drain =>
    if m.writer = none ∧ order.Perm m.sessions then some
      ({ m with
          sessions := []
          writer := some (.all a)
          retired := order.map Prod.snd ++ m.retired },
        .clear (order.map Prod.snd))
    else none
  | .clear drained => some ({ m with sessionsById := [], writer := none }, .next drained drained)
  | .next drained [] => some (m, .returned drained)
  | .next drained (o :: todo) =>
    match m.shutdown o with
    | none => none
    | some (m, j) => some (m, .wait drained o j todo)
  | .wait drained o j todo =>
    if m.hasShutDown o j then some (m, .next drained todo) else none
  | .returned _ => none

def step (m : SessionManager) : Action → Option SessionManager
  | .getOrCreate key => some { m with gets := m.gets ++ [.lookup key] }
  | .getById id => some { m with gets := m.gets ++ [.lookupId id] }
  | .getStep g =>
    match m.gets[g]? with
    | none => none
    | some pc =>
      match m.getStep g pc with
      | none => none
      | some (m, pc') => some { m with gets := m.gets.set g pc' }
  | .ask g =>
    match m.handle g with
    | none => none
    | some o =>
      match m.objs[o]? with
      | none => none
      | some obj => some (m.setSys o obj { obj.sys with asks := obj.sys.asks ++ [.tryLock] })
  | .askStep o i out =>
    match m.objs[o]? with
    | none => none
    | some obj =>
      match obj.sys.step (.askStep i out) with
      | none => none
      | some sys =>
        if onTime m.now out then
          some (m.setSys o
            { obj with lastEnd := if obj.sys.asks[i]?.any ends then some m.now else obj.lastEnd }
            sys)
        else none
  | .shutdownStep o j =>
    match m.objs[o]? with
    | none => none
    | some obj =>
      match obj.sys.step (.shutdownStep j) with
      | none => none
      | some sys => some (m.setSys o obj sys)
  | .reapStep order =>
    match m.reapStep order m.reaper with
    | none => none
    | some (m, pc) => some { m with reaper := pc }
  | .shutdownAll => some { m with shutdownAlls := m.shutdownAlls ++ [.drain] }
  | .shutdownAllStep a order =>
    match m.shutdownAlls[a]? with
    | none => none
    | some pc =>
      match m.shutdownAllStep a order pc with
      | none => none
      | some (m, pc') => some { m with shutdownAlls := m.shutdownAlls.set a pc' }
  | .tick d => some { m with now := m.now + d }

section Steps
variable {m m' : SessionManager} {o : ObjId}

theorem step_getStep {g : ℕ} (h : m.step (.getStep g) = some m') :
    ∃ pc m₁ pc', m.gets[g]? = some pc ∧ m.getStep g pc = some (m₁, pc') ∧
      m' = { m₁ with gets := m₁.gets.set g pc' } := by
  delta step at h
  dsimp only at h
  split at h
  · cases h
  · next pc hpc =>
    split at h
    · cases h
    · next m₁ pc' hstep => exact ⟨pc, m₁, pc', hpc, hstep, (Option.some.inj h).symm⟩

theorem step_ask {g : ℕ} (h : m.step (.ask g) = some m') :
    ∃ o obj, m.handle g = some o ∧ m.objs[o]? = some obj ∧
      m' = m.setSys o obj { obj.sys with asks := obj.sys.asks ++ [.tryLock] } := by
  delta step at h
  dsimp only at h
  split at h
  · cases h
  · next o ho =>
    split at h
    · cases h
    · next obj hobj => exact ⟨o, obj, ho, hobj, (Option.some.inj h).symm⟩

theorem step_askStep {i : ℕ} {out : Outcome} (h : m.step (.askStep o i out) = some m') :
    ∃ obj sys, m.objs[o]? = some obj ∧ obj.sys.step (.askStep i out) = some sys ∧
      onTime m.now out = true ∧
      m' = m.setSys o
        { obj with lastEnd := if obj.sys.asks[i]?.any ends then some m.now else obj.lastEnd }
        sys := by
  delta step at h
  dsimp only at h
  split at h
  · cases h
  · next obj hobj =>
    split at h
    · cases h
    · next sys hsys =>
      split at h
      · next htime => exact ⟨obj, sys, hobj, hsys, htime, (Option.some.inj h).symm⟩
      · cases h

theorem step_shutdownStep {j : ℕ} (h : m.step (.shutdownStep o j) = some m') :
    ∃ obj sys, m.objs[o]? = some obj ∧ obj.sys.step (.shutdownStep j) = some sys ∧
      m' = m.setSys o obj sys := by
  delta step at h
  dsimp only at h
  split at h
  · cases h
  · next obj hobj =>
    split at h
    · cases h
    · next sys hsys => exact ⟨obj, sys, hobj, hsys, (Option.some.inj h).symm⟩

theorem step_reapStep {order : Registry} (h : m.step (.reapStep order) = some m') :
    ∃ m₁ pc, m.reapStep order m.reaper = some (m₁, pc) ∧ m' = { m₁ with reaper := pc } := by
  delta step at h
  dsimp only at h
  split at h
  · cases h
  · next m₁ pc hstep => exact ⟨m₁, pc, hstep, (Option.some.inj h).symm⟩

theorem step_shutdownAllStep {a : ℕ} {order : Registry}
    (h : m.step (.shutdownAllStep a order) = some m') :
    ∃ pc m₁ pc', m.shutdownAlls[a]? = some pc ∧ m.shutdownAllStep a order pc = some (m₁, pc') ∧
      m' = { m₁ with shutdownAlls := m₁.shutdownAlls.set a pc' } := by
  delta step at h
  dsimp only at h
  split at h
  · cases h
  · next pc hpc =>
    split at h
    · cases h
    · next m₁ pc' hstep => exact ⟨pc, m₁, pc', hpc, hstep, (Option.some.inj h).symm⟩

theorem shutdown_eq {j : ℕ} (h : m.shutdown o = some (m', j)) :
    ∃ obj, m.objs[o]? = some obj ∧ j = obj.sys.shutdowns.length ∧
      m' = m.setSys o obj { obj.sys with shutdowns := obj.sys.shutdowns ++ [.readPid] } := by
  unfold shutdown at h
  split at h
  · cases h
  · next obj hobj =>
    cases h
    exact ⟨obj, hobj, rfl, rfl⟩

inductive Gets (m : SessionManager) (g : ℕ) : GetPc → SessionManager → GetPc → Prop
  | found {key : SessionKey} {o : ObjId} (ho : m.sessions.lookup key = some o) :
      Gets m g (.lookup key) m (.returned o)
  | unknown {key : SessionKey} (hconfig : m.configs.lookup key.agent = none) :
      Gets m g (.lookup key) m (.failed ("Unknown agent: " ++ key.agent))
  | configured {key : SessionKey} {idleTimeout : ℕ}
      (hconfig : m.configs.lookup key.agent = some idleTimeout) :
      Gets m g (.lookup key) m (.create key idleTimeout)
  | foundSince {key : SessionKey} {idleTimeout : ℕ} {o : ObjId}
      (ho : m.sessions.lookup key = some o) : Gets m g (.create key idleTimeout) m (.returned o)
  | creates {key : SessionKey} {idleTimeout : ℕ} (hfree : m.writer = none)
      (hnone : m.sessions.lookup key = none) :
      Gets m g (.create key idleTimeout)
        { m with objs := m.objs ++ [.new key idleTimeout m.now], writer := some (.get g) }
        (.insert key m.objs.length)
  | inserts (key : SessionKey) (o : ObjId) :
      Gets m g (.insert key o)
        { m with
          sessions := (key, o) :: m.sessions.filter fun e => e.1 ≠ key
          sessionsById := o :: m.sessionsById
          writer := none }
        (.returned o)
  | byId (id : ObjId) :
      Gets m g (.lookupId id) m (if id ∈ m.sessionsById then .returned id else .missing)

theorem getStep_cases {g : ℕ} {pc pc' : GetPc} (h : m.getStep g pc = some (m', pc')) :
    Gets m g pc m' pc' := by
  cases pc with
  | lookup key =>
    simp only [getStep] at h
    split at h
    · split at h
      · next o ho =>
        cases h
        exact .found ho
      · split at h
        · next hconfig =>
          cases h
          exact .unknown hconfig
        · next idleTimeout hconfig =>
          cases h
          exact .configured hconfig
    · cases h
  | create key idleTimeout =>
    simp only [getStep] at h
    split at h
    · next hfree =>
      split at h
      · next o ho =>
        cases h
        exact .foundSince ho
      · next hnone =>
        cases h
        exact .creates hfree hnone
    · cases h
  | insert key o =>
    cases h
    exact .inserts key o
  | lookupId id =>
    cases h
    exact .byId id
  | returned o | failed message | missing => cases h

inductive Reaps (m : SessionManager) : ReapPc → SessionManager → ReapPc → Prop
  | goesOn {pc pc' : ReapPc} (hmarked : ∀ e ∈ pc'.marked, e ∈ pc.marked)
      (hpc : pc.removes = false) (hpc' : pc'.removes = false) : Reaps m pc m pc'
  | marks {key : SessionKey} {o : ObjId} {last : ℕ} {todo marked : Registry} {obj : Obj}
      (hobj : m.objs[o]? = some obj) (hlong : obj.idleTimeout < m.now - last) :
      Reaps m (.elapsed key o last todo marked) m (.inspect todo (marked ++ [(key, o)]))
  | takes {key : SessionKey} {inspected o : ObjId} {marked : Registry} (hfree : m.writer = none)
      (ho : m.sessions.lookup key = some o) :
      Reaps m (.remove ((key, inspected) :: marked))
        { m with
          sessions := m.sessions.filter fun e => e.1 ≠ key
          retired := o :: m.retired }
        (.removeId o marked)
  | shuts {o : ObjId} {marked : Registry} {m₁ : SessionManager} {j : ℕ}
      (hdown : m.shutdown o = some (m₁, j)) :
      Reaps m (.removeId o marked)
        { m₁ with sessionsById := m₁.sessionsById.filter fun id => id ≠ o } (.wait o j marked)

theorem reapStep_cases {order : Registry} {pc pc' : ReapPc}
    (h : m.reapStep order pc = some (m', pc')) : Reaps m pc m' pc' := by
  cases pc with
  | elapsed key o last todo marked =>
    simp only [reapStep] at h
    split at h
    · cases h
    · next obj hobj =>
      split at h
      · next hlong =>
        cases h
        exact .marks hobj hlong
      · cases h
        exact .goesOn (fun _ he => he) rfl rfl
  | remove marked =>
    cases marked with
    | nil =>
      cases h
      exact .goesOn (fun _ he => he) rfl rfl
    | cons e marked =>
      simp only [reapStep] at h
      split at h
      · next hfree =>
        split at h
        · cases h
          exact .goesOn (fun _ he => List.mem_cons_of_mem _ he) rfl rfl
        · next o ho =>
          cases h
          exact .takes hfree ho
      · cases h
  | removeId o marked =>
    simp only [reapStep] at h
    split at h
    · cases h
    · next hdown =>
      cases h
      exact .shuts hdown
  | inspect todo marked =>
    cases todo <;>
      · simp only [reapStep] at h
        repeat' split at h
        all_goals
          cases h
          try exact .goesOn (fun _ he => he) rfl rfl
  | sleep | readTurn | readActivity | wait =>
    simp only [reapStep] at h
    repeat' split at h
    all_goals
      cases h
      try exact .goesOn (fun _ he => he) rfl rfl

inductive Drains (m : SessionManager) (a : ℕ) (order : Registry) :
    AllPc → SessionManager → AllPc → Prop
  | drains (hfree : m.writer = none) (hperm : order.Perm m.sessions) :
      Drains m a order .drain
        { m with
          sessions := []
          writer := some (.all a)
          retired := order.map Prod.snd ++ m.retired }
        (.clear (order.map Prod.snd))
  | clears (drained : List ObjId) :
      Drains m a order (.clear drained) { m with sessionsById := [], writer := none }
        (.next drained drained)
  | ends (drained : List ObjId) : Drains m a order (.next drained []) m (.returned drained)
  | shuts {drained todo : List ObjId} {o : ObjId} {m₁ : SessionManager} {j : ℕ}
      (hdown : m.shutdown o = some (m₁, j)) :
      Drains m a order (.next drained (o :: todo)) m₁ (.wait drained o j todo)
  | joins {drained todo : List ObjId} {o : ObjId} {j : ℕ} (hret : m.hasShutDown o j) :
      Drains m a order (.wait drained o j todo) m (.next drained todo)

theorem shutdownAllStep_cases {a : ℕ} {order : Registry} {pc pc' : AllPc}
    (h : m.shutdownAllStep a order pc = some (m', pc')) : Drains m a order pc m' pc' := by
  cases pc with
  | drain =>
    simp only [shutdownAllStep] at h
    split at h
    · next hfree =>
      cases h
      exact .drains hfree.1 hfree.2
    · cases h
  | clear drained =>
    cases h
    exact .clears drained
  | next drained todo =>
    cases todo with
    | nil =>
      cases h
      exact .ends drained
    | cons o todo =>
      simp only [shutdownAllStep] at h
      split at h
      · cases h
      · next hdown =>
        cases h
        exact .shuts hdown
  | wait drained o j todo =>
    simp only [shutdownAllStep] at h
    split at h
    · next hret =>
      cases h
      exact .joins hret
    · cases h
  | returned drained => cases h

end Steps

def drained (m : SessionManager) : List ObjId := m.shutdownAlls.flatMap AllPc.drained

inductive ObjStep (m : SessionManager) : Action → ObjId → Obj → Obj → Prop
  | same (a : Action) (o : ObjId) (obj : Obj) : ObjStep m a o obj obj
  | ask {g : ℕ} {o : ObjId} {obj : Obj} (hhandle : m.handle g = some o) :
      ObjStep m (.ask g) o obj
        { obj with sys := { obj.sys with asks := obj.sys.asks ++ [.tryLock] } }
  | askStep {o : ObjId} {i : ℕ} {out : Outcome} {obj : Obj} {sys : Sys}
      (hsys : obj.sys.step (.askStep i out) = some sys) (htime : onTime m.now out = true) :
      ObjStep m (.askStep o i out) o obj
        { obj with
          sys := sys
          lastEnd := if obj.sys.asks[i]?.any ends then some m.now else obj.lastEnd }
  | shutdown {a : Action} {o : ObjId} {obj : Obj} :
      ObjStep m a o obj
        { obj with sys := { obj.sys with shutdowns := obj.sys.shutdowns ++ [.readPid] } }
  | shutdownStep {o : ObjId} {j : ℕ} {obj : Obj} {sys : Sys}
      (hsys : obj.sys.step (.shutdownStep j) = some sys) :
      ObjStep m (.shutdownStep o j) o obj { obj with sys := sys }

inductive ObjsStep (m : SessionManager) : Action → List Obj → Prop
  | same (a : Action) : ObjsStep m a m.objs
  | create {g : ℕ} {key : SessionKey} {idleTimeout : ℕ} (hkey : m.creating g = some key) :
      ObjsStep m (.getStep g) (m.objs ++ [.new key idleTimeout m.now])
  | set {a : Action} {o : ObjId} {obj obj' : Obj} (hobj : m.objs[o]? = some obj)
      (hstep : ObjStep m a o obj obj') : ObjsStep m a (m.objs.set o obj')

theorem ObjStep.key {m : SessionManager} {a : Action} {o : ObjId} {obj obj' : Obj}
    (h : ObjStep m a o obj obj') : obj'.key = obj.key := by
  cases h <;> rfl

theorem step_objs {m m' : SessionManager} {a : Action} (h : m.step a = some m') :
    ObjsStep m a m'.objs := by
  cases a with
  | getOrCreate key | getById id | shutdownAll | tick d =>
    cases h
    exact .same _
  | getStep g =>
    obtain ⟨pc, m₁, pc', hpc, hstep, rfl⟩ := step_getStep h
    cases getStep_cases hstep with
    | creates hfree hnone => exact .create (by simp only [creating, hpc, hnone, ↓reduceIte])
    | found | unknown | configured | foundSince | inserts | byId => exact .same _
  | ask g =>
    obtain ⟨o, obj, hhandle, hobj, rfl⟩ := step_ask h
    exact .set hobj (.ask hhandle)
  | askStep o i out =>
    obtain ⟨obj, sys, hobj, hsys, htime, rfl⟩ := step_askStep h
    exact .set hobj (.askStep hsys htime)
  | shutdownStep o j =>
    obtain ⟨obj, sys, hobj, hsys, rfl⟩ := step_shutdownStep h
    exact .set hobj (.shutdownStep hsys)
  | reapStep order =>
    obtain ⟨m₁, pc, hstep, rfl⟩ := step_reapStep h
    generalize m.reaper = reaper at hstep
    cases reapStep_cases hstep with
    | shuts hdown =>
      obtain ⟨obj, hobj, -, rfl⟩ := shutdown_eq hdown
      exact .set hobj .shutdown
    | goesOn | marks | takes => exact .same _
  | shutdownAllStep a order =>
    obtain ⟨pc, m₁, pc', hpc, hstep, rfl⟩ := step_shutdownAllStep h
    cases shutdownAllStep_cases hstep with
    | shuts hdown =>
      obtain ⟨obj, hobj, -, rfl⟩ := shutdown_eq hdown
      exact .set hobj .shutdown
    | drains | clears | ends | joins => exact .same _

theorem step_obj {m m' : SessionManager} {a : Action} (h : m.step a = some m') {o : ObjId}
    {obj : Obj} (hobj : m.objs[o]? = some obj) :
    ∃ obj', m'.objs[o]? = some obj' ∧ ObjStep m a o obj obj' := by
  have hlt : o < m.objs.length := (List.getElem?_eq_some_iff.mp hobj).1
  have hstep := step_objs h
  generalize m'.objs = objs at hstep
  cases hstep with
  | same => exact ⟨obj, hobj, .same a o obj⟩
  | create hkey => exact ⟨obj, by rwa [List.getElem?_append_left hlt], .same _ o obj⟩
  | @set _ p q q' hq hstep =>
    by_cases hpo : p = o
    · subst hpo
      rw [hobj] at hq
      cases hq
      exact ⟨q', List.getElem?_set_self hlt, hstep⟩
    · exact ⟨obj, by rwa [List.getElem?_set_ne hpo], .same a o obj⟩

theorem step_obj_inv {m m' : SessionManager} {a : Action} (h : m.step a = some m') {o : ObjId}
    {obj' : Obj} (hobj' : m'.objs[o]? = some obj') :
    (∃ obj, m.objs[o]? = some obj ∧ ObjStep m a o obj obj') ∨
      (o = m.objs.length ∧ ∃ key idleTimeout, obj' = .new key idleTimeout m.now) := by
  cases hobj : m.objs[o]? with
  | some obj =>
    obtain ⟨q, hq, hstep⟩ := step_obj h hobj
    rw [hobj'] at hq
    cases hq
    exact .inl ⟨obj, rfl, hstep⟩
  | none =>
    have hle : m.objs.length ≤ o := List.getElem?_eq_none_iff.mp hobj
    have hstep := step_objs h
    generalize m'.objs = objs at hstep hobj'
    cases hstep with
    | same =>
      rw [hobj] at hobj'
      cases hobj'
    | @create g key idleTimeout hkey =>
      rw [List.getElem?_append_right hle, List.getElem?_singleton] at hobj'
      split at hobj'
      · next hzero =>
        cases hobj'
        exact .inr ⟨Nat.le_antisymm (Nat.sub_eq_zero_iff_le.mp hzero) hle, key, idleTimeout, rfl⟩
      · cases hobj'
    | @set _ p q q' hq hstep =>
      have hnone : (m.objs.set p q')[o]? = none := by
        rwa [List.getElem?_eq_none_iff, List.length_set]
      rw [hnone] at hobj'
      cases hobj'

end SessionManager

/-! Pieces of runs on one key, for the runs that show where the claims of the
following modules hold and where they fail. -/

def project : SessionKey := ⟨"codex", "/proj"⟩

def askSteps (o : ObjId) (i : ℕ) (outs : List Outcome) : List Action :=
  outs.map (.askStep o i)

def toRunning (now : ℕ) : List Outcome :=
  [.go, .go, .now now, .go, .go, .go, .go, .go, .spawned (some 42), .go, .initialized,
    .opened "acp", .go, .go, .go, .go, .go]

def toWait : List Outcome := [.go, .go, .go, .loaded 4, .go, .go, .go]

def toReturn (now : ℕ) : List Outcome :=
  [.answered "end_turn", .go, .go, .go, .now now, .go, .go, .loaded 1, .collected "hello", .go]

def getNew (g : ℕ) : List Action :=
  [.getOrCreate project, .getStep g, .getStep g, .getStep g]

def reap (o : ObjId) : List Action :=
  [.reapStep [(project, o)]] ++ List.replicate 7 (.reapStep []) ++
    List.replicate 8 (.shutdownStep o 0) ++ List.replicate 2 (.reapStep [])

def allDown (o : ObjId) (n : ℕ) : List Action :=
  [.shutdownAll, .shutdownAllStep 0 [(project, o)], .shutdownAllStep 0 [], .shutdownAllStep 0 []] ++
    List.replicate n (.shutdownStep o 0) ++ List.replicate 2 (.shutdownAllStep 0 [])

end Ccgonext.Manager
