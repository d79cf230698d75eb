import Ccgonext.Registry
import Ccgonext.TurnGuard

/-!
# Reaping idle sessions

`reap_idle` reads the process state, the turn state and the last activity of a
session one after the other, and removes the sessions it marked when it is done
with all of them. A marked session is the one removed under its key, and has
idled long enough, as long as nothing happened to it between the reads and until
the removal. An ask touches the session for the last time before it returns; it
lags behind the touch, so what the reaper reads has to exceed the timeout by as
much. While the guard is free and the agent runs, no ask has returned later than
`lag` after the last activity.
-/

namespace Ccgonext.Reaper
open Lib Lib.Runs Lib.Pool Lib.CriticalSection Session Manager

def Timed (lag now : ℕ) : AskPc → AcpSession → Prop
  | .setTurn next, s | .emit next, s => next.process = .dead → s.processState = .dead
  | .terminate .., s | .detach .., s => s.processState = .dead
  | .storeTouch _ _ time, _ | .storeFailed _ time, _ => now ≤ time + lag
  | .turnComplete .., s | .loadMin _, s | .collect .., s => now ≤ s.lastActivity + lag
  | .returning _, s => s.processState = .running → now ≤ s.lastActivity + lag
  | _, _ => True

def AtTime (lag now : ℕ) (pc : AskPc) (s : AcpSession) : Prop :=
  TurnGuard.At pc s ∧ Timed lag now pc s

def timedStep (now i : ℕ) (s : AcpSession) (pc : AskPc) (o : Outcome) :
    Option (AcpSession × AskPc) :=
  if onTime now o then askStep i s pc o else none

theorem timedStep_eq {now i : ℕ} {s : AcpSession} {pc : AskPc} {o : Outcome}
    {r : AcpSession × AskPc} (h : timedStep now i s pc o = some r) :
    onTime now o = true ∧ askStep i s pc o = some r := by
  unfold timedStep at h
  split at h
  · next htime => exact ⟨htime, h⟩
  · cases h

theorem Rest.admits {s : AcpSession} (h : TurnGuard.Rest s) :
    s.turnState.canPrompt = true ∧
      (s.processState = .running ∨ s.processState.canStart = true) := by
  refine ⟨by rw [h.1]; rfl, ?_⟩
  rcases h.2 with hu | hd
  · exact .inl hu.1
  · exact .inr hd.1

theorem not_running {s : AcpSession} (h : s.processState = .dead) :
    s.processState ≠ .running := by
  rw [h]
  decide

theorem askStep_timed {lag now i : ℕ} {s s' : AcpSession} {pc pc' : AskPc} {o : Outcome}
    (h : askStep i s pc o = some (s', pc')) (htime : onTime now o = true)
    (hin : pc.inside = true) (hat : AtTime lag now pc s) : Timed lag now pc' s' := by
  cases pc
  case tryLock | busy | returned | dropped => cases hin
  case canPrompt =>
    simp only [askStep, (Rest.admits hat.1).1, ↓reduceIte] at h
    cases h
    trivial
  case ensureRunning =>
    simp only [askStep] at h
    split at h
    · cases h
      trivial
    · next hno =>
      rw [if_pos ((Rest.admits hat.1).2.resolve_left hno)] at h
      cases h
      trivial
  case setProcess next =>
    cases h
    exact id
  case setTurn next =>
    cases h
    exact hat.2
  case emit next =>
    cases h
    cases next
    case fail e =>
      intro hr
      exact absurd hr (not_running (hat.2 rfl))
    case terminate c e => exact hat.2 rfl
    all_goals trivial
  case readClient start =>
    have hsome := hat.1.2.2.1
    simp only [askStep] at h
    split at h
    · cases h
      trivial
    · next hnone =>
      rw [hnone] at hsome
      cases hsome
  case readSessionId start c =>
    have hsome := hat.1.2.2.2
    simp only [askStep] at h
    split at h
    · cases h
      trivial
    · next hnone =>
      rw [hnone] at hsome
      cases hsome
  case terminate c e =>
    have hdead : s.processState = .dead := hat.2
    simp only [askStep] at h
    split at h <;> cases h
    · exact hdead
    · exact fun hr => absurd hr (not_running hdead)
  case detach c e =>
    have hdead : s.processState = .dead := hat.2
    cases h
    exact fun hr => absurd hr (not_running hdead)
  case touch | touchFailed =>
    simp only [askStep] at h
    split at h
    · next time =>
      cases h
      have hnow : time = now := of_decide_eq_true htime
      exact hnow ▸ Nat.le_add_right time lag
    · cases h
  case storeTouch start stop time =>
    cases h
    exact hat.2
  case storeFailed e time =>
    cases h
    exact fun _ => hat.2
  case turnComplete start stop =>
    cases h
    exact hat.2
  case loadMin start =>
    simp only [askStep] at h
    split at h <;> cases h
    exact hat.2
  case collect start min =>
    simp only [askStep] at h
    split at h <;> cases h
    exact fun _ => hat.2
  all_goals
    simp only [askStep] at h
    repeat' split at h
    all_goals
      cases h
      try trivial

theorem timedStep_sound (lag now : ℕ) :
    Sound AcpSession.turnGuard AskPc.inside TurnGuard.Rest (AtTime lag now) (timedStep now) := by
  have hs := TurnGuard.askStep_sound
  refine ⟨⟨?_, ?_⟩, ?_, ?_, ?_⟩
  · intro i s p o s' p' h
    exact hs.disciplined.outside i s p o s' p' (timedStep_eq h).2
  · intro i s p o s' p' h
    exact hs.disciplined.within i s p o s' p' (timedStep_eq h).2
  · intro i s p o s' p' h hin hin' hrest
    obtain ⟨-, h⟩ := timedStep_eq h
    refine ⟨hs.enter i s p o s' p' h hin hin' hrest, ?_⟩
    obtain ⟨-, rfl⟩ := askStep_enters h hin hin'
    trivial
  · intro i s p o s' p' h hin hin' hat
    obtain ⟨htime, h⟩ := timedStep_eq h
    exact ⟨hs.keep i s p o s' p' h hin hin' hat.1, askStep_timed h htime hin hat⟩
  · intro i s p o s' p' h hin hout hat
    exact hs.leave i s p o s' p' (timedStep_eq h).2 hin hout hat.1

/-- The call returns no later than `lag` after its last touch, or, refused at the
guard, after that of the ask that held it. -/
def Prompt (lag time : ℕ) (s : AcpSession) : AskPc → Prop
  | .storeTouch _ _ touch | .storeFailed _ touch => time ≤ touch + lag
  | .turnComplete .. | .loadMin _ | .collect .. | .returning _ => time ≤ s.lastActivity + lag
  | .busy => s.turnGuard = none → time ≤ s.lastActivity + lag
  | _ => True

instance (lag time : ℕ) (s : AcpSession) (pc : AskPc) : Decidable (Prompt lag time s pc) := by
  rcases pc <;> dsimp only [Prompt] <;> infer_instance

structure Punctual (lag now : ℕ) (obj : Obj) : Prop where
  guard : Annotated AcpSession.turnGuard AskPc.inside TurnGuard.Rest (AtTime lag now)
    obj.sys.session obj.sys.asks
  idle : obj.sys.session.turnGuard = none → obj.sys.session.processState = .running →
    (∀ t ∈ obj.lastEnd, t ≤ obj.sys.session.lastActivity + lag) ∧
      (.busy ∈ obj.sys.asks → now ≤ obj.sys.session.lastActivity + lag)

section Punctual
variable {lag now : ℕ} {obj : Obj}

theorem punctual_new (key : SessionKey) (idleTimeout lag now : ℕ) :
    Punctual lag now (.new key idleTimeout now) :=
  ⟨.nil rfl (TurnGuard.rest_new now), nofun⟩

theorem Punctual.ask (h : Punctual lag now obj) :
    Punctual lag now { obj with sys := { obj.sys with asks := obj.sys.asks ++ [.tryLock] } } := by
  refine ⟨h.guard.spawn rfl, fun hfree hr => ?_⟩
  obtain ⟨hend, hbusy⟩ := h.idle hfree hr
  refine ⟨hend, fun hmem => hbusy ?_⟩
  simpa using hmem

theorem Punctual.askStep (h : Punctual lag now obj) {i : ℕ} {out : Outcome} {sys : Sys}
    (hsys : obj.sys.step (.askStep i out) = some sys) (htime : onTime now out = true) :
    Punctual lag now
      { obj with
        sys := sys
        lastEnd := if obj.sys.asks[i]?.any ends then some now else obj.lastEnd } := by
  obtain ⟨pc, session, pc', hpc, hstep, rfl⟩ := Sys.step_askStep hsys
  have htimed : timedStep now i obj.sys.session pc out = some (session, pc') := by
    simp only [timedStep, htime, ↓reduceIte, hstep]
  simp only [hpc, Option.any_some]
  refine ⟨h.guard.step (timedStep_sound lag now) hpc htimed, ?_⟩
  intro hfree hr
  by_cases hin : pc.inside = true
  · -- only the return leaves the guard free
    have hheld := (h.guard.exclusive.inside_iff hpc).mp hin
    rcases askStep_disciplined.within i _ _ _ _ _ hstep hin hheld with ⟨hh, -⟩ | ⟨-, hout⟩
    · rw [hfree] at hh
      cases hh
    · obtain ⟨result, rfl⟩ := askStep_leaves hstep hin hout
      have hlast : Timed lag now (.returning result) obj.sys.session :=
        (h.guard.at_inside i _ hpc hin).2
      cases hstep
      have hnow : now ≤ obj.sys.session.lastActivity + lag := hlast hr
      refine ⟨fun t ht => ?_, fun _ => hnow⟩
      cases ht
      exact hnow
  · cases pc
    case busy =>
      cases hstep
      have hnow := (h.idle hfree hr).2 (List.mem_of_getElem? hpc)
      refine ⟨fun t ht => ?_, fun _ => hnow⟩
      cases ht
      exact hnow
    case tryLock =>
      simp only [Session.askStep] at hstep
      split at hstep <;> cases hstep
      · cases hfree
      · next hheld =>
        rw [hfree] at hheld
        cases hheld
    case returned | dropped => cases hstep
    all_goals exact absurd rfl hin

theorem Timed.tick {pc : AskPc} {s : AcpSession} {time : ℕ} (h : AtTime lag now pc s)
    (hq : s.processState = .running → Prompt lag time s pc) : Timed lag time pc s := by
  cases pc
  case storeTouch | turnComplete | loadMin | collect | storeFailed => exact hq h.1.2
  case returning result => exact fun hr => hq hr
  all_goals exact h.2

theorem Punctual.tick (h : Punctual lag now obj) {time : ℕ}
    (hq : obj.sys.session.processState = .running →
      ∀ pc ∈ obj.sys.asks, Prompt lag time obj.sys.session pc) : Punctual lag time obj := by
  refine ⟨⟨h.guard.exclusive, h.guard.rest, ?_⟩, ?_⟩
  · intro i pc hpc hin
    have hat := h.guard.at_inside i pc hpc hin
    exact ⟨hat.1, Timed.tick hat (fun hr => hq hr pc (List.mem_of_getElem? hpc))⟩
  · intro hfree hr
    exact ⟨(h.idle hfree hr).1, fun hbusy => hq hr _ hbusy hfree⟩

end Punctual

structure Resting (now : ℕ) (obj : Obj) : Prop where
  free : obj.sys.session.turnGuard = none
  quiet : .busy ∉ obj.sys.asks
  long : ∀ t ∈ obj.lastEnd, obj.idleTimeout < now - t

def Ripe (m : SessionManager) (e : SessionKey × ObjId) : Prop :=
  ∀ o ∈ m.sessions.lookup e.1, o = e.2 ∧ ∀ obj ∈ m.objs[o]?, Resting m.now obj

def marking (m : SessionManager) : Option (SessionKey × ObjId × ℕ) :=
  match m.reaper with
  | .elapsed key o last _ _ =>
    if ∃ obj ∈ m.objs[o]?, obj.idleTimeout < m.now - last then some (key, o, last) else none
  | _ => none

def inserting (m : SessionManager) (g : ℕ) : Option SessionKey :=
  match m.gets[g]? with
  | some (.insert key _) => some key
  | _ => none

/-- The reaper marks only what nobody has touched since it looked, with `lag` to
spare; a marked session is neither replaced nor asked before its removal; an ask
of a running agent returns no later than `lag` after its last touch. -/
def Undisturbed (lag : ℕ) (m : SessionManager) : Manager.Action → Prop
  | .reapStep _ => ∀ e ∈ marking m, ∀ o ∈ m.sessions.lookup e.1, o = e.2.1 ∧ ∀ obj ∈ m.objs[o]?,
      obj.sys.session.turnGuard = none ∧ obj.sys.session.processState = .running ∧
        obj.sys.session.lastActivity = e.2.2 ∧ obj.idleTimeout + lag < m.now - e.2.2
  | .getStep g => ∀ key ∈ inserting m g, ∀ e ∈ m.reaper.marked, e.1 ≠ key
  | .askStep o i _ => ∀ obj ∈ m.objs[o]?, obj.sys.asks[i]? = some .tryLock →
      ∀ e ∈ m.reaper.marked, m.sessions.lookup e.1 ≠ some o
  | .tick d => ∀ o ∈ List.range m.objs.length, o ∉ m.retired → ∀ obj ∈ m.objs[o]?,
      obj.sys.session.processState = .running →
        ∀ pc ∈ obj.sys.asks, Prompt lag (m.now + d) obj.sys.session pc
  | _ => True

instance (lag : ℕ) (m : SessionManager) (a : Manager.Action) : Decidable (Undisturbed lag m a) := by
  rcases a <;> dsimp only [Undisturbed] <;> infer_instance

/-- Whatever the reaper is about to remove is what it inspected, its guard is
free, and it has idled for longer than its timeout. -/
def ReapsIdle (m : SessionManager) : Prop :=
  ∀ key inspected rest, m.reaper = .remove ((key, inspected) :: rest) →
    ∀ o ∈ m.sessions.lookup key, o = inspected ∧ ∀ obj ∈ m.objs[o]?,
      obj.sys.session.turnGuard = none ∧ ∀ t ∈ obj.lastEnd, obj.idleTimeout < m.now - t

structure Inv (lag : ℕ) (m : SessionManager) : Prop where
  registry : Registry.Inv m
  punctual : ∀ (o : ObjId) (obj : Obj), m.objs[o]? = some obj → o ∉ m.retired →
    Punctual lag m.now obj
  ripe : ∀ e ∈ m.reaper.marked, Ripe m e

theorem inv_new (lag : ℕ) (configs : List (String × ℕ)) : Inv lag (.new configs) :=
  ⟨Registry.inv_new configs, nofun, nofun⟩

section Steps
variable {lag : ℕ} {m m' : SessionManager} {a : Manager.Action}

theorem Resting.askStep {obj : Obj} {now : ℕ} (h : Resting now obj) (hp : Punctual lag now obj)
    {i : ℕ} {out : Outcome} {sys : Sys} (hlock : obj.sys.asks[i]? ≠ some .tryLock) :
    obj.sys.step (.askStep i out) ≠ some sys := by
  intro hsys
  obtain ⟨pc, session, pc', hpc, hstep, rfl⟩ := Sys.step_askStep hsys
  have hout : pc.inside = false := by
    rw [Bool.eq_false_iff]
    intro hin
    have hheld := (hp.guard.exclusive.inside_iff hpc).mp hin
    rw [h.free] at hheld
    cases hheld
  cases pc
  case tryLock => exact hlock hpc
  case busy => exact h.quiet (List.mem_of_getElem? hpc)
  case returned | dropped => cases hstep
  all_goals cases hout

theorem Resting.step {o : ObjId} {obj obj' : Obj} (h : Resting m.now obj)
    (hp : Punctual lag m.now obj) (hun : obj.sys.shutdowns = []) (hstep : m.ObjStep a o obj obj')
    (hlock : ∀ i out, a = .askStep o i out → obj.sys.asks[i]? ≠ some .tryLock) :
    Resting m.now obj' := by
  cases hstep with
  | same | shutdown => exact ⟨h.free, h.quiet, h.long⟩
  | ask => exact ⟨h.free, by simpa using h.quiet, h.long⟩
  | askStep hsys htime => exact absurd hsys (h.askStep hp (hlock _ _ rfl))
  | shutdownStep hsys =>
    obtain ⟨q, session, q', hq, -, -⟩ := Sys.step_shutdownStep hsys
    rw [hun] at hq
    cases hq

theorem lookup_filter {l : Manager.Registry} {key key' : SessionKey} {o : ObjId}
    (h : (l.filter fun e => e.1 ≠ key).lookup key' = some o) : l.lookup key' = some o := by
  induction l with
  | nil => exact h
  | cons e l ih =>
    rw [List.filter_cons] at h
    by_cases hkey : e.1 = key
    · simp only [hkey, ne_eq, not_true_eq_false, decide_false, Bool.false_eq_true, ↓reduceIte] at h
      have hne : key' ≠ key := by
        rintro rfl
        obtain ⟨l₁, l₂, hl, -⟩ := List.lookup_eq_some_iff.mp h
        have hmem : (key', o) ∈ l.filter fun e => e.1 ≠ key' := by
          rw [hl]
          simp
        simp at hmem
      have hbeq : (key' == e.1) = false := by simpa [hkey] using hne
      rw [List.lookup_cons, hbeq]
      exact ih h
    · simp only [ne_eq, hkey, not_false_eq_true, decide_true, ↓reduceIte] at h
      rw [List.lookup_cons] at h ⊢
      split at h
      · exact h
      · exact ih h

inductive RegStep (m m' : SessionManager) : Manager.Action → Prop
  | tick (d : ℕ) (h : m' = { m with now := m.now + d }) : RegStep m m' (.tick d)
  | insert {g : ℕ} {key : SessionKey} {o : ObjId} (hpc : m.gets[g]? = some (.insert key o))
      (hsessions : m'.sessions = (key, o) :: m.sessions.filter fun e => e.1 ≠ key)
      (hreaper : m'.reaper = m.reaper) (hnow : m'.now = m.now) (hretired : m'.retired = m.retired) :
      RegStep m m' (.getStep g)
  | mark {order : Manager.Registry} {key : SessionKey} {o : ObjId} {last : ℕ}
      (hmark : marking m = some (key, o, last)) (hm : m' = { m with reaper := m'.reaper })
      (hmarked : m'.reaper.marked = m.reaper.marked ++ [(key, o)]) :
      RegStep m m' (.reapStep order)
  | other {a : Manager.Action}
      (hsessions : ∀ key o, m'.sessions.lookup key = some o → m.sessions.lookup key = some o)
      (hmarked : ∀ e ∈ m'.reaper.marked, e ∈ m.reaper.marked) (hnow : m'.now = m.now)
      (hretired : ∀ o ∈ m.retired, o ∈ m'.retired) : RegStep m m' a

theorem reapStep_registry {order : Manager.Registry} (hs : m.step (.reapStep order) = some m') :
    RegStep m m' (.reapStep order) := by
  obtain ⟨m₁, pc, hstep, rfl⟩ := SessionManager.step_reapStep hs
  generalize hreaper : m.reaper = reaper at hstep
  cases SessionManager.reapStep_cases hstep with
  | goesOn hmarked =>
    exact .other (fun key o h => h) (fun e he => by rw [hreaper]; exact hmarked e he) rfl
      (fun o ho => ho)
  | @marks key o last todo marked obj hobj hlong =>
    have hmark : marking m = some (key, o, last) := by
      simp [marking, hreaper, hobj, hlong]
    exact .mark hmark rfl (by rw [hreaper]; rfl)
  | takes =>
    refine .other (fun key o h => lookup_filter h) (fun e he => ?_) rfl
      (fun o ho => List.mem_cons_of_mem _ ho)
    rw [hreaper]
    exact List.mem_cons_of_mem _ he
  | shuts hdown =>
    obtain ⟨obj, -, -, rfl⟩ := SessionManager.shutdown_eq hdown
    exact .other (fun key o h => h) (fun e he => by rw [hreaper]; exact he) rfl (fun o ho => ho)

theorem step_registry (hs : m.step a = some m') : RegStep m m' a := by
  cases a with
  | tick d =>
    cases hs
    exact .tick d rfl
  | getOrCreate key | getById id | shutdownAll =>
    cases hs
    exact .other (fun key o h => h) (fun e he => he) rfl (fun o ho => ho)
  | ask g =>
    obtain ⟨o, obj, -, -, rfl⟩ := SessionManager.step_ask hs
    exact .other (fun key o h => h) (fun e he => he) rfl (fun o ho => ho)
  | askStep o i out =>
    obtain ⟨obj, sys, -, -, -, rfl⟩ := SessionManager.step_askStep hs
    exact .other (fun key o h => h) (fun e he => he) rfl (fun o ho => ho)
  | shutdownStep o j =>
    obtain ⟨obj, sys, -, -, rfl⟩ := SessionManager.step_shutdownStep hs
    exact .other (fun key o h => h) (fun e he => he) rfl (fun o ho => ho)
  | getStep g =>
    obtain ⟨pc, m₁, pc', hpc, hstep, rfl⟩ := SessionManager.step_getStep hs
    cases SessionManager.getStep_cases hstep with
    | inserts key o => exact .insert hpc rfl rfl rfl rfl
    | found | unknown | configured | foundSince | creates | byId =>
      exact .other (fun key o h => h) (fun e he => he) rfl (fun o ho => ho)
  | reapStep order => exact reapStep_registry hs
  | shutdownAllStep b order =>
    obtain ⟨pc, m₁, pc', -, hstep, rfl⟩ := SessionManager.step_shutdownAllStep hs
    cases SessionManager.shutdownAllStep_cases hstep with
    | drains =>
      exact .other (fun key o h => by cases h) (fun e he => he) rfl
        (fun o ho => List.mem_append_right _ ho)
    | shuts hdown =>
      obtain ⟨obj, -, -, rfl⟩ := SessionManager.shutdown_eq hdown
      exact .other (fun key o h => h) (fun e he => he) rfl (fun o ho => ho)
    | clears | ends | joins =>
      exact .other (fun key o h => h) (fun e he => he) rfl (fun o ho => ho)

theorem punctual_step (h : Inv lag m) (hs : m.step a = some m') (hnow : m'.now = m.now)
    (hretired : ∀ o ∈ m.retired, o ∈ m'.retired) {o : ObjId} {obj' : Obj}
    (hobj' : m'.objs[o]? = some obj') (hno : o ∉ m'.retired) : Punctual lag m'.now obj' := by
  rw [hnow]
  have hun' : obj'.sys.shutdowns = [] :=
    (Registry.step_inv m a m' h.registry hs).untouched o obj' hobj' hno
  rcases SessionManager.step_obj_inv hs hobj' with ⟨obj, hobj, hstep⟩ | ⟨-, key, t, rfl⟩
  · have hold : o ∉ m.retired := fun hr => hno (hretired o hr)
    have hp := h.punctual o obj hobj hold
    have hun := h.registry.untouched o obj hobj hold
    cases hstep with
    | same => exact hp
    | ask hhandle => exact hp.ask
    | askStep hsys htime => exact hp.askStep hsys htime
    | shutdown => simp at hun'
    | shutdownStep hsys =>
      obtain ⟨q, session, q', hq, -, -⟩ := Sys.step_shutdownStep hsys
      rw [hun] at hq
      cases hq
  · exact punctual_new key t lag m.now

theorem Ripe.step (h : Inv lag m) (hC : Undisturbed lag m a) (hs : m.step a = some m')
    {e : SessionKey × ObjId} (he : e ∈ m.reaper.marked) (hnow : m'.now = m.now)
    (hlookup : ∀ o, m'.sessions.lookup e.1 = some o → m.sessions.lookup e.1 = some o) :
    Ripe m' e := by
  intro o ho
  have hold : m.sessions.lookup e.1 = some o := hlookup o ho
  obtain ⟨heq, hrest⟩ := h.ripe e he o hold
  refine ⟨heq, fun obj' hobj' => ?_⟩
  rw [hnow]
  obtain ⟨⟨q, hq, -⟩, hno⟩ := h.registry.registered _ (Registry.lookup_mem hold)
  obtain ⟨q', hq', hstep⟩ := SessionManager.step_obj hs hq
  rw [Option.mem_def, hq'] at hobj'
  cases hobj'
  refine (hrest q hq).step (h.punctual o q hq hno) (h.registry.untouched o q hq hno) hstep ?_
  rintro i out rfl hlock
  exact hC q hq hlock e he hold

theorem ripe_of_marking (h : Inv lag m) {key : SessionKey} {o last : ℕ}
    (hC : ∀ p ∈ m.sessions.lookup key, p = o ∧ ∀ obj ∈ m.objs[p]?,
      obj.sys.session.turnGuard = none ∧ obj.sys.session.processState = .running ∧
        obj.sys.session.lastActivity = last ∧ obj.idleTimeout + lag < m.now - last) :
    Ripe m (key, o) := by
  intro p hp
  obtain ⟨rfl, hobjs⟩ := hC p hp
  refine ⟨rfl, fun obj hobj => ?_⟩
  obtain ⟨hfree, hr, hlast, hlong⟩ := hobjs obj hobj
  have hno := (h.registry.registered _ (Registry.lookup_mem hp)).2
  obtain ⟨hend, hbusy⟩ := (h.punctual p obj hobj hno).idle hfree hr
  rw [hlast] at hend hbusy
  refine ⟨hfree, fun hmem => ?_, fun t ht => ?_⟩
  · have hnow := hbusy hmem
    omega
  · have hle := hend t ht
    omega

theorem step_inv (m : SessionManager) (a : Manager.Action) (m' : SessionManager) (h : Inv lag m)
    (hC : Undisturbed lag m a) (hs : m.step a = some m') : Inv lag m' := by
  have hreg : Registry.Inv m' := Registry.step_inv m a m' h.registry hs
  cases step_registry hs with
  | tick d hm =>
    subst hm
    refine ⟨hreg, ?_, ?_⟩
    · intro o obj hobj hno
      have hlt : o < m.objs.length := (List.getElem?_eq_some_iff.mp hobj).1
      exact (h.punctual o obj hobj hno).tick (hC o (List.mem_range.mpr hlt) hno obj hobj)
    · intro e he o ho
      obtain ⟨heq, hrest⟩ := h.ripe e he o ho
      refine ⟨heq, fun obj hobj => ?_⟩
      have hr := hrest obj hobj
      exact ⟨hr.free, hr.quiet, fun t ht => (hr.long t ht).trans_le (by simp only; omega)⟩
  | @insert g key p hpc hsessions hreaper hnow hretired =>
    have hins : key ∈ inserting m g := by simp [inserting, hpc]
    refine ⟨hreg, ?_, ?_⟩
    · intro o obj' hobj' hno
      exact punctual_step h hs hnow (fun o ho => by rwa [hretired]) hobj' hno
    · intro e he
      rw [hreaper] at he
      refine Ripe.step h hC hs he hnow fun o ho => ?_
      have hne : e.1 ≠ key := hC key hins e he
      rw [hsessions, List.lookup_cons, beq_eq_false_iff_ne.mpr hne] at ho
      exact lookup_filter ho
  | mark hmark hm hmarked =>
    have hnow : m'.now = m.now := by rw [hm]
    refine ⟨hreg, ?_, ?_⟩
    · intro o obj' hobj' hno
      exact punctual_step h hs hnow (fun o ho => by rwa [hm]) hobj' hno
    · intro e he
      rw [hmarked] at he
      rcases List.mem_append.mp he with he | he
      · exact Ripe.step h hC hs he hnow fun o ho => by rwa [hm] at ho
      · rw [List.mem_singleton.mp he, hm]
        exact ripe_of_marking h (hC _ hmark)
  | other hsessions hmarked hnow hretired =>
    refine ⟨hreg, ?_, ?_⟩
    · intro o obj' hobj' hno
      exact punctual_step h hs hnow hretired hobj' hno
    · intro e he
      exact Ripe.step h hC hs (hmarked e he) hnow (hsessions e.1)

end Steps

theorem Inv.reapsIdle {lag : ℕ} {m : SessionManager} (h : Inv lag m) : ReapsIdle m := by
  intro key inspected rest hreaper o ho
  have hmem : (key, inspected) ∈ m.reaper.marked := by
    rw [hreaper]
    exact List.mem_cons_self
  obtain ⟨heq, hrest⟩ := h.ripe _ hmem o ho
  exact ⟨heq, fun obj hobj => ⟨(hrest obj hobj).free, (hrest obj hobj).long⟩⟩

/-- An undisturbed reaper removes the sessions it inspected, idle for longer than
their timeout and with nobody asking them. -/
theorem reapsIdle_of_undisturbed (configs : List (String × ℕ)) (lag : ℕ)
    (acts : List Manager.Action) (m : SessionManager)
    (hrun : run SessionManager.step (.new configs) acts = some m)
    (hun : Along SessionManager.step (Undisturbed lag) (.new configs) acts) : ReapsIdle m :=
  (invariant step_inv (inv_new lag configs) hun hrun).reapsIdle

/-- A session answers, the ask takes a second to return, and the session idles
for 601 more and is marked. -/
def idleReaped : List Manager.Action :=
  getNew 0 ++ .ask 0 :: askSteps 0 0 (toRunning 0 ++ toWait ++ (toReturn 0).take 8) ++ .tick 1 ::
    askSteps 0 0 ((toReturn 0).drop 8) ++ .tick 601 :: .reapStep [(project, 0)] ::
    List.replicate 5 (.reapStep [])

theorem reapsIdle_idleReaped :
    ∃ m, run SessionManager.step (.new [("codex", 600)]) idleReaped = some m ∧ ReapsIdle m := by
  obtain ⟨m, hm, -⟩ := exists_run (s := SessionManager.new [("codex", 600)]) (fun _ => True)
    (by decide : (run SessionManager.step (.new [("codex", 600)]) idleReaped).any _ = true)
  exact ⟨m, hm, reapsIdle_of_undisturbed _ 1 idleReaped m hm (by decide)⟩

/-- The caller asks again after the session was marked. -/
def askedMarked : List Manager.Action :=
  idleReaped ++ .ask 0 :: askSteps 0 1 [.go, .go, .now 602, .go, .go]

theorem askedMarked_not_reapsIdle :
    ∃ m, run SessionManager.step (.new [("codex", 600)]) askedMarked = some m ∧
      m.reaper = .remove [(project, 0)] ∧ m.sessions = [(project, 0)] ∧
      (m.objs.map fun obj => obj.sys.session.turnGuard) = [some 1] ∧ ¬ ReapsIdle m := by
  obtain ⟨m, hm, hreaper, hsessions, hguard⟩ := exists_run
    (s := SessionManager.new [("codex", 600)])
    (fun m => m.reaper = .remove [(project, 0)] ∧ m.sessions = [(project, 0)] ∧
      (m.objs.map fun obj => obj.sys.session.turnGuard) = [some 1])
    (by decide : (run SessionManager.step (.new [("codex", 600)]) askedMarked).any _ = true)
  refine ⟨m, hm, hreaper, hsessions, hguard, fun hidle => ?_⟩
  obtain ⟨-, hobjs⟩ := hidle project 0 [] hreaper 0 (by rw [hsessions]; decide)
  obtain ⟨obj, hobj, hheld⟩ := List.map_eq_singleton_iff.mp hguard
  have hfree := (hobjs obj (by rw [hobj]; rfl)).1
  rw [hfree] at hheld
  cases hheld

end Ccgonext.Reaper
