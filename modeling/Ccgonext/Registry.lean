import Ccgonext.Manager
import Ccgonext.Lib.Runs
import Ccgonext.Lib.Pool

/-!
# The registry and the sessions it names

Every key of `sessions` names a session of that key that was never taken out,
and no such session has been shut down: the reaper and `shutdown_all` call
`shutdown` only on what they took out. The write lock of `sessions` keeps a
session that `get_or_create` has made and not yet inserted out of their reach.
-/

namespace Ccgonext.Registry
open Lib Lib.Runs Lib.Pool Session Manager

def Pending (m : SessionManager) (g : ℕ) : GetPc → Prop
  | .insert key o => m.writer = some (.get g) ∧ (∃ obj, m.objs[o]? = some obj ∧ obj.key = key) ∧
      o ∉ m.retired ∧ ∀ e ∈ m.sessions, e.2 ≠ o
  | _ => True

structure Draining (retired : List ObjId) (writer : Option Writer) (a : ℕ) (pc : AllPc) : Prop where
  retired : ∀ o ∈ pc.drained, o ∈ retired
  todo : ∀ o ∈ pc.todo, o ∈ pc.drained
  lock : pc.clears = true → writer = some (.all a)

structure Inv (m : SessionManager) : Prop where
  registered : ∀ e ∈ m.sessions, (∃ obj, m.objs[e.2]? = some obj ∧ obj.key = e.1) ∧
    e.2 ∉ m.retired
  pending : ∀ (g : ℕ) (pc : GetPc), m.gets[g]? = some pc → Pending m g pc
  draining : ∀ (a : ℕ) (pc : AllPc), m.shutdownAlls[a]? = some pc →
    Draining m.retired m.writer a pc
  condemned : ∀ o marked, m.reaper = .removeId o marked → o ∈ m.retired
  untouched : ∀ (o : ObjId) (obj : Obj), m.objs[o]? = some obj → o ∉ m.retired →
    obj.sys.shutdowns = []
  retired : ∀ o ∈ m.retired, o < m.objs.length

theorem inv_new (configs : List (String × ℕ)) : Inv (.new configs) := by
  constructor <;> simp [SessionManager.new]

section Frame
variable {m m' : SessionManager}

theorem Inv.not_inserting (h : Inv m) (hfree : m.writer = none) {g : ℕ} {key : SessionKey}
    {o : ObjId} : m.gets[g]? ≠ some (.insert key o) := by
  intro hpc
  have hlock := (h.pending g _ hpc).1
  rw [hfree] at hlock
  cases hlock

theorem Inv.pending_free (h : Inv m) (hfree : m.writer = none) (hgets : m'.gets = m.gets)
    (g : ℕ) (pc : GetPc) (hpc : m'.gets[g]? = some pc) : Pending m' g pc := by
  rw [hgets] at hpc
  cases pc with
  | insert key o => exact absurd hpc (h.not_inserting hfree)
  | _ => trivial

theorem Inv.not_clearing (h : Inv m) (hfree : m.writer = none) {a : ℕ} {pc : AllPc}
    (hpc : m.shutdownAlls[a]? = some pc) : pc.clears = false := by
  cases hc : pc.clears with
  | false => rfl
  | true =>
    have hlock := (h.draining a pc hpc).lock hc
    rw [hfree] at hlock
    cases hlock

theorem Inv.draining_free (h : Inv m) (hfree : m.writer = none) {retired : List ObjId}
    (hsub : ∀ o ∈ m.retired, o ∈ retired) {writer : Option Writer} {a : ℕ} {pc : AllPc}
    (hpc : m.shutdownAlls[a]? = some pc) : Draining retired writer a pc := by
  have hd := h.draining a pc hpc
  refine ⟨fun o ho => hsub o (hd.retired o ho), hd.todo, fun hc => ?_⟩
  rw [h.not_clearing hfree hpc] at hc
  cases hc

def SameKeys (m m' : SessionManager) : Prop :=
  ∀ (o : ObjId) (obj : Obj), m.objs[o]? = some obj →
    ∃ obj', m'.objs[o]? = some obj' ∧ obj'.key = obj.key

theorem sameKeys_set {o : ObjId} {obj obj' : Obj} (hobj : m.objs[o]? = some obj)
    (hkey : obj'.key = obj.key) (hobjs : m'.objs = m.objs.set o obj') : SameKeys m m' := by
  intro p q hq
  rw [hobjs]
  by_cases hop : o = p
  · subst hop
    rw [hobj] at hq
    cases hq
    exact ⟨obj', List.getElem?_set_self (List.getElem?_eq_some_iff.mp hobj).1, hkey⟩
  · exact ⟨q, by rwa [List.getElem?_set_ne hop], rfl⟩

theorem sameKeys_append {obj : Obj} (hobjs : m'.objs = m.objs ++ [obj]) : SameKeys m m' := by
  intro p q hq
  rw [hobjs]
  exact ⟨q, by rwa [List.getElem?_append_left (List.getElem?_eq_some_iff.mp hq).1], rfl⟩

theorem Pending.congr {g : ℕ} {pc : GetPc} (h : Pending m g pc) (hkeys : SameKeys m m')
    (hwriter : m'.writer = m.writer) (hretired : m'.retired = m.retired)
    (hsessions : m'.sessions = m.sessions) : Pending m' g pc := by
  cases pc with
  | insert key o =>
    obtain ⟨hw, ⟨obj, hobj, hkey⟩, hr, hs⟩ := h
    obtain ⟨obj', hobj', hkey'⟩ := hkeys o obj hobj
    exact ⟨hwriter.trans hw, ⟨obj', hobj', hkey'.trans hkey⟩, by rwa [hretired], by rwa [hsessions]⟩
  | _ => trivial

theorem Inv.registered_of (h : Inv m) (hkeys : SameKeys m m') {e : SessionKey × ObjId}
    (he : e ∈ m.sessions) : ∃ obj, m'.objs[e.2]? = some obj ∧ obj.key = e.1 := by
  obtain ⟨⟨q, hq, hk⟩, -⟩ := h.registered e he
  obtain ⟨q', hq', hk'⟩ := hkeys e.2 q hq
  exact ⟨q', hq', hk'.trans hk⟩

theorem Inv.setObj (h : Inv m) {o : ObjId} {obj obj' : Obj} (hobj : m.objs[o]? = some obj)
    (hkey : obj'.key = obj.key) (hshut : o ∉ m.retired → obj'.sys.shutdowns = []) :
    Inv { m with objs := m.objs.set o obj' } := by
  have hkeys : SameKeys m { m with objs := m.objs.set o obj' } := sameKeys_set hobj hkey rfl
  constructor
  · exact fun e he => ⟨h.registered_of hkeys he, (h.registered e he).2⟩
  · exact fun g pc hpc => (h.pending g pc hpc).congr hkeys rfl rfl rfl
  · exact h.draining
  · exact h.condemned
  · exact indexed_set (Q := fun (p : ObjId) (q : Obj) => p ∉ m.retired → q.sys.shutdowns = [])
      (fun p q _ hq => h.untouched p q hq) hshut
  · intro p hp
    rw [List.length_set]
    exact h.retired p hp

theorem Inv.setSys (h : Inv m) {o : ObjId} {obj : Obj} {sys : Sys} (hobj : m.objs[o]? = some obj)
    (hshut : o ∉ m.retired → sys.shutdowns = []) : Inv (m.setSys o obj sys) :=
  h.setObj hobj rfl hshut

theorem Inv.shutdown (h : Inv m) {o : ObjId} {j : ℕ} (ho : o ∈ m.retired)
    (hs : m.shutdown o = some (m', j)) : Inv m' := by
  obtain ⟨obj, hobj, -, rfl⟩ := SessionManager.shutdown_eq hs
  exact h.setSys hobj fun hno => absurd ho hno

end Frame

section Steps
variable {m m' : SessionManager}

theorem lookup_mem {l : Manager.Registry} {key : SessionKey} {o : ObjId} (h : l.lookup key = some o) :
    (key, o) ∈ l := by
  obtain ⟨l₁, l₂, hl, -⟩ := List.lookup_eq_some_iff.mp h
  rw [hl]
  simp

theorem Inv.remove (h : Inv m) (hfree : m.writer = none) {key : SessionKey} {o : ObjId}
    (ho : m.sessions.lookup key = some o) :
    Inv { m with sessions := m.sessions.filter fun e => e.1 ≠ key, retired := o :: m.retired } := by
  obtain ⟨⟨obj, hobj, hkey⟩, hno⟩ := h.registered _ (lookup_mem ho)
  have hlt : o < m.objs.length := (List.getElem?_eq_some_iff.mp hobj).1
  constructor
  · intro e' he'
    obtain ⟨hmem, hne⟩ := List.mem_filter.mp he'
    obtain ⟨⟨obj', hobj', hkey'⟩, hno'⟩ := h.registered e' hmem
    refine ⟨⟨obj', hobj', hkey'⟩, ?_⟩
    intro hr
    rcases List.mem_cons.mp hr with heq | hr
    · -- two keys do not share a session
      rw [heq, hobj] at hobj'
      cases hobj'
      have hsame : e'.1 = key := hkey'.symm.trans hkey
      simp [hsame] at hne
    · exact hno' hr
  · exact h.pending_free hfree rfl
  · exact fun a pc hpc => h.draining_free hfree (fun o ho => List.mem_cons_of_mem _ ho) hpc
  · exact fun p marked hr => List.mem_cons_of_mem _ (h.condemned p marked hr)
  · exact fun p q hq hp => h.untouched p q hq fun hr => hp (List.mem_cons_of_mem _ hr)
  · intro p hp
    rcases List.mem_cons.mp hp with rfl | hp
    · exact hlt
    · exact h.retired p hp

theorem Inv.spawnGet (h : Inv m) {pc : GetPc} (hpc : ∀ key o, pc ≠ .insert key o) :
    Inv { m with gets := m.gets ++ [pc] } := by
  refine ⟨h.registered, ?_, h.draining, h.condemned, h.untouched, h.retired⟩
  refine indexed_spawn h.pending ?_
  cases pc with
  | insert key o => exact absurd rfl (hpc key o)
  | _ => trivial

theorem getStep_inv {g : ℕ} (h : Inv m) (hs : m.step (.getStep g) = some m') : Inv m' := by
  obtain ⟨pc, m₁, pc', hpc, hstep, rfl⟩ := SessionManager.step_getStep hs
  -- a call that only goes on to another position
  have hmove : ∀ {pc' : GetPc}, (∀ key o, pc' ≠ .insert key o) →
      Inv { m with gets := m.gets.set g pc' } := by
    intro pc' hpc'
    refine ⟨h.registered, ?_, h.draining, h.condemned, h.untouched, h.retired⟩
    refine indexed_set (fun j r _ hr => h.pending j r hr) ?_
    cases pc' with
    | insert key o => exact absurd rfl (hpc' key o)
    | _ => trivial
  cases SessionManager.getStep_cases hstep with
  | found | unknown | configured | foundSince => exact hmove (by simp)
  | @creates key idleTimeout hfree hnone =>
    have hkeys : SameKeys m { m with objs := m.objs ++ [.new key idleTimeout m.now] } :=
      sameKeys_append rfl
    have hfresh : m.objs.length ∉ m.retired := fun hr => Nat.lt_irrefl _ (h.retired _ hr)
    constructor
    · exact fun e he => ⟨h.registered_of hkeys he, (h.registered e he).2⟩
    · refine indexed_set ?_ ?_
      · intro j r _ hr
        cases r with
        | insert key o => exact absurd hr (h.not_inserting hfree)
        | _ => trivial
      · refine ⟨rfl, ⟨_, List.getElem?_concat_length, rfl⟩, hfresh, ?_⟩
        intro e he heq
        obtain ⟨⟨obj, hobj, -⟩, -⟩ := h.registered e he
        have hlt : e.2 < m.objs.length := (List.getElem?_eq_some_iff.mp hobj).1
        simp only [heq, Nat.lt_irrefl] at hlt
    · exact fun a pc hpc => h.draining_free hfree (fun o ho => ho) hpc
    · exact h.condemned
    · exact indexed_spawn (Q := fun (p : ObjId) (q : Obj) => p ∉ m.retired → q.sys.shutdowns = [])
        h.untouched (fun _ => rfl)
    · intro o ho
      simp only [List.length_append, List.length_singleton]
      exact Nat.lt_succ_of_lt (h.retired o ho)
  | inserts key o =>
    obtain ⟨hlock, hobj, hno, hfresh⟩ := h.pending g _ hpc
    constructor
    · intro e he
      rcases List.mem_cons.mp he with rfl | he
      · exact ⟨hobj, hno⟩
      · exact h.registered e (List.mem_of_mem_filter he)
    · refine indexed_set ?_ trivial
      intro j r hne hr
      cases r with
      | insert key' o' =>
        -- another call would hold the same lock
        have hlock' := (h.pending j _ hr).1
        rw [hlock] at hlock'
        cases hlock'
        exact absurd rfl hne
      | _ => trivial
    · intro a pc hpc
      have hd := h.draining a pc hpc
      refine ⟨hd.retired, hd.todo, fun hc => ?_⟩
      have hlock' := hd.lock hc
      rw [hlock] at hlock'
      cases hlock'
    · exact h.condemned
    · exact h.untouched
    · exact h.retired
  | byId id => exact hmove (by split <;> simp)

theorem Inv.setReaper (h : Inv m) {pc : ReapPc} (hpc : pc.removes = false) :
    Inv { m with reaper := pc } := by
  refine ⟨h.registered, h.pending, h.draining, fun o marked ho => ?_, h.untouched, h.retired⟩
  obtain rfl : pc = .removeId o marked := ho
  cases hpc

theorem reapStep_inv {order : Manager.Registry} (h : Inv m)
    (hs : m.step (.reapStep order) = some m') : Inv m' := by
  obtain ⟨m₁, pc, hstep, rfl⟩ := SessionManager.step_reapStep hs
  generalize hreaper : m.reaper = reaper at hstep
  cases SessionManager.reapStep_cases hstep with
  | goesOn _ _ hpc' => exact h.setReaper hpc'
  | marks => exact h.setReaper rfl
  | takes hfree ho =>
    have h₁ := h.remove hfree ho
    refine ⟨h₁.registered, h₁.pending, h₁.draining, fun p marked heq => ?_, h₁.untouched,
      h₁.retired⟩
    cases heq
    exact List.mem_cons_self
  | @shuts o marked m₂ j hdown =>
    have h₂ : Inv m₂ := h.shutdown (h.condemned o marked hreaper) hdown
    exact ⟨h₂.registered, h₂.pending, h₂.draining, nofun, h₂.untouched, h₂.retired⟩

theorem Inv.setAll (h : Inv m) {a : ℕ} {pc : AllPc} (hpc : Draining m.retired m.writer a pc) :
    Inv { m with shutdownAlls := m.shutdownAlls.set a pc } :=
  ⟨h.registered, h.pending, indexed_set (fun j r _ hr => h.draining j r hr) hpc, h.condemned,
    h.untouched, h.retired⟩

theorem shutdownAllStep_inv {a : ℕ} {order : Manager.Registry} (h : Inv m)
    (hs : m.step (.shutdownAllStep a order) = some m') : Inv m' := by
  obtain ⟨pc, m₁, pc', hpc, hstep, rfl⟩ := SessionManager.step_shutdownAllStep hs
  have hd := h.draining a pc hpc
  cases SessionManager.shutdownAllStep_cases hstep with
  | drains hfree hperm =>
    have hnew : ∀ o ∈ order.map Prod.snd, ∃ obj, m.objs[o]? = some obj := by
      intro o ho
      obtain ⟨e, he, rfl⟩ := List.mem_map.mp ho
      obtain ⟨⟨obj, hobj, -⟩, -⟩ := h.registered e (hperm.mem_iff.mp he)
      exact ⟨obj, hobj⟩
    constructor
    · exact nofun
    · exact h.pending_free hfree rfl
    · refine indexed_set ?_ ⟨fun o ho => List.mem_append_left _ ho, fun o ho => ho, fun _ => rfl⟩
      exact fun j r _ hr => h.draining_free hfree (fun o ho => List.mem_append_right _ ho) hr
    · exact fun o marked hr => List.mem_append_right _ (h.condemned o marked hr)
    · exact fun p q hq hp => h.untouched p q hq fun hr => hp (List.mem_append_right _ hr)
    · intro p hp
      rcases List.mem_append.mp hp with hp | hp
      · obtain ⟨obj, hobj⟩ := hnew p hp
        exact (List.getElem?_eq_some_iff.mp hobj).1
      · exact h.retired p hp
  | clears drained =>
    have hlock : m.writer = some (.all a) := hd.lock rfl
    constructor
    · exact h.registered
    · intro g r hr
      cases r with
      | insert key o =>
        have hlock' := (h.pending g _ hr).1
        rw [hlock] at hlock'
        cases hlock'
      | _ => trivial
    · refine indexed_set ?_ ⟨hd.retired, fun o ho => ho, nofun⟩
      intro j r hne hr
      have hr' := h.draining j r hr
      refine ⟨hr'.retired, hr'.todo, fun hc => ?_⟩
      have hlock' := hr'.lock hc
      rw [hlock] at hlock'
      cases hlock'
      exact absurd rfl hne
    · exact h.condemned
    · exact h.untouched
    · exact h.retired
  | ends drained => exact h.setAll ⟨hd.retired, nofun, nofun⟩
  | shuts hdown =>
    have h₁ : Inv m₁ := h.shutdown (hd.retired _ (hd.todo _ List.mem_cons_self)) hdown
    obtain ⟨obj, -, -, rfl⟩ := SessionManager.shutdown_eq hdown
    exact h₁.setAll ⟨hd.retired, fun p hp => hd.todo p (List.mem_cons_of_mem _ hp), nofun⟩
  | joins => exact h.setAll ⟨hd.retired, hd.todo, nofun⟩

theorem step_inv (m : SessionManager) (a : Manager.Action) (m' : SessionManager) (h : Inv m)
    (hs : m.step a = some m') : Inv m' := by
  cases a with
  | getOrCreate key =>
    cases hs
    exact h.spawnGet (by simp)
  | getById id =>
    cases hs
    exact h.spawnGet (by simp)
  | getStep g => exact getStep_inv h hs
  | ask g =>
    obtain ⟨o, obj, -, hobj, rfl⟩ := SessionManager.step_ask hs
    exact h.setSys hobj (h.untouched o obj hobj)
  | askStep o i out =>
    obtain ⟨obj, sys, hobj, hsys, -, rfl⟩ := SessionManager.step_askStep hs
    obtain ⟨pc, session, pc', -, -, rfl⟩ := Sys.step_askStep hsys
    exact h.setObj hobj rfl (h.untouched o obj hobj)
  | shutdownStep o j =>
    obtain ⟨obj, sys, hobj, hsys, rfl⟩ := SessionManager.step_shutdownStep hs
    obtain ⟨q, session, q', hq, -, rfl⟩ := Sys.step_shutdownStep hsys
    refine h.setSys hobj fun hno => ?_
    rw [h.untouched o obj hobj hno] at hq
    cases hq
  | reapStep order => exact reapStep_inv h hs
  | shutdownAll =>
    cases hs
    exact ⟨h.registered, h.pending, indexed_spawn h.draining ⟨nofun, nofun, nofun⟩, h.condemned,
      h.untouched, h.retired⟩
  | shutdownAllStep a order => exact shutdownAllStep_inv h hs
  | tick d =>
    cases hs
    exact ⟨h.registered, h.pending, h.draining, h.condemned, h.untouched, h.retired⟩

theorem step_retired {a : Manager.Action} (hs : m.step a = some m') :
    (∀ o ∈ m.retired, o ∈ m'.retired) ∧ m'.configs = m.configs := by
  have hsame : ∀ {m' : SessionManager}, m'.retired = m.retired → m'.configs = m.configs →
      (∀ o ∈ m.retired, o ∈ m'.retired) ∧ m'.configs = m.configs := by
    intro m' hr hc
    rw [hr]
    exact ⟨fun o ho => ho, hc⟩
  cases a with
  | getOrCreate key | getById id | shutdownAll | tick d =>
    cases hs
    exact hsame rfl rfl
  | getStep g =>
    obtain ⟨pc, m₁, pc', -, hstep, rfl⟩ := SessionManager.step_getStep hs
    unfold SessionManager.getStep at hstep
    repeat' split at hstep
    all_goals
      cases hstep
      try exact hsame rfl rfl
  | ask g =>
    obtain ⟨o, obj, -, -, rfl⟩ := SessionManager.step_ask hs
    exact hsame rfl rfl
  | askStep o i out =>
    obtain ⟨obj, sys, -, -, -, rfl⟩ := SessionManager.step_askStep hs
    exact hsame rfl rfl
  | shutdownStep o j =>
    obtain ⟨obj, sys, -, -, rfl⟩ := SessionManager.step_shutdownStep hs
    exact hsame rfl rfl
  | reapStep order =>
    obtain ⟨m₁, pc, hstep, rfl⟩ := SessionManager.step_reapStep hs
    unfold SessionManager.reapStep at hstep
    repeat' split at hstep
    all_goals
      cases hstep
      try first
        | exact hsame rfl rfl
        | exact ⟨fun o ho => List.mem_cons_of_mem _ ho, rfl⟩
        | (obtain ⟨obj, -, -, rfl⟩ := SessionManager.shutdown_eq ‹m.shutdown _ = _›
           exact hsame rfl rfl)
  | shutdownAllStep b order =>
    obtain ⟨pc, m₁, pc', -, hstep, rfl⟩ := SessionManager.step_shutdownAllStep hs
    unfold SessionManager.shutdownAllStep at hstep
    repeat' split at hstep
    all_goals
      cases hstep
      try first
        | exact hsame rfl rfl
        | exact ⟨fun o ho => List.mem_append_right _ ho, rfl⟩
        | (obtain ⟨obj, -, -, rfl⟩ := SessionManager.shutdown_eq ‹m.shutdown _ = _›
           exact hsame rfl rfl)

theorem step_sameKeys {a : Manager.Action} (hs : m.step a = some m') : SameKeys m m' := by
  intro o obj hobj
  obtain ⟨obj', hobj', hstep⟩ := SessionManager.step_obj hs hobj
  exact ⟨obj', hobj', hstep.key⟩

end Steps

end Ccgonext.Registry
