import Ccgonext.Registry

/-!
# The two maps of the session manager

`sessions` and `sessions_by_id` of `session/mod.rs`, with any number of calls of
`remove_session` beside whatever the manager does, the calls of its reaper
among it. A removal takes the session out of `sessions` first and out of
`sessions_by_id` in a second step, for which it holds no lock of the first map.
`asked` is the key that each call in `gets` was made for, `none` for a call of
`get_by_id`.
-/

namespace Ccgonext.Indexes
open Lib Lib.Runs Lib.Pool Session Manager Registry

inductive RemovePc
  | remove (key : SessionKey)
  | removeId (obj : ObjId)
  | returned (removed : Option ObjId)
  deriving DecidableEq, Repr

structure Registrar where
  m : SessionManager
  removes : List RemovePc
  asked : List (Option SessionKey)
  deriving DecidableEq, Repr

inductive Action
  | manager (a : Manager.Action)
  | removeSession (key : SessionKey)
  | removeStep (i : ℕ)
  deriving DecidableEq, Repr

def begun : Manager.Action → List (Option SessionKey)
  | .getOrCreate key => [some key]
  | .getById _ => [none]
  | _ => []

namespace Registrar

def new (configs : List (String × ℕ)) : Registrar := ⟨.new configs, [], []⟩

def removeStep (m : SessionManager) : RemovePc → Option (SessionManager × RemovePc)
  | .remove key =>
    if m.writer = none then
      match m.sessions.lookup key with
      | none => some (m, .returned none)
      | some o => some
        ({ m with
            sessions := m.sessions.filter fun e => e.1 ≠ key
            retired := o :: m.retired },
          .removeId o)
    else none
  | .removeId o => some
    ({ m with sessionsById := m.sessionsById.filter fun id => id ≠ o }, .returned (some o))
  | .returned _ => none

def step (r : Registrar) : Action → Option Registrar
  | .manager a => (r.m.step a).map fun m => { r with m := m, asked := r.asked ++ begun a }
  | .removeSession key => some { r with removes := r.removes ++ [.remove key] }
  | .removeStep i =>
    match r.removes[i]? with
    | none => none
    | some pc =>
      match removeStep r.m pc with
      | none => none
      | some (m, pc') => some { r with m := m, removes := r.removes.set i pc' }

/-- Some removal that is still in progress has taken the session out of
`sessions` and not yet out of `sessions_by_id`. -/
def Leaving (r : Registrar) (o : ObjId) : Prop :=
  .removeId o ∈ r.removes ∨ (∃ marked, r.m.reaper = .removeId o marked) ∨
    ∃ drained, .clear drained ∈ r.m.shutdownAlls ∧ o ∈ drained

/-- The next step of a removal takes the session of this key, if there is one. -/
def Removes (r : Registrar) (key : SessionKey) : Action → Prop
  | .removeStep i => r.removes[i]? = some (.remove key)
  | .manager (.reapStep _) =>
    match r.m.reaper with
    | .remove ((k, _) :: _) => k = key
    | _ => False
  | .manager (.shutdownAllStep a _) => r.m.shutdownAlls[a]? = some .drain
  | _ => False

inductive Change (r r' : Registrar) (a : Action) : Prop
  | same (hsessions : r'.m.sessions = r.m.sessions) (hids : r'.m.sessionsById = r.m.sessionsById)
      (hwriter : ∀ b, r'.m.writer = some (.all b) → r.m.writer = some (.all b))
      (hleaving : ∀ o, r.Leaving o → r'.Leaving o)
  | insert {g : ℕ} {key : SessionKey} {o : ObjId} (ha : a = .manager (.getStep g))
      (hpc : r.m.gets[g]? = some (.insert key o))
      (hsessions : r'.m.sessions = (key, o) :: r.m.sessions.filter fun e => e.1 ≠ key)
      (hids : r'.m.sessionsById = o :: r.m.sessionsById) (hwriter : r'.m.writer = none)
      (hleaving : ∀ p, r.Leaving p → r'.Leaving p)
  | remove {key : SessionKey} {o : ObjId} (hremoves : r.Removes key a) (hfree : r.m.writer = none)
      (ho : r.m.sessions.lookup key = some o)
      (hsessions : r'.m.sessions = r.m.sessions.filter fun e => e.1 ≠ key)
      (hids : r'.m.sessionsById = r.m.sessionsById) (hwriter : r'.m.writer = none)
      (ho' : r'.Leaving o)
      (hleaving : ∀ p, r.Leaving p → r'.Leaving p)
  | forget {o : ObjId} (ho : r.Leaving o) (hsessions : r'.m.sessions = r.m.sessions)
      (hids : r'.m.sessionsById = r.m.sessionsById.filter fun id => id ≠ o)
      (hwriter : r'.m.writer = r.m.writer) (hleaving : ∀ p ≠ o, r.Leaving p → r'.Leaving p)
  | drain (hremoves : ∀ key, r.Removes key a) (hfree : r.m.writer = none)
      (hsessions : r'.m.sessions = []) (hids : r'.m.sessionsById = r.m.sessionsById)
      (ho : ∀ e ∈ r.m.sessions, r'.Leaving e.2) (hleaving : ∀ p, r.Leaving p → r'.Leaving p)
  | clear {pc : AllPc} (hpc : pc ∈ r.m.shutdownAlls) (hclears : pc.clears = true)
      (hsessions : r'.m.sessions = r.m.sessions) (hids : r'.m.sessionsById = [])
      (hwriter : r'.m.writer = none)

section Steps
variable {r r' : Registrar} {i : ℕ}

theorem step_removeStep (h : r.step (.removeStep i) = some r') :
    ∃ pc m pc', r.removes[i]? = some pc ∧ removeStep r.m pc = some (m, pc') ∧
      r' = { r with m := m, removes := r.removes.set i pc' } := by
  simp only [step] at h
  split at h
  · cases h
  · next pc hpc =>
    split at h
    · cases h
    · next m pc' hstep => exact ⟨pc, m, pc', hpc, hstep, (Option.some.inj h).symm⟩

inductive Removal (m : SessionManager) : RemovePc → SessionManager → RemovePc → Prop
  | misses (key : SessionKey) : Removal m (.remove key) m (.returned none)
  | takes {key : SessionKey} {o : ObjId} (hfree : m.writer = none)
      (ho : m.sessions.lookup key = some o) :
      Removal m (.remove key)
        { m with
          sessions := m.sessions.filter fun e => e.1 ≠ key
          retired := o :: m.retired }
        (.removeId o)
  | forgets (o : ObjId) :
      Removal m (.removeId o)
        { m with sessionsById := m.sessionsById.filter fun id => id ≠ o } (.returned (some o))

theorem removeStep_cases {m m' : SessionManager} {pc pc' : RemovePc}
    (h : removeStep m pc = some (m', pc')) : Removal m pc m' pc' := by
  cases pc with
  | remove key =>
    simp only [removeStep] at h
    split at h
    · next hfree =>
      split at h
      · cases h
        exact .misses key
      · next ho =>
        cases h
        exact .takes hfree ho
    · cases h
  | removeId o =>
    cases h
    exact .forgets o
  | returned removed => cases h

theorem removeStep_frame {m m' : SessionManager} {pc pc' : RemovePc}
    (h : removeStep m pc = some (m', pc')) :
    m'.gets = m.gets ∧ m'.configs = m.configs ∧ m'.objs = m.objs := by
  cases removeStep_cases h <;> exact ⟨rfl, rfl, rfl⟩

theorem step_manager {a : Manager.Action} (h : r.step (.manager a) = some r') :
    ∃ m, r.m.step a = some m ∧ r' = { r with m := m, asked := r.asked ++ begun a } := by
  obtain ⟨m, hm, heq⟩ := Option.map_eq_some_iff.mp h
  exact ⟨m, hm, heq.symm⟩

theorem Leaving.mono {o : ObjId} (h : r.Leaving o)
    (hremoves : .removeId o ∈ r.removes → .removeId o ∈ r'.removes)
    (hreaper : ∀ marked, r.m.reaper = .removeId o marked → ∃ marked, r'.m.reaper = .removeId o marked)
    (hall : ∀ drained, .clear drained ∈ r.m.shutdownAlls → .clear drained ∈ r'.m.shutdownAlls) :
    r'.Leaving o := by
  rcases h with h | ⟨marked, h⟩ | ⟨drained, h, ho⟩
  · exact .inl (hremoves h)
  · exact .inr (.inl (hreaper marked h))
  · exact .inr (.inr ⟨drained, hall drained h, ho⟩)

theorem removeStep_change (h : r.step (.removeStep i) = some r') : Change r r' (.removeStep i) := by
  obtain ⟨pc, m, pc', hpc, hstep, rfl⟩ := step_removeStep h
  have hkeep : ∀ {pc' : RemovePc} (o : ObjId), pc ≠ .removeId o →
      .removeId o ∈ r.removes → .removeId o ∈ r.removes.set i pc' :=
    fun o hne ho => mem_set_of_ne hpc ho (Ne.symm hne) _
  cases removeStep_cases hstep with
  | misses key =>
    exact .same rfl rfl (fun _ h => h) fun o ho =>
      ho.mono (hkeep o (by simp)) (fun _ h => ⟨_, h⟩) fun _ h => h
  | takes hfree ho =>
    refine .remove hpc hfree ho rfl rfl hfree (.inl (mem_of_step hpc _)) fun p hp => ?_
    exact hp.mono (hkeep p (by simp)) (fun _ h => ⟨_, h⟩) fun _ h => h
  | forgets o =>
    refine .forget (.inl (List.mem_of_getElem? hpc)) rfl rfl rfl fun p hne hp => ?_
    exact hp.mono (hkeep p (by simpa using Ne.symm hne)) (fun _ h => ⟨_, h⟩) fun _ h => h

theorem Change.quiet {m : SessionManager} {asked : List (Option SessionKey)} {a : Action}
    (hsessions : m.sessions = r.m.sessions) (hids : m.sessionsById = r.m.sessionsById)
    (hwriter : ∀ b, m.writer = some (.all b) → r.m.writer = some (.all b))
    (hreaper : ∀ o marked, r.m.reaper = .removeId o marked → m.reaper = .removeId o marked)
    (hall : ∀ pc ∈ r.m.shutdownAlls, pc.clears = true → pc ∈ m.shutdownAlls) :
    Change r { r with m := m, asked := asked } a := by
  refine .same hsessions hids hwriter fun o ho => ?_
  exact ho.mono (fun h => h) (fun marked h => ⟨marked, hreaper o marked h⟩) fun d h => hall _ h rfl

theorem getStep_change {g : ℕ} (h : r.step (.manager (.getStep g)) = some r') :
    Change r r' (.manager (.getStep g)) := by
  obtain ⟨m, hm, rfl⟩ := step_manager h
  obtain ⟨pc, m₁, pc', hpc, hstep, rfl⟩ := SessionManager.step_getStep hm
  cases SessionManager.getStep_cases hstep with
  | inserts key o =>
    refine .insert rfl hpc rfl rfl rfl fun p hp => ?_
    exact hp.mono (fun h => h) (fun _ h => ⟨_, h⟩) fun _ h => h
  | found | unknown | configured | foundSince | creates | byId =>
    exact .quiet rfl rfl (by simp) (fun _ _ h => h) fun _ h _ => h

theorem reapStep_change {order : Manager.Registry}
    (h : r.step (.manager (.reapStep order)) = some r') :
    Change r r' (.manager (.reapStep order)) := by
  obtain ⟨m, hm, rfl⟩ := step_manager h
  obtain ⟨m₁, pc, hstep, rfl⟩ := SessionManager.step_reapStep hm
  generalize hreaper : r.m.reaper = reaper at hstep
  cases SessionManager.reapStep_cases hstep with
  | goesOn _ hpc =>
    refine .quiet rfl rfl (fun _ h => h) (fun o marked heq => ?_) fun _ h _ => h
    obtain rfl := hreaper.symm.trans heq
    cases hpc
  | marks =>
    refine .quiet rfl rfl (fun _ h => h) (fun o marked heq => ?_) fun _ h _ => h
    cases hreaper.symm.trans heq
  | takes hfree ho =>
    refine .remove (by simp [Removes, hreaper]) hfree ho rfl rfl hfree (.inr (.inl ⟨_, rfl⟩)) ?_
    intro p hp
    exact hp.mono (fun h => h) (fun _ h => absurd (hreaper.symm.trans h) (by simp)) fun _ h => h
  | @shuts o marked m₂ j hdown =>
    obtain ⟨obj, -, -, rfl⟩ := SessionManager.shutdown_eq hdown
    refine .forget (.inr (.inl ⟨marked, hreaper⟩)) rfl rfl rfl fun p hne hp => ?_
    refine hp.mono (fun h => h) (fun marked' h => ?_) fun _ h => h
    rw [hreaper] at h
    cases h
    exact absurd rfl hne

theorem shutdownAllStep_change {b : ℕ} {order : Manager.Registry}
    (h : r.step (.manager (.shutdownAllStep b order)) = some r') :
    Change r r' (.manager (.shutdownAllStep b order)) := by
  obtain ⟨m, hm, rfl⟩ := step_manager h
  obtain ⟨pc, m₁, pc', hpc, hstep, rfl⟩ := SessionManager.step_shutdownAllStep hm
  -- the calls that are about to clear stay where they are
  have hkeep : pc.clears = false → ∀ q ∈ r.m.shutdownAlls, q.clears = true →
      q ∈ r.m.shutdownAlls.set b pc' := by
    intro hno q hq hclears
    refine mem_set_of_ne hpc hq ?_ pc'
    rintro rfl
    rw [hno] at hclears
    cases hclears
  cases SessionManager.shutdownAllStep_cases hstep with
  | drains hfree hperm =>
    refine .drain (fun _ => hpc) hfree rfl rfl (fun e he => ?_) fun p hp => ?_
    · refine .inr (.inr ⟨_, mem_of_step hpc _, List.mem_map.mpr ⟨e, ?_, rfl⟩⟩)
      exact hperm.mem_iff.mpr he
    · exact hp.mono (fun h => h) (fun _ h => ⟨_, h⟩) fun d hd => hkeep rfl _ hd rfl
  | clears drained => exact .clear (List.mem_of_getElem? hpc) rfl rfl rfl rfl
  | shuts hdown =>
    obtain ⟨obj, -, -, rfl⟩ := SessionManager.shutdown_eq hdown
    exact .quiet rfl rfl (fun _ h => h) (fun _ _ h => h) (hkeep rfl)
  | ends | joins => exact .quiet rfl rfl (fun _ h => h) (fun _ _ h => h) (hkeep rfl)

theorem step_change {a : Action} (h : r.step a = some r') : Change r r' a := by
  cases a with
  | removeSession key =>
    cases h
    refine .same rfl rfl (fun _ h => h) fun o ho => ?_
    exact ho.mono (fun h => List.mem_append_left _ h) (fun _ h => ⟨_, h⟩) fun _ h => h
  | removeStep i => exact removeStep_change h
  | manager a =>
    cases a with
    | getStep g => exact getStep_change h
    | reapStep order => exact reapStep_change h
    | shutdownAllStep b order => exact shutdownAllStep_change h
    | getOrCreate key | getById id | tick d =>
      cases h
      exact .quiet rfl rfl (fun _ h => h) (fun _ _ h => h) fun _ h _ => h
    | shutdownAll =>
      cases h
      exact .quiet rfl rfl (fun _ h => h) (fun _ _ h => h) fun _ h _ => List.mem_append_left _ h
    | ask g =>
      obtain ⟨m, hm, rfl⟩ := step_manager h
      obtain ⟨o, obj, -, -, rfl⟩ := SessionManager.step_ask hm
      exact .quiet rfl rfl (fun _ h => h) (fun _ _ h => h) fun _ h _ => h
    | askStep o i out =>
      obtain ⟨m, hm, rfl⟩ := step_manager h
      obtain ⟨obj, sys, -, -, -, rfl⟩ := SessionManager.step_askStep hm
      exact .quiet rfl rfl (fun _ h => h) (fun _ _ h => h) fun _ h _ => h
    | shutdownStep o j =>
      obtain ⟨m, hm, rfl⟩ := step_manager h
      obtain ⟨obj, sys, -, -, rfl⟩ := SessionManager.step_shutdownStep hm
      exact .quiet rfl rfl (fun _ h => h) (fun _ _ h => h) fun _ h _ => h

end Steps

end Registrar

open Registrar

def Call (m : SessionManager) (asked : Option SessionKey) : GetPc → Prop
  | .lookup key => asked = some key
  | .create key _ => asked = some key ∧ m.configs.lookup key.agent ≠ none
  | .insert key _ => asked = some key ∧ m.configs.lookup key.agent ≠ none ∧
      ∀ e ∈ m.sessions, e.1 ≠ key
  | .lookupId _ => asked = none
  | .returned o => ∀ key, asked = some key → ∃ obj, m.objs[o]? = some obj ∧ obj.key = key
  | .failed _ | .missing => True

structure Inv (r : Registrar) : Prop where
  registry : Registry.Inv r.m
  removed : ∀ o, .removeId o ∈ r.removes → o ∈ r.m.retired
  keys : (r.m.sessions.map Prod.fst).Nodup
  drained : ∀ b, r.m.writer = some (.all b) → r.m.sessions = []
  indexed : ∀ e ∈ r.m.sessions, e.2 ∈ r.m.sessionsById
  leaving : ∀ o ∈ r.m.sessionsById, (∃ key, (key, o) ∈ r.m.sessions) ∨ r.Leaving o
  length : r.asked.length = r.m.gets.length
  calls : ∀ (g : ℕ) (pc : GetPc), r.m.gets[g]? = some pc → ∀ asked ∈ r.asked[g]?, Call r.m asked pc

theorem inv_new (configs : List (String × ℕ)) : Inv (.new configs) := by
  refine ⟨Registry.inv_new configs, ?_, ?_, ?_, ?_, ?_, ?_, ?_⟩ <;>
    simp [Registrar.new, SessionManager.new]

section Maps
variable {r r' : Registrar} {a : Action}

theorem lookup_eq {l : Manager.Registry} {key : SessionKey} {o : ObjId}
    (hkeys : (l.map Prod.fst).Nodup) (hmem : (key, o) ∈ l) : l.lookup key = some o := by
  induction l with
  | nil => cases hmem
  | cons e l ih =>
    rw [List.map_cons, List.nodup_cons] at hkeys
    rcases List.mem_cons.mp hmem with rfl | hmem
    · simp
    · have hne : key ≠ e.1 := by
        rintro rfl
        exact hkeys.1 (List.mem_map.mpr ⟨_, hmem, rfl⟩)
      rw [List.lookup_cons, beq_eq_false_iff_ne.mpr hne]
      exact ih hkeys.2 hmem

theorem Inv.retired_of_leaving (h : Inv r) {o : ObjId} (ho : r.Leaving o) : o ∈ r.m.retired := by
  rcases ho with ho | ⟨marked, ho⟩ | ⟨drained, ho, hmem⟩
  · exact h.removed o ho
  · exact h.registry.condemned o marked ho
  · obtain ⟨b, hb⟩ := List.mem_iff_getElem?.mp ho
    exact (h.registry.draining b _ hb).retired o hmem

theorem Inv.absent (h : Inv r) {g : ℕ} {key : SessionKey} {o : ObjId}
    (hpc : r.m.gets[g]? = some (.insert key o)) : ∀ e ∈ r.m.sessions, e.1 ≠ key := by
  have hlt : g < r.asked.length := by
    rw [h.length]
    exact (List.getElem?_eq_some_iff.mp hpc).1
  exact (h.calls g _ hpc _ (List.getElem?_eq_getElem hlt)).2.2

theorem filter_absent {l : Manager.Registry} {key : SessionKey} (h : ∀ e ∈ l, e.1 ≠ key) :
    (l.filter fun e => e.1 ≠ key) = l := by
  rw [List.filter_eq_self]
  intro e he
  simpa using h e he

theorem change_keys (h : Inv r) (hs : Change r r' a) : (r'.m.sessions.map Prod.fst).Nodup := by
  cases hs with
  | same hsessions | forget _ hsessions | clear _ _ hsessions =>
    rw [hsessions]
    exact h.keys
  | insert _ hpc hsessions =>
    rw [hsessions, filter_absent (h.absent hpc), List.map_cons, List.nodup_cons]
    refine ⟨fun hmem => ?_, h.keys⟩
    obtain ⟨e, he, heq⟩ := List.mem_map.mp hmem
    exact h.absent hpc e he heq
  | remove _ _ _ hsessions =>
    rw [hsessions]
    exact h.keys.sublist (List.filter_sublist.map Prod.fst)
  | drain _ _ hsessions =>
    rw [hsessions]
    exact List.nodup_nil

theorem change_drained (h : Inv r) (hs : Change r r' a) (b : ℕ)
    (hb : r'.m.writer = some (.all b)) : r'.m.sessions = [] := by
  cases hs with
  | same hsessions _ hwriter =>
    rw [hsessions]
    exact h.drained b (hwriter b hb)
  | forget _ hsessions _ hwriter =>
    rw [hsessions]
    exact h.drained b (hwriter ▸ hb)
  | drain _ _ hsessions => exact hsessions
  | insert _ _ _ _ hwriter | remove _ _ _ _ _ hwriter | clear _ _ _ _ hwriter =>
    rw [hwriter] at hb
    cases hb

theorem Inv.empty_of_clears (h : Inv r) {pc : AllPc} (hpc : pc ∈ r.m.shutdownAlls)
    (hclears : pc.clears = true) : r.m.sessions = [] := by
  obtain ⟨b, hb⟩ := List.mem_iff_getElem?.mp hpc
  exact h.drained b ((h.registry.draining b pc hb).lock hclears)

theorem change_indexed (h : Inv r) (hs : Change r r' a) :
    ∀ e ∈ r'.m.sessions, e.2 ∈ r'.m.sessionsById := by
  intro e he
  cases hs with
  | same hsessions hids =>
    rw [hsessions] at he
    rw [hids]
    exact h.indexed e he
  | insert _ hpc hsessions hids =>
    rw [hsessions, filter_absent (h.absent hpc)] at he
    rw [hids]
    rcases List.mem_cons.mp he with rfl | he
    · exact List.mem_cons_self
    · exact List.mem_cons_of_mem _ (h.indexed e he)
  | remove _ _ _ hsessions hids =>
    rw [hsessions] at he
    rw [hids]
    exact h.indexed e (List.mem_of_mem_filter he)
  | forget ho hsessions hids =>
    rw [hsessions] at he
    rw [hids, List.mem_filter]
    refine ⟨h.indexed e he, ?_⟩
    -- a session that is leaving was taken out of `sessions`
    have hne : e.2 ≠ _ := fun heq =>
      (h.registry.registered e he).2 (heq ▸ h.retired_of_leaving ho)
    simpa using hne
  | drain _ _ hsessions =>
    rw [hsessions] at he
    cases he
  | clear hpc hclears hsessions =>
    rw [hsessions, h.empty_of_clears hpc hclears] at he
    cases he

theorem change_leaving (h : Inv r) (hs : Change r r' a) :
    ∀ o ∈ r'.m.sessionsById, (∃ key, (key, o) ∈ r'.m.sessions) ∨ r'.Leaving o := by
  intro o ho
  cases hs with
  | same hsessions hids _ hleaving =>
    rw [hids] at ho
    rw [hsessions]
    exact (h.leaving o ho).imp_right (hleaving o)
  | insert _ hpc hsessions hids _ hleaving =>
    rw [hids] at ho
    rw [hsessions, filter_absent (h.absent hpc)]
    rcases List.mem_cons.mp ho with rfl | ho
    · exact .inl ⟨_, List.mem_cons_self⟩
    · rcases h.leaving o ho with ⟨key, hmem⟩ | hl
      · exact .inl ⟨key, List.mem_cons_of_mem _ hmem⟩
      · exact .inr (hleaving o hl)
  | @remove key p _ _ hp hsessions hids _ hp' hleaving =>
    rw [hids] at ho
    rw [hsessions]
    rcases h.leaving o ho with ⟨key', hmem⟩ | hl
    · by_cases hkey : key' = key
      · subst hkey
        rw [lookup_eq h.keys hmem] at hp
        cases hp
        exact .inr hp'
      · exact .inl ⟨key', List.mem_filter.mpr ⟨hmem, by simpa using hkey⟩⟩
    · exact .inr (hleaving o hl)
  | @forget p _ hsessions hids _ hleaving =>
    rw [hids] at ho
    obtain ⟨ho, hne⟩ := List.mem_filter.mp ho
    rw [hsessions]
    exact (h.leaving o ho).imp_right (hleaving o (by simpa using hne))
  | drain _ _ hsessions hids hdrained hleaving =>
    rw [hids] at ho
    rcases h.leaving o ho with ⟨key, hmem⟩ | hl
    · exact .inr (hdrained _ hmem)
    · exact .inr (hleaving o hl)
  | clear _ _ _ hids =>
    rw [hids] at ho
    cases ho

theorem Call.congr {m m' : SessionManager} {asked : Option SessionKey} {pc : GetPc}
    (h : Call m asked pc) (hkeys : SameKeys m m') (hconfigs : m'.configs = m.configs)
    (hsub : ∀ key o, pc = .insert key o → ∀ e ∈ m'.sessions, e ∈ m.sessions) :
    Call m' asked pc := by
  cases pc with
  | create key idleTimeout => exact ⟨h.1, by rw [hconfigs]; exact h.2⟩
  | insert key o =>
    exact ⟨h.1, by rw [hconfigs]; exact h.2.1, fun e he => h.2.2 e (hsub key o rfl e he)⟩
  | returned o =>
    intro key hkey
    obtain ⟨obj, hobj, hk⟩ := h key hkey
    obtain ⟨obj', hobj', hk'⟩ := hkeys o obj hobj
    exact ⟨obj', hobj', hk'.trans hk⟩
  | _ => exact h

/-- Who is about to insert holds the lock, so nobody else adds to `sessions`. -/
theorem change_sub (h : Inv r) (hs : Change r r' a) {g : ℕ} {key : SessionKey} {o : ObjId}
    (hpc : r.m.gets[g]? = some (.insert key o)) (hne : a ≠ .manager (.getStep g)) :
    ∀ e ∈ r'.m.sessions, e ∈ r.m.sessions := by
  intro e he
  cases hs with
  | same hsessions | forget _ hsessions | clear _ _ hsessions => exact hsessions ▸ he
  | insert ha hpc' =>
    have hlock := (h.registry.pending g _ hpc).1
    rw [(h.registry.pending _ _ hpc').1] at hlock
    cases hlock
    exact absurd ha hne
  | remove _ _ _ hsessions =>
    rw [hsessions] at he
    exact List.mem_of_mem_filter he
  | drain _ _ hsessions =>
    rw [hsessions] at he
    cases he

theorem getStep_call {m m₁ : SessionManager} {g : ℕ} {pc pc' : GetPc} {asked : Option SessionKey}
    (hm : Registry.Inv m) (hpc : m.gets[g]? = some pc) (hstep : m.getStep g pc = some (m₁, pc'))
    (h : Call m asked pc) : Call m₁ asked pc' := by
  have hfound : ∀ {key : SessionKey} {o : ObjId}, m.sessions.lookup key = some o →
      asked = some key → Call m asked (.returned o) := by
    intro key o ho hasked key' hkey'
    obtain ⟨⟨obj, hobj, hkey⟩, -⟩ := hm.registered _ (lookup_mem ho)
    rw [hasked] at hkey'
    cases hkey'
    exact ⟨obj, hobj, hkey⟩
  cases SessionManager.getStep_cases hstep with
  | found ho => exact hfound ho h
  | unknown => trivial
  | configured hconfig => exact ⟨h, by rw [hconfig]; exact Option.some_ne_none _⟩
  | foundSince ho => exact hfound ho h.1
  | creates _ hnone =>
    refine ⟨h.1, h.2, fun e he heq => ?_⟩
    have hno := List.lookup_eq_none_iff.mp hnone e he
    rw [heq] at hno
    simp at hno
  | inserts key o =>
    obtain ⟨-, hobj, -⟩ := hm.pending g _ hpc
    intro key' hkey'
    rw [h.1] at hkey'
    cases hkey'
    exact hobj
  | byId id =>
    have hasked : asked = none := h
    split
    · intro key hkey
      rw [hasked] at hkey
      cases hkey
    · trivial

theorem manager_calls (h : Inv r) {a : Manager.Action} (hs : r.step (.manager a) = some r')
    {g : ℕ} {pc : GetPc} (hpc : r.m.gets[g]? = some pc) (hne : a ≠ .getStep g)
    {asked : Option SessionKey} (hasked : Call r.m asked pc) : Call r'.m asked pc := by
  have hchange := step_change hs
  obtain ⟨m, hm, rfl⟩ := step_manager hs
  refine hasked.congr (step_sameKeys hm) (step_retired hm).2 fun key o heq => ?_
  subst heq
  exact change_sub h hchange hpc (by simpa using hne)

def starts : Manager.Action → List GetPc
  | .getOrCreate key => [.lookup key]
  | .getById id => [.lookupId id]
  | _ => []

theorem step_gets {m m' : SessionManager} {a : Manager.Action} (hs : m.step a = some m')
    (hne : ∀ g, a ≠ .getStep g) : m'.gets = m.gets ++ starts a := by
  cases a with
  | getStep g => exact absurd rfl (hne g)
  | getOrCreate key | getById id =>
    cases hs
    rfl
  | shutdownAll | tick d =>
    cases hs
    exact (List.append_nil _).symm
  | ask g =>
    obtain ⟨o, obj, -, -, rfl⟩ := SessionManager.step_ask hs
    exact (List.append_nil _).symm
  | askStep o i out =>
    obtain ⟨obj, sys, -, -, -, rfl⟩ := SessionManager.step_askStep hs
    exact (List.append_nil _).symm
  | shutdownStep o j =>
    obtain ⟨obj, sys, -, -, rfl⟩ := SessionManager.step_shutdownStep hs
    exact (List.append_nil _).symm
  | reapStep order =>
    obtain ⟨m₁, pc, hstep, rfl⟩ := SessionManager.step_reapStep hs
    generalize m.reaper = reaper at hstep
    cases SessionManager.reapStep_cases hstep with
    | shuts hdown =>
      obtain ⟨obj, -, -, rfl⟩ := SessionManager.shutdown_eq hdown
      exact (List.append_nil _).symm
    | goesOn | marks | takes => exact (List.append_nil _).symm
  | shutdownAllStep b order =>
    obtain ⟨pc, m₁, pc', -, hstep, rfl⟩ := SessionManager.step_shutdownAllStep hs
    cases SessionManager.shutdownAllStep_cases hstep with
    | shuts hdown =>
      obtain ⟨obj, -, -, rfl⟩ := SessionManager.shutdown_eq hdown
      exact (List.append_nil _).symm
    | drains | clears | ends | joins => exact (List.append_nil _).symm

theorem getStep_gets {m m₁ : SessionManager} {g : ℕ} {pc pc' : GetPc}
    (hstep : m.getStep g pc = some (m₁, pc')) : m₁.gets = m.gets := by
  cases SessionManager.getStep_cases hstep <;> rfl

theorem starts_call {m : SessionManager} {a : Manager.Action} {k : ℕ} {pc : GetPc}
    {asked : Option SessionKey} (hpc : (starts a)[k]? = some pc)
    (hasked : (begun a)[k]? = some asked) : Call m asked pc := by
  cases a with
  | getOrCreate key | getById id =>
    rw [starts, List.getElem?_singleton] at hpc
    rw [begun, List.getElem?_singleton] at hasked
    split at hpc
    · next hk =>
      rw [if_pos hk] at hasked
      cases hpc
      cases hasked
      rfl
    · cases hpc
  | _ => cases hpc

theorem step_calls (h : Inv r) (hs : r.step a = some r') :
    r'.asked.length = r'.m.gets.length ∧
      ∀ (g : ℕ) (pc : GetPc), r'.m.gets[g]? = some pc → ∀ asked ∈ r'.asked[g]?,
        Call r'.m asked pc := by
  cases a with
  | removeSession key =>
    cases hs
    exact ⟨h.length, h.calls⟩
  | removeStep i =>
    have hchange := step_change hs
    obtain ⟨pc, m, pc', -, hstep, rfl⟩ := step_removeStep hs
    have hm := removeStep_frame hstep
    refine ⟨h.length.trans (by rw [hm.1]), fun g pc hpc asked hasked => ?_⟩
    simp only [hm.1] at hpc
    refine (h.calls g pc hpc asked hasked).congr ?_ hm.2.1 fun key o heq => ?_
    · intro o obj hobj
      exact ⟨obj, by rwa [hm.2.2], rfl⟩
    · subst heq
      exact change_sub h hchange hpc (by simp)
  | manager a =>
    by_cases hget : ∃ g, a = .getStep g
    · obtain ⟨g, rfl⟩ := hget
      have hother : ∀ (j : ℕ) (q : GetPc), r.m.gets[j]? = some q → j ≠ g → ∀ asked,
          Call r.m asked q → Call r'.m asked q :=
        fun j q hq hne asked => manager_calls h hs hq (by simpa using Ne.symm hne)
      obtain ⟨m, hm, rfl⟩ := step_manager hs
      obtain ⟨pc, m₁, pc', hpc, hstep, rfl⟩ := SessionManager.step_getStep hm
      simp only [begun, List.append_nil, List.length_set, getStep_gets hstep] at hother ⊢
      refine ⟨h.length, ?_⟩
      refine indexed_set (fun j q hne hq asked hasked => ?_) fun asked hasked => ?_
      · exact hother j q hq hne asked (h.calls j q hq asked hasked)
      · have hcall := getStep_call h.registry hpc hstep (h.calls g pc hpc asked hasked)
        exact hcall.congr (fun o obj hobj => ⟨obj, hobj, rfl⟩) rfl fun _ _ _ e he => he
    · have hne : ∀ g, a ≠ .getStep g := fun g heq => hget ⟨g, heq⟩
      have hother : ∀ (j : ℕ) (q : GetPc), r.m.gets[j]? = some q → ∀ asked,
          Call r.m asked q → Call r'.m asked q :=
        fun j q hq asked => manager_calls h hs hq (hne j)
      obtain ⟨m, hm, rfl⟩ := step_manager hs
      have hgets := step_gets hm hne
      refine ⟨?_, fun g pc hpc asked hasked => ?_⟩
      · rw [hgets, List.length_append, List.length_append, h.length]
        cases a <;> rfl
      · simp only [hgets, List.getElem?_append, Option.mem_def, h.length] at hpc hasked
        split at hpc
        · next hlt =>
          rw [if_pos hlt] at hasked
          exact hother g pc hpc asked (h.calls g pc hpc asked hasked)
        · next hge =>
          rw [if_neg hge] at hasked
          exact starts_call hpc hasked

theorem step_inv (r : Registrar) (a : Action) (r' : Registrar) (h : Inv r)
    (hs : r.step a = some r') : Inv r' := by
  have hchange := step_change hs
  obtain ⟨hlength, hcalls⟩ := step_calls h hs
  refine ⟨?_, ?_, change_keys h hchange, change_drained h hchange, change_indexed h hchange,
    change_leaving h hchange, hlength, hcalls⟩
  · cases a with
    | manager a =>
      obtain ⟨m, hm, rfl⟩ := step_manager hs
      exact Registry.step_inv r.m a m h.registry hm
    | removeSession key =>
      cases hs
      exact h.registry
    | removeStep i =>
      obtain ⟨pc, m, pc', -, hstep, rfl⟩ := step_removeStep hs
      cases removeStep_cases hstep with
      | misses => exact h.registry
      | takes hfree ho => exact h.registry.remove hfree ho
      | forgets o =>
        have hm := h.registry
        exact ⟨hm.registered, hm.pending, hm.draining, hm.condemned, hm.untouched, hm.retired⟩
  · cases a with
    | manager a =>
      obtain ⟨m, hm, rfl⟩ := step_manager hs
      exact fun o ho => (step_retired hm).1 o (h.removed o ho)
    | removeSession key =>
      cases hs
      intro o ho
      rcases List.mem_append.mp ho with ho | ho
      · exact h.removed o ho
      · simp at ho
    | removeStep i =>
      obtain ⟨pc, m, pc', -, hstep, rfl⟩ := step_removeStep hs
      intro o ho
      cases removeStep_cases hstep with
      | misses | forgets =>
        rcases List.mem_or_eq_of_mem_set ho with ho | ho
        · exact h.removed o ho
        · cases ho
      | takes =>
        rcases List.mem_or_eq_of_mem_set ho with ho | ho
        · exact List.mem_cons_of_mem _ (h.removed o ho)
        · cases ho
          exact List.mem_cons_self

end Maps

/-- In this step the call `g` of `get_or_create` for `key` reads or inserts the
session `o`, which it returns. -/
def Returns (r r' : Registrar) (g : ℕ) (key : SessionKey) (o : ObjId) : Prop :=
  r.asked[g]? = some (some key) ∧ r.m.gets[g]? ≠ some (.returned o) ∧
    r'.m.gets[g]? = some (.returned o)

section Agreement
variable {r r' : Registrar} {a : Action} {g : ℕ} {key : SessionKey} {o : ObjId}

theorem Returns.getStep (h : Returns r r' g key o) (hs : r.step a = some r') :
    a = .manager (.getStep g) := by
  obtain ⟨-, hno, hpc⟩ := h
  cases a with
  | removeSession key =>
    cases hs
    exact absurd hpc hno
  | removeStep i =>
    obtain ⟨pc, m, pc', -, hstep, rfl⟩ := step_removeStep hs
    simp only [(removeStep_frame hstep).1] at hpc
    exact absurd hpc hno
  | manager a =>
    obtain ⟨m, hm, rfl⟩ := step_manager hs
    by_cases hget : ∃ g', a = .getStep g'
    · obtain ⟨g', rfl⟩ := hget
      obtain ⟨pc, m₁, pc', -, hstep, rfl⟩ := SessionManager.step_getStep hm
      by_cases hgg : g' = g
      · rw [hgg]
      · simp only [getStep_gets hstep, List.getElem?_set_ne hgg] at hpc
        exact absurd hpc hno
    · have hgets := step_gets hm fun g' heq => hget ⟨g', heq⟩
      simp only [hgets, List.getElem?_append] at hpc
      split at hpc
      · exact absurd hpc hno
      · have hmem := List.mem_of_getElem? hpc
        cases a <;> simp [starts] at hmem

theorem Returns.cases (hr : Inv r) (h : Returns r r' g key o) (hs : r.step a = some r') :
    (r'.m.sessions = r.m.sessions ∧ r.m.sessions.lookup key = some o) ∨
      (r.m.gets[g]? = some (.insert key o) ∧ (key, o) ∈ r'.m.sessions) := by
  obtain rfl := h.getStep hs
  obtain ⟨hasked, -, hpc'⟩ := h
  obtain ⟨m, hm, rfl⟩ := step_manager hs
  obtain ⟨pc, m₁, pc', hpc, hstep, rfl⟩ := SessionManager.step_getStep hm
  have hcall := hr.calls g pc hpc _ hasked
  rw [getStep_gets hstep, List.getElem?_set_self (List.getElem?_eq_some_iff.mp hpc).1] at hpc'
  have hto : pc' = .returned o := Option.some.inj hpc'
  cases SessionManager.getStep_cases hstep with
  | found ho =>
    cases hto
    obtain rfl := Option.some.inj hcall
    exact .inl ⟨rfl, ho⟩
  | foundSince ho =>
    cases hto
    obtain rfl := Option.some.inj hcall.1
    exact .inl ⟨rfl, ho⟩
  | inserts key' p =>
    cases hto
    obtain rfl := Option.some.inj hcall.1
    exact .inr ⟨hpc, List.mem_cons_self⟩
  | byId id => cases hcall
  | unknown | configured | creates => cases hto

theorem Returns.mem (hr : Inv r) (h : Returns r r' g key o) (hs : r.step a = some r') :
    (key, o) ∈ r'.m.sessions := by
  rcases h.cases hr hs with ⟨hsame, ho⟩ | ⟨-, hmem⟩
  · rw [hsame]
    exact lookup_mem ho
  · exact hmem

theorem Returns.unique (hr : Inv r) {p : ObjId} (h : Returns r r' g key p) (hs : r.step a = some r')
    (hmem : (key, o) ∈ r.m.sessions) : o = p := by
  rcases h.cases hr hs with ⟨-, hp⟩ | ⟨hpc, -⟩
  · rw [lookup_eq hr.keys hmem] at hp
    exact Option.some.inj hp
  · exact absurd rfl (hr.absent hpc _ hmem)

theorem step_registered (r : Registrar) (a : Action) (r' : Registrar)
    (h : Inv r ∧ (key, o) ∈ r.m.sessions) (hno : ¬ r.Removes key a) (hs : r.step a = some r') :
    Inv r' ∧ (key, o) ∈ r'.m.sessions := by
  obtain ⟨hr, hmem⟩ := h
  refine ⟨step_inv r a r' hr hs, ?_⟩
  cases step_change hs with
  | same hsessions | forget _ hsessions | clear _ _ hsessions =>
    rw [hsessions]
    exact hmem
  | insert _ hpc hsessions =>
    rw [hsessions, filter_absent (hr.absent hpc)]
    exact List.mem_cons_of_mem _ hmem
  | @remove key' _ hremoves _ _ hsessions =>
    rw [hsessions, List.mem_filter]
    refine ⟨hmem, ?_⟩
    have hne : key ≠ key' := by
      rintro rfl
      exact hno hremoves
    simpa using hne
  | drain hremoves => exact absurd (hremoves key) hno

theorem unknown_unchanged (hr : Inv r) (hs : r.step (.manager (.getStep g)) = some r')
    (hasked : r.asked[g]? = some (some key)) (hunknown : r.m.configs.lookup key.agent = none) :
    r'.m.sessions = r.m.sessions ∧ r'.m.sessionsById = r.m.sessionsById := by
  obtain ⟨m, hm, rfl⟩ := step_manager hs
  obtain ⟨pc, m₁, pc', hpc, hstep, rfl⟩ := SessionManager.step_getStep hm
  have hcall := hr.calls g pc hpc _ hasked
  cases SessionManager.getStep_cases hstep with
  | found | unknown | configured | foundSince | byId => exact ⟨rfl, rfl⟩
  | creates =>
    obtain rfl := Option.some.inj hcall.1
    exact absurd hunknown hcall.2
  | inserts key' p =>
    obtain rfl := Option.some.inj hcall.1
    exact absurd hunknown hcall.2.1

end Agreement

section Runs
variable {configs : List (String × ℕ)} {acts : List Action} {r : Registrar}

theorem run_inv (hrun : run Registrar.step (.new configs) acts = some r) : Inv r :=
  preserved step_inv (inv_new configs) hrun

theorem step_configs (r : Registrar) (a : Action) (r' : Registrar) (h : r.m.configs = configs)
    (hs : r.step a = some r') : r'.m.configs = configs := by
  cases a with
  | manager a =>
    obtain ⟨m, hm, rfl⟩ := step_manager hs
    exact (step_retired hm).2.trans h
  | removeSession key =>
    cases hs
    exact h
  | removeStep i =>
    obtain ⟨pc, m, pc', -, hstep, rfl⟩ := step_removeStep hs
    exact (removeStep_frame hstep).2.1.trans h

end Runs

/-- The maps agree up to the removals in progress: what is in `sessions` is
indexed by its id and stored under its own key, and what only `sessions_by_id`
still has is leaving. Both hold the same sessions when nothing is leaving. -/
theorem indexes_agree (configs : List (String × ℕ)) (acts : List Action) (r : Registrar)
    (hrun : run Registrar.step (.new configs) acts = some r) :
    (∀ e ∈ r.m.sessions, e.2 ∈ r.m.sessionsById ∧
      ∃ obj, r.m.objs[e.2]? = some obj ∧ obj.key = e.1) ∧
    (∀ o ∈ r.m.sessionsById, (∀ key, (key, o) ∉ r.m.sessions) → r.Leaving o) ∧
    ((∀ o, ¬ r.Leaving o) →
      ∀ o, o ∈ r.m.sessionsById ↔ ∃ key, (key, o) ∈ r.m.sessions) := by
  have h := run_inv hrun
  have hleaving : ∀ o ∈ r.m.sessionsById, (∀ key, (key, o) ∉ r.m.sessions) → r.Leaving o := by
    intro o ho hno
    rcases h.leaving o ho with ⟨key, hmem⟩ | hl
    · exact absurd hmem (hno key)
    · exact hl
  refine ⟨fun e he => ⟨h.indexed e he, (h.registry.registered e he).1⟩, hleaving, ?_⟩
  intro hnone o
  constructor
  · intro ho
    by_contra hno
    rw [not_exists] at hno
    exact hnone o (hleaving o ho hno)
  · rintro ⟨key, hmem⟩
    exact h.indexed _ hmem

def gets (g n : ℕ) : List Action := List.replicate n (.manager (.getStep g))

/-- The key of session 0 is taken and made anew as session 1 before the removal
comes to the second map. -/
def remade : List Action :=
  [.manager (.getOrCreate project)] ++ gets 0 3 ++
    [.removeSession project, .removeStep 0, .manager (.getOrCreate project)] ++ gets 1 3

theorem indexes_agree_remade :
    ∃ r, run Registrar.step (.new [("codex", 600)]) remade = some r ∧
      r.m.sessions = [(project, 1)] ∧ r.m.sessionsById = [1, 0] ∧ r.Leaving 0 := by
  obtain ⟨r, hrun, hsessions, hids⟩ := exists_run (s := Registrar.new [("codex", 600)])
    (fun r => r.m.sessions = [(project, 1)] ∧ r.m.sessionsById = [1, 0])
    (by decide : (run Registrar.step (.new [("codex", 600)]) remade).any _ = true)
  refine ⟨r, hrun, hsessions, hids, (indexes_agree _ _ r hrun).2.1 0 ?_ fun key => ?_⟩
  · simp [hids]
  · simp [hsessions]

/-- Two calls for one key return the same session, unless a removal of the key
takes effect after the one and before the other gets to it. Calls for different
keys never share a session, and a call for an agent without a configuration
leaves both maps as they are. -/
theorem creation_agrees (configs : List (String × ℕ)) (acts : List Action) (r : Registrar)
    (hrun : run Registrar.step (.new configs) acts = some r) :
    (∀ key before a mid b after u u' v v', acts = before ++ a :: (mid ++ b :: after) →
      run Registrar.step (.new configs) before = some u → u.step a = some u' →
      run Registrar.step u' mid = some v → v.step b = some v' →
      Along Registrar.step (fun w c => ¬ w.Removes key c) u' mid →
      ∀ g g' o o', Returns u u' g key o → Returns v v' g' key o' → o = o') ∧
    (∀ (g g' : ℕ) key key' o, r.asked[g]? = some (some key) → r.asked[g']? = some (some key') →
      r.m.gets[g]? = some (.returned o) → r.m.gets[g']? = some (.returned o) → key = key') ∧
    ∀ u a u' after (g : ℕ) key, Visit Registrar.step (.new configs) acts u a u' after →
      a = .manager (.getStep g) → u.asked[g]? = some (some key) → configs.lookup key.agent = none →
      u'.m.sessions = u.m.sessions ∧ u'.m.sessionsById = u.m.sessionsById := by
  refine ⟨?_, ?_, ?_⟩
  · intro key before a mid b after u u' v v' _ hu ha hmid hb hkeep g g' o o' hg hg'
    have hinv := run_inv hu
    have hinv' := step_inv u a u' hinv ha
    obtain ⟨hv, hmem⟩ := invariant step_registered ⟨hinv', hg.mem hinv ha⟩ hkeep hmid
    exact hg'.unique hv hb hmem
  · intro g g' key key' o hasked hasked' hpc hpc'
    have h := run_inv hrun
    obtain ⟨obj, hobj, hkey⟩ := h.calls g _ hpc _ hasked key rfl
    obtain ⟨obj', hobj', hkey'⟩ := h.calls g' _ hpc' _ hasked' key' rfl
    rw [hobj] at hobj'
    cases hobj'
    exact hkey.symm.trans hkey'
  · rintro u a u' after g key hvisit rfl hasked hunknown
    have hinv := hvisit.preserved step_inv (inv_new configs)
    have hstart : (Registrar.new configs).m.configs = configs := rfl
    have hconfigs := hvisit.preserved step_configs hstart
    exact unknown_unchanged hinv hvisit.step hasked (hconfigs ▸ hunknown)

def raced : List Action :=
  [.manager (.getOrCreate project), .manager (.getOrCreate project),
    .manager (.getOrCreate ⟨"codex", "/other"⟩)] ++ gets 0 1 ++ gets 1 1 ++ gets 0 2 ++ gets 1 1 ++
    gets 2 3

theorem creation_agrees_raced :
    ∃ r, run Registrar.step (.new [("codex", 600)]) raced = some r ∧
      r.m.gets = [.returned 0, .returned 0, .returned 1] ∧
      ∀ key, r.asked[1]? = some (some key) → key = project := by
  obtain ⟨r, hrun, hgets, hasked⟩ := exists_run (s := Registrar.new [("codex", 600)])
    (fun r => r.m.gets = [.returned 0, .returned 0, .returned 1] ∧
      r.asked[0]? = some (some project))
    (by decide : (run Registrar.step (.new [("codex", 600)]) raced).any _ = true)
  refine ⟨r, hrun, hgets, fun key hkey => ?_⟩
  exact (creation_agrees _ _ r hrun).2.1 1 0 key project 0 hkey hasked (by simp [hgets])
    (by simp [hgets])

end Ccgonext.Indexes
