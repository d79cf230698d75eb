import Ccgonext.Registry

/-!
# Shutting everything down

`shutdown_all` drains the registry and shuts the drained sessions down one after
the other, whatever their asks are doing. A shutdown takes the client that is
stored at that moment and writes `Dead` later on; what an ask stores or writes
afterwards stays. Every drained session ends down as long as no ask on it stores
a client behind the back of the shutdown or writes over its `Dead`.
-/

namespace Ccgonext.ShutdownAll
open Lib Lib.Runs Lib.Pool Session Manager

def Taken (s : Sys) : Prop := ∃ q ∈ s.shutdowns, q.beforeTake = false

def Died (s : Sys) : Prop := ∃ q ∈ s.shutdowns, q.beforeProcess = false

instance (s : Sys) : Decidable (Taken s) := inferInstanceAs (Decidable (∃ _ ∈ _, _))

instance (s : Sys) : Decidable (Died s) := inferInstanceAs (Decidable (∃ _ ∈ _, _))

/-- The next step neither stores a client nor writes `Starting` or `Running`
when a shutdown has done its part. -/
def Yields (s : Sys) : AskPc → Prop
  | .storeClient _ => ¬ Taken s
  | .setProcess next => Died s → next.process = .dead
  | _ => True

instance (s : Sys) (pc : AskPc) : Decidable (Yields s pc) := by
  rcases pc <;> dsimp only [Yields] <;> infer_instance

def AsksYield (m : SessionManager) : Manager.Action → Prop
  | .askStep o i _ => o ∈ m.drained → ∀ obj ∈ m.objs[o]?, ∀ pc ∈ obj.sys.asks[i]?, Yields obj.sys pc
  | _ => True

instance (m : SessionManager) (a : Manager.Action) : Decidable (AsksYield m a) := by
  rcases a <;> dsimp only [AsksYield] <;> infer_instance

/-- Every session drained by a finished `shutdown_all` is down. -/
def Emptied (m : SessionManager) : Prop :=
  ∀ pc ∈ m.shutdownAlls, ∀ drained, pc = .returned drained → ∀ o ∈ drained,
    ∃ obj, m.objs[o]? = some obj ∧ obj.sys.session.client = none ∧
      obj.sys.session.processState ≠ .starting ∧ obj.sys.session.processState ≠ .running

structure Down (s : Sys) : Prop where
  client : Taken s → s.session.client = none
  process : Died s → s.session.processState.canStart = true

theorem Down.of_untouched {s : Sys} (h : s.shutdowns = []) : Down s := by
  constructor <;>
    · rintro ⟨q, hq, -⟩
      rw [h] at hq
      cases hq

theorem Down.askStep {s s' : Sys} {i : ℕ} {o : Outcome} (h : Down s)
    (hC : ∀ pc ∈ s.asks[i]?, Yields s pc) (hs : s.step (.askStep i o) = some s') : Down s' := by
  obtain ⟨pc, session, pc', hpc, hstep, rfl⟩ := Sys.step_askStep hs
  have hyields := hC pc hpc
  constructor
  · intro htaken
    rcases askStep_client hstep (h.client htaken) with hn | ⟨client, rfl⟩
    · exact hn
    · exact absurd htaken hyields
  · intro hdied
    rcases askStep_processState hstep with hp | ⟨next, rfl, hp⟩
    · rw [hp]
      exact h.process hdied
    · rw [hp, hyields hdied]
      rfl

theorem shutdownStep_taken {s s' : AcpSession} {q q' : ShutdownPc}
    (h : Session.shutdownStep s q = some (s', q')) (hq : q.beforeTake = true)
    (hq' : q'.beforeTake = false) : s'.client = none := by
  cases q <;> simp only [Session.shutdownStep] at h
  case takeClient =>
    split at h
    · cases h
      rfl
    · next hn =>
      cases h
      exact hn
  case readPid =>
    cases h
    cases hq'
  all_goals cases hq

theorem shutdownStep_died {s s' : AcpSession} {q q' : ShutdownPc}
    (h : Session.shutdownStep s q = some (s', q')) (hq : q.beforeProcess = true)
    (hq' : q'.beforeProcess = false) : s'.processState = .dead := by
  cases q <;> simp only [Session.shutdownStep] at h
  case setProcess =>
    cases h
    rfl
  case takeClient =>
    split at h <;>
      · cases h
        cases hq'
  case readPid | shutdownClient | clearPid | clearSessionId =>
    cases h
    cases hq'
  all_goals cases hq

theorem Down.shutdownStep {s s' : Sys} {j : ℕ} (h : Down s)
    (hs : s.step (.shutdownStep j) = some s') : Down s' := by
  obtain ⟨q, session, q', hq, hstep, rfl⟩ := Sys.step_shutdownStep hs
  have hmem : q ∈ s.shutdowns := List.mem_of_getElem? hq
  constructor
  · rintro ⟨r, hr, hr'⟩
    by_cases htaken : Taken s
    · exact shutdownStep_client hstep (h.client htaken)
    · have hall : ∀ r ∈ s.shutdowns, r.beforeTake = true := by
        intro r hr
        by_contra hno
        exact htaken ⟨r, hr, Bool.eq_false_iff.mpr hno⟩
      rcases List.mem_or_eq_of_mem_set hr with hr | rfl
      · rw [hall r hr] at hr'
        cases hr'
      · exact shutdownStep_taken hstep (hall q hmem) hr'
  · rintro ⟨r, hr, hr'⟩
    by_cases hdied : Died s
    · rcases shutdownStep_processState hstep with hp | hp
      · rw [hp]
        exact h.process hdied
      · rw [hp]
        rfl
    · have hall : ∀ r ∈ s.shutdowns, r.beforeProcess = true := by
        intro r hr
        by_contra hno
        exact hdied ⟨r, hr, Bool.eq_false_iff.mpr hno⟩
      rcases List.mem_or_eq_of_mem_set hr with hr | rfl
      · rw [hall r hr] at hr'
        cases hr'
      · rw [shutdownStep_died hstep (hall q hmem) hr']
        rfl

theorem Down.shutdown {s : Sys} (h : Down s) :
    Down { s with shutdowns := s.shutdowns ++ [.readPid] } := by
  constructor
  · rintro ⟨q, hq, hq'⟩
    rcases List.mem_append.mp hq with hq | hq
    · exact h.client ⟨q, hq, hq'⟩
    · rw [List.mem_singleton.mp hq] at hq'
      cases hq'
  · rintro ⟨q, hq, hq'⟩
    rcases List.mem_append.mp hq with hq | hq
    · exact h.process ⟨q, hq, hq'⟩
    · rw [List.mem_singleton.mp hq] at hq'
      cases hq'

def Finished (m : SessionManager) (o : ObjId) : Prop :=
  ∃ obj, m.objs[o]? = some obj ∧ .returned ∈ obj.sys.shutdowns

def Reached (m : SessionManager) (pc : AllPc) (o : ObjId) : Prop :=
  o ∈ pc.todo ∨ (∃ drained j todo, pc = .wait drained o j todo) ∨ Finished m o

structure Inv (m : SessionManager) : Prop where
  registry : Registry.Inv m
  down : ∀ (o : ObjId) (obj : Obj), m.objs[o]? = some obj → o ∈ m.drained → Down obj.sys
  reached : ∀ pc ∈ m.shutdownAlls, ∀ o ∈ pc.drained, Reached m pc o

theorem inv_new (configs : List (String × ℕ)) : Inv (.new configs) :=
  ⟨Registry.inv_new configs, nofun, nofun⟩

theorem mem_drained {m : SessionManager} {o : ObjId} :
    o ∈ m.drained ↔ ∃ pc ∈ m.shutdownAlls, o ∈ pc.drained := List.mem_flatMap

section Steps
variable {m m' : SessionManager} {a : Manager.Action}

theorem Finished.step {o : ObjId} (h : Finished m o) (hs : m.step a = some m') :
    Finished m' o := by
  obtain ⟨obj, hobj, hret⟩ := h
  obtain ⟨obj', hobj', hstep⟩ := SessionManager.step_obj hs hobj
  refine ⟨obj', hobj', ?_⟩
  cases hstep with
  | same | ask => exact hret
  | askStep hsys htime =>
    obtain ⟨pc, session, pc', -, -, rfl⟩ := Sys.step_askStep hsys
    exact hret
  | shutdown => exact List.mem_append_left _ hret
  | shutdownStep hsys =>
    obtain ⟨r, session, r', hr, hrstep, rfl⟩ := Sys.step_shutdownStep hsys
    rcases exists_set (P := (· = .returned)) hr r' ⟨_, hret, rfl⟩ with ⟨t, ht, rfl⟩ | rfl
    · exact ht
    · cases hrstep

theorem down_step (h : Inv m) (hC : AsksYield m a) (hs : m.step a = some m') {o : ObjId}
    {obj' : Obj} (hobj' : m'.objs[o]? = some obj') (ho : o ∈ m.drained) : Down obj'.sys := by
  rcases SessionManager.step_obj_inv hs hobj' with ⟨obj, hobj, hstep⟩ | ⟨-, key, t, rfl⟩
  · have hd := h.down o obj hobj ho
    cases hstep with
    | same => exact hd
    | ask hhandle => exact ⟨hd.client, hd.process⟩
    | askStep hsys htime => exact hd.askStep (hC ho obj hobj) hsys
    | shutdown => exact hd.shutdown
    | shutdownStep hsys => exact hd.shutdownStep hsys
  · exact .of_untouched rfl

theorem step_shutdownAlls (hs : m.step a = some m')
    (ha : ∀ b order, a ≠ .shutdownAllStep b order) :
    m'.shutdownAlls = m.shutdownAlls ∨ m'.shutdownAlls = m.shutdownAlls ++ [.drain] := by
  cases a with
  | getOrCreate key | getById id | tick d =>
    cases hs
    exact .inl rfl
  | shutdownAll =>
    cases hs
    exact .inr rfl
  | getStep g =>
    obtain ⟨pc, m₁, pc', -, hstep, rfl⟩ := SessionManager.step_getStep hs
    cases SessionManager.getStep_cases hstep <;> exact .inl rfl
  | ask g =>
    obtain ⟨o, obj, -, -, rfl⟩ := SessionManager.step_ask hs
    exact .inl rfl
  | askStep o i out =>
    obtain ⟨obj, sys, -, -, -, rfl⟩ := SessionManager.step_askStep hs
    exact .inl rfl
  | shutdownStep o j =>
    obtain ⟨obj, sys, -, -, rfl⟩ := SessionManager.step_shutdownStep hs
    exact .inl rfl
  | reapStep order =>
    obtain ⟨m₁, pc, hstep, rfl⟩ := SessionManager.step_reapStep hs
    generalize m.reaper = reaper at hstep
    cases SessionManager.reapStep_cases hstep with
    | goesOn | marks | takes => exact .inl rfl
    | shuts hdown =>
      obtain ⟨obj, -, -, rfl⟩ := SessionManager.shutdown_eq hdown
      exact .inl rfl
  | shutdownAllStep b order => exact absurd rfl (ha b order)

theorem Inv.advance (h : Inv m) {b : ℕ} {pc pc' : AllPc} (hreg : Registry.Inv m')
    (hpc : m.shutdownAlls[b]? = some pc) (halls : m'.shutdownAlls = m.shutdownAlls.set b pc')
    (hdrained : pc'.drained = pc.drained)
    (hdown : ∀ (o : ObjId) (obj' : Obj), m'.objs[o]? = some obj' → o ∈ m.drained → Down obj'.sys)
    (hfinished : ∀ o, Finished m o → Finished m' o)
    (hreached : ∀ o, Reached m pc o → Reached m' pc' o) : Inv m' := by
  refine ⟨hreg, ?_, ?_⟩
  · intro o obj' hobj' ho
    obtain ⟨r, hr, hor⟩ := mem_drained.mp ho
    rw [halls] at hr
    rcases List.mem_or_eq_of_mem_set hr with hr | rfl
    · exact hdown o obj' hobj' (mem_drained.mpr ⟨r, hr, hor⟩)
    · rw [hdrained] at hor
      exact hdown o obj' hobj' (mem_drained.mpr ⟨pc, List.mem_of_getElem? hpc, hor⟩)
  · intro r hr o ho
    rw [halls] at hr
    rcases List.mem_or_eq_of_mem_set hr with hr | rfl
    · exact (h.reached r hr o ho).imp id (.imp id (hfinished o))
    · rw [hdrained] at ho
      exact hreached o (h.reached pc (List.mem_of_getElem? hpc) o ho)

theorem shutdownAllStep_inv {b : ℕ} {order : Manager.Registry} (h : Inv m)
    (hs : m.step (.shutdownAllStep b order) = some m') : Inv m' := by
  have hreg : Registry.Inv m' := Registry.step_inv m _ m' h.registry hs
  have hdown : ∀ (o : ObjId) (obj' : Obj), m'.objs[o]? = some obj' → o ∈ m.drained →
      Down obj'.sys :=
    fun o obj' hobj' ho => down_step (a := .shutdownAllStep b order) h trivial hs hobj' ho
  have hfinished : ∀ o, Finished m o → Finished m' o := fun o ho => ho.step hs
  obtain ⟨pc, m₁, pc', hpc, hstep, rfl⟩ := SessionManager.step_shutdownAllStep hs
  cases SessionManager.shutdownAllStep_cases hstep with
  | drains hfree hperm =>
    refine ⟨hreg, ?_, ?_⟩
    · intro o obj' hobj' ho
      by_cases hold : o ∈ m.drained
      · exact hdown o obj' hobj' hold
      · have hnew : o ∈ order.map Prod.snd := by
          obtain ⟨r, hr, hor⟩ := mem_drained.mp ho
          rcases List.mem_or_eq_of_mem_set hr with hr | rfl
          · exact absurd (mem_drained.mpr ⟨r, hr, hor⟩) hold
          · exact hor
        -- it was registered, so nobody has shut it down
        obtain ⟨e, he, rfl⟩ := List.mem_map.mp hnew
        have hno := (h.registry.registered e (hperm.mem_iff.mp he)).2
        exact .of_untouched (h.registry.untouched e.2 obj' hobj' hno)
    · intro r hr o ho
      rcases List.mem_or_eq_of_mem_set hr with hr | rfl
      · exact (h.reached r hr o ho).imp id (.imp id (hfinished o))
      · exact .inl ho
  | clears drained =>
    refine h.advance hreg hpc rfl rfl hdown hfinished ?_
    rintro o (ho | ⟨_, _, _, hwait⟩ | hfin)
    · exact .inl ho
    · cases hwait
    · exact .inr (.inr (hfinished o hfin))
  | ends drained =>
    refine h.advance hreg hpc rfl rfl hdown hfinished ?_
    rintro o (ho | ⟨_, _, _, hwait⟩ | hfin)
    · cases ho
    · cases hwait
    · exact .inr (.inr (hfinished o hfin))
  | @shuts drained todo p m₂ j hcall =>
    obtain ⟨obj, -, -, rfl⟩ := SessionManager.shutdown_eq hcall
    refine h.advance hreg hpc rfl rfl hdown hfinished ?_
    rintro o (ho | ⟨_, _, _, hwait⟩ | hfin)
    · rcases List.mem_cons.mp ho with rfl | ho
      · exact .inr (.inl ⟨drained, j, todo, rfl⟩)
      · exact .inl ho
    · cases hwait
    · exact .inr (.inr (hfinished o hfin))
  | @joins drained todo p j hret =>
    refine h.advance hreg hpc rfl rfl hdown hfinished ?_
    rintro o (ho | ⟨_, _, _, hwait⟩ | hfin)
    · exact .inl ho
    · cases hwait
      obtain ⟨obj, hobj, hj⟩ := hret
      exact .inr (.inr ⟨obj, hobj, List.mem_of_getElem? hj⟩)
    · exact .inr (.inr (hfinished o hfin))

theorem step_inv (m : SessionManager) (a : Manager.Action) (m' : SessionManager) (h : Inv m)
    (hC : AsksYield m a) (hs : m.step a = some m') : Inv m' := by
  by_cases ha : ∃ b order, a = .shutdownAllStep b order
  · obtain ⟨b, order, rfl⟩ := ha
    exact shutdownAllStep_inv h hs
  · have hdrained : m'.drained = m.drained := by
      rcases step_shutdownAlls hs (fun b order hb => ha ⟨b, order, hb⟩) with hall | hall <;>
        simp [SessionManager.drained, hall, AllPc.drained]
    refine ⟨Registry.step_inv m a m' h.registry hs, ?_, ?_⟩
    · intro o obj' hobj' ho
      rw [hdrained] at ho
      exact down_step h hC hs hobj' ho
    · intro pc hpc o ho
      have hold : pc ∈ m.shutdownAlls := by
        rcases step_shutdownAlls hs (fun b order hb => ha ⟨b, order, hb⟩) with hall | hall
        · rwa [hall] at hpc
        · rw [hall] at hpc
          rcases List.mem_append.mp hpc with hpc | hpc
          · exact hpc
          · rw [List.mem_singleton.mp hpc] at ho
            cases ho
      exact (h.reached pc hold o ho).imp id (.imp id (·.step hs))

end Steps

theorem Inv.emptied {m : SessionManager} (h : Inv m) : Emptied m := by
  rintro pc hpc drained rfl o ho
  rcases h.reached _ hpc o ho with htodo | ⟨_, _, _, hwait⟩ | ⟨obj, hobj, hret⟩
  · cases htodo
  · cases hwait
  · have hdown := h.down o obj hobj (mem_drained.mpr ⟨_, hpc, ho⟩)
    have hcan := hdown.process ⟨_, hret, rfl⟩
    refine ⟨obj, hobj, hdown.client ⟨_, hret, rfl⟩, ?_, ?_⟩ <;>
      · intro hp
        rw [hp] at hcan
        cases hcan

/-- Where asks yield to the shutdowns, a finished `shutdown_all` leaves every
session it drained without a client and neither running nor starting. -/
theorem emptied_of_asksYield (configs : List (String × ℕ)) (acts : List Manager.Action)
    (m : SessionManager) (hrun : run SessionManager.step (.new configs) acts = some m)
    (hyield : Along SessionManager.step AsksYield (.new configs) acts) : Emptied m :=
  (invariant step_inv (inv_new configs) hyield hrun).emptied

def downInPrompt : List Manager.Action :=
  getNew 0 ++ .ask 0 :: askSteps 0 0 (toRunning 0 ++ toWait) ++ allDown 0 8 ++
    askSteps 0 0 (.rejected "closed" :: List.replicate 9 .go)

theorem emptied_downInPrompt :
    ∃ m, run SessionManager.step (.new [("codex", 600)]) downInPrompt = some m ∧ Emptied m := by
  obtain ⟨m, hm, -⟩ := exists_run (s := SessionManager.new [("codex", 600)]) (fun _ => True)
    (by decide : (run SessionManager.step (.new [("codex", 600)]) downInPrompt).any _ = true)
  exact ⟨m, hm, emptied_of_asksYield _ downInPrompt m hm (by decide)⟩

/-- `shutdown_all` comes while the agent is being initialized and finds no
client; the ask stores one afterwards and returns its answer. -/
def downInStart : List Manager.Action :=
  getNew 0 ++ .ask 0 :: askSteps 0 0 ((toRunning 0).take 10) ++ allDown 0 7 ++
    askSteps 0 0 ((toRunning 0).drop 10 ++ toWait ++ toReturn 0)

theorem downInStart_not_emptied :
    ∃ m, run SessionManager.step (.new [("codex", 600)]) downInStart = some m ∧
      m.shutdownAlls = [.returned [0]] ∧
      (m.objs.map fun obj => obj.sys.asks) = [[.returned (.ok "hello")]] ∧
      (m.objs.map fun obj => (obj.sys.session.client, obj.sys.session.processState)) =
        [(some 0, .running)] ∧
      ¬ Emptied m := by
  obtain ⟨m, hm, halls, hasks, hobjs⟩ := exists_run (s := SessionManager.new [("codex", 600)])
    (fun m => m.shutdownAlls = [.returned [0]] ∧
      (m.objs.map fun obj => obj.sys.asks) = [[.returned (.ok "hello")]] ∧
      (m.objs.map fun obj => (obj.sys.session.client, obj.sys.session.processState)) =
        [(some 0, .running)])
    (by decide : (run SessionManager.step (.new [("codex", 600)]) downInStart).any _ = true)
  refine ⟨m, hm, halls, hasks, hobjs, fun hempty => ?_⟩
  obtain ⟨obj, hobj, hclient, -, hp⟩ := hempty (.returned [0]) (by simp [halls]) [0] rfl 0 (by simp)
  have hmem := List.mem_map_of_mem (f := fun obj : Obj =>
    (obj.sys.session.client, obj.sys.session.processState)) (List.mem_of_getElem? hobj)
  rw [hobjs, hclient] at hmem
  simp at hmem

end Ccgonext.ShutdownAll
