import Ccgonext.WebServer

/-!
# The handlers of the web server

What is known of every handler in every reachable state: a request that is refused has
at most its refusal, and a handler that has been let through is where its request and
what the manager has done for it say. No handler is ever stuck.
-/

namespace Ccgonext.WebServer
open Lib Lib.Runs Lib.Pool Session Manager Indexes Origin

def askAt (m : SessionManager) (obj : ObjId) (i : ℕ) : Option AskPc :=
  m.objs[obj]?.bind fun o => o.sys.asks[i]?

structure Listing (m : SessionManager) (todo : Manager.Registry) (rows : List Row) : Prop where
  keys : ((rows.map Row.key) ++ todo.map Prod.fst).Nodup
  rows : ∀ row ∈ rows, ∃ o, m.objs[row.obj]? = some o ∧ o.key = row.key
  todo : ∀ e ∈ todo, ∃ o, m.objs[e.2]? = some o ∧ o.key = e.1

def Creating (r : Registrar) (key : SessionKey) (g : ℕ) : Prop :=
  r.asked[g]? = some (some key) ∧ ∃ pc, r.m.gets[g]? = some pc ∧
    (∀ message, pc ≠ .failed message) ∧ pc ≠ .missing

inductive Seeking (r : Registrar) (id : ObjId) (g : ℕ) : Prop
  | looks (hg : r.m.gets[g]? = some (.lookupId id))
  | found (hg : r.m.gets[g]? = some (.returned id)) {o : Obj} (ho : r.m.objs[id]? = some o)
  | missing (hg : r.m.gets[g]? = some .missing)

/-- The ask `i` of the session is made for the prompt of a handler at this point. -/
inductive Asked (m : SessionManager) (id : ObjId) (timeout i : ℕ) : Pc → Prop
  | waits {pc : AskPc} (hi : askAt m id i = some pc) (hpc : pc ≠ .dropped) :
      Asked m id timeout i (.ask id i timeout)
  | answered {result : AskResult} (hi : askAt m id i = some (.returned result)) :
      Asked m id timeout i (.replied (promptReply result))

def Prompts (cfg : Config) (m : SessionManager) (call : Call) (pc : Pc) : Prop :=
  ∃ id text timeout, call = .promptSession id text timeout ∧
    match promptError text timeout with
    | some error => pc = .replied (.prompt false none (some error))
    | none => ∃ i, Asked m id (timeout.getD cfg.defaultTimeout) i pc

def Known (cfg : Config) (r : Registrar) (call : Call) : Pc → Prop
  | .authorize | .replied (.refused _) | .replied .internalServerError => False
  | .nextAgent todo => call = .listSessions ∧ todo ⊆ cfg.agents.map Prod.fst
  | .getOrCreate agent g todo => call = .listSessions ∧ agent :: todo ⊆ cfg.agents.map Prod.fst ∧
      Creating r ⟨agent, cfg.projectRoot⟩ g
  | .snapshot => call.sessionId = none
  | .readProcess todo rows => call.sessionId = none ∧ Listing r.m todo rows
  | .readTurn key obj _ todo rows => call.sessionId = none ∧ Listing r.m ((key, obj) :: todo) rows
  | .getById => ∃ id, call.Seeks id
  | .lookUp g => ∃ id, call.Seeks id ∧ Seeking r id g
  | .respond obj => ∃ permission granted, call = .permissionResponse obj permission granted
  | .ask obj i timeout => Prompts cfg r.m call (.ask obj i timeout)
  | .replied .notFound => ∃ id, call.Seeks id
  | .replied (.status agents root) => call = .getStatus ∧ root = cfg.projectRoot ∧
      ∃ rows, Listing r.m [] rows ∧ agents = rows.map Row.status
  | .replied (.sessions sessions) => call = .listSessions ∧
      ∃ rows, Listing r.m [] rows ∧ sessions = rows.map Row.info
  | .replied (.prompt success response error) =>
      Prompts cfg r.m call (.replied (.prompt success response error))
  | .replied (.permission success) => success = true ∧
      ∃ obj permission granted, call = .permissionResponse obj permission granted

def Standing (cfg : Config) (r : Registrar) (h : Handler) : Prop :=
  match authMiddleware cfg h.request.headers with
  | some refusal => h.pc = .authorize ∨ h.pc = .replied (.refused refusal)
  | none => h.pc = .authorize ∨ Known cfg r h.request.call h.pc

section Manager
variable {m m' : SessionManager} {a : Manager.Action} {obj : ObjId} {i : ℕ} {pc : AskPc}

theorem askStep_undropped {s s' : AcpSession} {pc' : AskPc} {out : Outcome}
    (h : Session.askStep i s pc out = some (s', pc')) : pc' ≠ .dropped := by
  rintro rfl
  cases hin : pc.inside with
  | true =>
    obtain ⟨result, rfl⟩ := Session.askStep_leaves h hin rfl
    cases h
  | false =>
    cases pc
    case tryLock =>
      simp only [Session.askStep] at h
      split at h <;> cases h
    case busy | returned | dropped => cases h
    all_goals cases hin

theorem askAt_step (hs : m.step a = some m') (h : askAt m obj i = some pc) :
    ∃ pc', askAt m' obj i = some pc' ∧ (pc ≠ .dropped → pc' ≠ .dropped) ∧
      ∀ result, pc = .returned result → pc' = .returned result := by
  obtain ⟨o, ho, hi⟩ := Option.bind_eq_some_iff.mp h
  obtain ⟨o', ho', hstep⟩ := SessionManager.step_obj hs ho
  have hsame : o'.sys.asks[i]? = some pc → ∃ pc', askAt m' obj i = some pc' ∧
      (pc ≠ .dropped → pc' ≠ .dropped) ∧ ∀ result, pc = .returned result → pc' = .returned result :=
    fun hi' => ⟨pc, Option.bind_eq_some_iff.mpr ⟨o', ho', hi'⟩, fun h => h, fun _ h => h⟩
  cases hstep with
  | same | shutdown => exact hsame hi
  | ask =>
    refine hsame ?_
    rw [List.getElem?_append_left (List.getElem?_eq_some_iff.mp hi).1]
    exact hi
  | shutdownStep hsys =>
    obtain ⟨pc₀, session, pc₁, -, -, rfl⟩ := Sys.step_shutdownStep hsys
    exact hsame hi
  | @askStep _ j out _ sys hsys =>
    obtain ⟨pc₀, session, pc₁, hpc₀, hask, rfl⟩ := Sys.step_askStep hsys
    by_cases hij : j = i
    · subst hij
      rw [hi] at hpc₀
      cases hpc₀
      refine ⟨pc₁, Option.bind_eq_some_iff.mpr ⟨_, ho', ?_⟩, fun _ => askStep_undropped hask, ?_⟩
      · exact List.getElem?_set_self (List.getElem?_eq_some_iff.mp hi).1
      · rintro result rfl
        cases hask
    · refine hsame ?_
      rw [List.getElem?_set_ne hij]
      exact hi

end Manager

section Registrar
variable {cfg : Config} {r r' : Registrar} {a : Manager.Action} {g : ℕ} {key : SessionKey}
  {id : ObjId}

theorem step_keyed (hs : r.step (.manager a) = some r') {obj : ObjId} {key : SessionKey}
    (h : ∃ o, r.m.objs[obj]? = some o ∧ o.key = key) :
    ∃ o, r'.m.objs[obj]? = some o ∧ o.key = key := by
  obtain ⟨m, hm, rfl⟩ := Registrar.step_manager hs
  obtain ⟨o, ho, rfl⟩ := h
  exact Registry.step_sameKeys hm obj o ho

theorem Listing.step {todo : Manager.Registry} {rows : List Row} (h : Listing r.m todo rows)
    (hs : r.step (.manager a) = some r') : Listing r'.m todo rows :=
  ⟨h.keys, fun row hrow => step_keyed hs (h.rows row hrow), fun e he => step_keyed hs (h.todo e he)⟩

theorem step_gets (hs : r.step (.manager a) = some r') {pc : GetPc} (hg : r.m.gets[g]? = some pc) :
    r'.m.gets[g]? = some pc ∨ a = .getStep g := by
  obtain ⟨m, hm, rfl⟩ := Registrar.step_manager hs
  by_cases hget : ∃ g', a = .getStep g'
  · obtain ⟨g', rfl⟩ := hget
    by_cases hgg : g' = g
    · exact .inr (hgg ▸ rfl)
    · obtain ⟨_, m₁, pc', -, hstep, rfl⟩ := SessionManager.step_getStep hm
      refine .inl ?_
      simp only [getStep_gets hstep, List.getElem?_set_ne hgg]
      exact hg
  · refine .inl ?_
    simp only [Indexes.step_gets hm fun g' heq => hget ⟨g', heq⟩]
    rw [List.getElem?_append_left (List.getElem?_eq_some_iff.mp hg).1]
    exact hg

theorem step_getStep (hs : r.step (.manager (.getStep g)) = some r') {pc : GetPc}
    (hg : r.m.gets[g]? = some pc) :
    ∃ m pc', SessionManager.Gets r.m g pc m pc' ∧ r'.m.gets[g]? = some pc' ∧
      r'.m.objs = m.objs ∧ r'.asked = r.asked := by
  obtain ⟨m, hm, rfl⟩ := Registrar.step_manager hs
  obtain ⟨pc₀, m₁, pc', hpc, hstep, rfl⟩ := SessionManager.step_getStep hm
  rw [hg] at hpc
  cases hpc
  refine ⟨m₁, pc', SessionManager.getStep_cases hstep, ?_, rfl, List.append_nil _⟩
  rw [getStep_gets hstep]
  exact List.getElem?_set_self (List.getElem?_eq_some_iff.mp hg).1

theorem step_asked (hs : r.step (.manager a) = some r') {asked : Option SessionKey}
    (h : r.asked[g]? = some asked) : r'.asked[g]? = some asked := by
  obtain ⟨m, -, rfl⟩ := Registrar.step_manager hs
  change (r.asked ++ begun a)[g]? = some asked
  rw [List.getElem?_append_left (List.getElem?_eq_some_iff.mp h).1]
  exact h

theorem lookup_agent {agents : List (String × ℕ)} {agent : String}
    (h : agent ∈ agents.map Prod.fst) : agents.lookup agent ≠ none := by
  intro hnone
  obtain ⟨e, he, rfl⟩ := List.mem_map.mp h
  have hne := List.lookup_eq_none_iff.mp hnone e he
  simp at hne

theorem Creating.step (h : Creating r key g) (hinv : Inv r)
    (hconfig : r.m.configs.lookup key.agent ≠ none) (hs : r.step (.manager a) = some r') :
    Creating r' key g := by
  obtain ⟨hasked, pc, hg, hfailed, hmissing⟩ := h
  refine ⟨step_asked hs hasked, ?_⟩
  rcases step_gets hs hg with hg' | rfl
  · exact ⟨pc, hg', hfailed, hmissing⟩
  have hcall := hinv.calls g pc hg _ hasked
  obtain ⟨m, pc', hgets, hg', -, -⟩ := step_getStep hs hg
  refine ⟨pc', hg', fun message => ?_, ?_⟩
  · cases hgets with
    | unknown hnone =>
      obtain rfl := Option.some.inj hcall
      exact absurd hnone hconfig
    | byId id => cases hcall
    | found | configured | foundSince | creates | inserts => simp
  · cases hgets with
    | byId id => cases hcall
    | unknown | found | configured | foundSince | creates | inserts => simp

theorem exists_of_indexed (hinv : Inv r) (hid : id ∈ r.m.sessionsById) :
    ∃ o, r.m.objs[id]? = some o := by
  rcases hinv.leaving id hid with ⟨key, hmem⟩ | hleaving
  · obtain ⟨⟨o, ho, -⟩, -⟩ := hinv.registry.registered _ hmem
    exact ⟨o, ho⟩
  · have hlt := hinv.registry.retired id (hinv.retired_of_leaving hleaving)
    exact ⟨_, List.getElem?_eq_getElem hlt⟩

theorem Seeking.step (h : Seeking r id g) (hinv : Inv r) (hs : r.step (.manager a) = some r') :
    Seeking r' id g := by
  cases h with
  | looks hg =>
    rcases step_gets hs hg with hg' | rfl
    · exact .looks hg'
    obtain ⟨m, pc', hgets, hg', hobjs, -⟩ := step_getStep hs hg
    cases hgets with
    | byId =>
      split at hg'
      · next hid =>
        obtain ⟨o, ho⟩ := exists_of_indexed hinv hid
        exact .found hg' (hobjs.symm ▸ ho)
      · exact .missing hg'
  | found hg ho =>
    rcases step_gets hs hg with hg' | rfl
    · obtain ⟨o', ho', -⟩ := step_keyed hs ⟨_, ho, rfl⟩
      exact .found hg' ho'
    · obtain ⟨m, pc', hgets, -⟩ := step_getStep hs hg
      cases hgets
  | missing hg =>
    rcases step_gets hs hg with hg' | rfl
    · exact .missing hg'
    · obtain ⟨m, pc', hgets, -⟩ := step_getStep hs hg
      cases hgets

theorem Seeking.returned {obj : ObjId} (h : Seeking r id g)
    (hg : r.m.gets[g]? = some (.returned obj)) : obj = id := by
  cases h with
  | looks hg' | missing hg' | found hg' =>
    rw [hg] at hg'
    cases hg'
    try rfl

theorem Asked.step {timeout i : ℕ} {pc : Pc} (h : Asked r.m id timeout i pc)
    (hs : r.step (.manager a) = some r') : Asked r'.m id timeout i pc := by
  obtain ⟨m, hm, rfl⟩ := Registrar.step_manager hs
  cases h with
  | waits hi hpc =>
    obtain ⟨pc', hi', hpc', -⟩ := askAt_step hm hi
    exact .waits hi' (hpc' hpc)
  | answered hi =>
    obtain ⟨pc', hi', -, hres⟩ := askAt_step hm hi
    rw [hres _ rfl] at hi'
    exact .answered hi'

theorem Asked.answer {obj j t timeout i : ℕ} {result : AskResult}
    (h : Asked r.m id timeout i (.ask obj j t)) (hj : askAt r.m obj j = some (.returned result)) :
    Asked r.m id timeout i (.replied (promptReply result)) := by
  cases h
  exact .answered hj

theorem Prompts.answer {call : Call} {obj i timeout : ℕ} {result : AskResult}
    (h : Prompts cfg r.m call (.ask obj i timeout))
    (hi : askAt r.m obj i = some (.returned result)) :
    Prompts cfg r.m call (.replied (promptReply result)) := by
  obtain ⟨id, text, given, hcall, hmade⟩ := h
  refine ⟨id, text, given, hcall, ?_⟩
  cases herror : promptError text given with
  | some error =>
    rw [herror] at hmade
    cases hmade
  | none =>
    rw [herror] at hmade
    obtain ⟨j, hj⟩ := hmade
    exact ⟨j, hj.answer hi⟩

theorem Prompts.known {call : Call} {result : AskResult}
    (h : Prompts cfg r.m call (.replied (promptReply result))) :
    Known cfg r call (.replied (promptReply result)) := by
  cases result <;> exact h

theorem Prompts.step {call : Call} {pc : Pc} (h : Prompts cfg r.m call pc)
    (hs : r.step (.manager a) = some r') : Prompts cfg r'.m call pc := by
  obtain ⟨id, text, timeout, hcall, hmade⟩ := h
  refine ⟨id, text, timeout, hcall, ?_⟩
  cases herror : promptError text timeout with
  | some error =>
    rw [herror] at hmade
    exact hmade
  | none =>
    rw [herror] at hmade
    obtain ⟨i, hi⟩ := hmade
    exact ⟨i, hi.step hs⟩

theorem Known.step {call : Call} {pc : Pc} (h : Known cfg r call pc) (hinv : Inv r)
    (hconfigs : r.m.configs = cfg.agents) (hs : r.step (.manager a) = some r') :
    Known cfg r' call pc := by
  cases pc with
  | authorize => cases h
  | nextAgent | snapshot | getById | respond => exact h
  | getOrCreate agent g todo =>
    obtain ⟨hcall, hsub, hcreating⟩ := h
    refine ⟨hcall, hsub, hcreating.step hinv ?_ hs⟩
    rw [hconfigs]
    exact lookup_agent (hsub List.mem_cons_self)
  | readProcess => exact ⟨h.1, h.2.step hs⟩
  | readTurn => exact ⟨h.1, h.2.step hs⟩
  | lookUp g =>
    obtain ⟨id, hid, hseeking⟩ := h
    exact ⟨id, hid, hseeking.step hinv hs⟩
  | ask => exact Prompts.step h hs
  | replied reply =>
    cases reply with
    | refused | internalServerError => cases h
    | notFound | permission => exact h
    | status =>
      obtain ⟨hcall, hroot, rows, hrows, heq⟩ := h
      exact ⟨hcall, hroot, rows, hrows.step hs, heq⟩
    | sessions =>
      obtain ⟨hcall, rows, hrows, heq⟩ := h
      exact ⟨hcall, rows, hrows.step hs, heq⟩
    | prompt => exact Prompts.step h hs

theorem Standing.known {h : Handler} (hst : Standing cfg r h) (hpc : h.pc ≠ .authorize)
    (hno : ∀ refusal, h.pc ≠ .replied (.refused refusal)) : Known cfg r h.request.call h.pc := by
  unfold Standing at hst
  split at hst
  · next refusal _ => exact (hst.elim hpc (hno refusal)).elim
  · exact hst.resolve_left hpc

theorem Standing.step {h : Handler} (hst : Standing cfg r h) (hinv : Inv r)
    (hconfigs : r.m.configs = cfg.agents) (hs : r.step (.manager a) = some r') :
    Standing cfg r' h := by
  unfold Standing at hst ⊢
  split at hst
  · exact hst
  · exact hst.imp_right fun hknown => hknown.step hinv hconfigs hs

end Registrar

section Handler
variable {cfg : Config} {s s' : Server} {request : Request} {pc pc' : Pc}

theorem Server.Handles.spares (hs : Server.Handles cfg s request pc s' pc') :
    s'.r = s.r ∨
      ∃ a, s.r.step (.manager a) = some s'.r ∧ ∀ key, ¬ s.r.Removes key (.manager a) := by
  cases hs with
  | creates hr | finds _ hr | asks _ _ _ hr => exact .inr ⟨_, hr, fun _ => id⟩
  | _ => exact .inl rfl

theorem Server.Handles.registrar (hs : Server.Handles cfg s request pc s' pc') :
    s'.r = s.r ∨ ∃ a, s.r.step (.manager a) = some s'.r :=
  hs.spares.imp_right fun ⟨a, hr, _⟩ => ⟨a, hr⟩

theorem getOrCreate_creating {key : SessionKey} {r r' : Registrar} (hinv : Inv r)
    (hr : r.step (.manager (.getOrCreate key)) = some r') :
    Creating r' key r.m.gets.length := by
  cases hr
  refine ⟨?_, .lookup key, List.getElem?_concat_length .., by simp, by simp⟩
  rw [← hinv.length]
  exact List.getElem?_concat_length ..

theorem getById_seeking {id : ObjId} {r r' : Registrar}
    (hr : r.step (.manager (.getById id)) = some r') : Seeking r' id r.m.gets.length := by
  cases hr
  exact .looks (List.getElem?_concat_length ..)

theorem ask_asked {id timeout g : ℕ} {o : Obj} {r r' : Registrar}
    (hg : r.m.gets[g]? = some (.returned id)) (ho : r.m.objs[id]? = some o)
    (hr : r.step (.manager (.ask g)) = some r') :
    Asked r'.m id timeout o.sys.asks.length (.ask id o.sys.asks.length timeout) := by
  obtain ⟨m, hm, rfl⟩ := Registrar.step_manager hr
  obtain ⟨id', o', hhandle, ho', rfl⟩ := SessionManager.step_ask hm
  simp only [SessionManager.handle, hg, Option.some.injEq] at hhandle
  subst hhandle
  rw [ho] at ho'
  cases ho'
  have hlt := (List.getElem?_eq_some_iff.mp ho).1
  have hmade : askAt (r.m.setSys id o { o.sys with asks := o.sys.asks ++ [.tryLock] }) id
      o.sys.asks.length = some .tryLock := by
    simp only [askAt, SessionManager.setSys, List.getElem?_set_self hlt, Option.bind_some,
      List.getElem?_concat_length]
  exact .waits hmade (by simp)

theorem listing_registered {r : Registrar} (hinv : Inv r) {order : Manager.Registry}
    (horder : order.Perm r.m.sessions) : Listing r.m order [] := by
  refine ⟨?_, fun row hrow => by simp at hrow, fun e he => ?_⟩
  · rw [List.map_nil, List.nil_append]
    exact (horder.map Prod.fst).nodup_iff.mpr hinv.keys
  · exact (hinv.registry.registered e (horder.mem_iff.mp he)).1

theorem Listing.readsTurn {m : SessionManager} {key : SessionKey} {obj : ObjId}
    {process : ProcessState} {turn : TurnState} {todo : Manager.Registry} {rows : List Row}
    (h : Listing m ((key, obj) :: todo) rows) :
    Listing m todo (rows ++ [⟨key, obj, process, turn⟩]) := by
  refine ⟨?_, fun row hrow => ?_, fun e he => h.todo e (List.mem_cons_of_mem _ he)⟩
  · have hkeys := h.keys
    simp only [List.map_append, List.map_cons, List.map_nil, List.append_assoc,
      List.cons_append, List.nil_append] at hkeys ⊢
    exact hkeys
  · rcases List.mem_append.mp hrow with hrow | hrow
    · exact h.rows row hrow
    · obtain rfl := List.mem_singleton.mp hrow
      exact h.todo (key, obj) List.mem_cons_self

theorem Known.handle (h : Known cfg s.r request.call pc) (hinv : Inv s.r)
    (hs : Server.Handles cfg s request pc s' pc') : Known cfg s'.r request.call pc' := by
  cases hs with
  | refused | status | lists | rejects | seeks => cases h
  | created => exact congrArg Call.sessionId h.1
  | creates hr =>
    exact ⟨h.1, h.2, getOrCreate_creating hinv hr⟩
  | creating hg => exact ⟨h.1, fun agent hagent => h.2.1 (List.mem_cons_of_mem _ hagent)⟩
  | fails hg =>
    obtain ⟨-, -, -, pc, hpc, hfailed, -⟩ := h
    rw [hg] at hpc
    cases hpc
    exact absurd rfl (hfailed _)
  | snapshots hfree horder => exact ⟨h, listing_registered hinv horder⟩
  | @listed rows =>
    obtain ⟨hcall, hrows⟩ := h
    cases hc : request.call with
    | getStatus => exact ⟨rfl, rfl, rows, hrows, rfl⟩
    | listSessions => exact ⟨rfl, rows, hrows, rfl⟩
    | promptSession | permissionResponse =>
      rw [hc] at hcall
      cases hcall
  | readsProcess ho => exact h
  | readsTurn ho => exact ⟨h.1, h.2.readsTurn⟩
  | finds hcall hr =>
    obtain ⟨id, hseeks⟩ := h
    have hid := hseeks.1.symm.trans hcall
    cases hid
    exact ⟨_, hseeks, getById_seeking hr⟩
  | missing hg =>
    obtain ⟨id, hseeks, -⟩ := h
    exact ⟨id, hseeks⟩
  | asks hg hcall ho hr =>
    obtain ⟨id, hseeks, hseeking⟩ := h
    obtain rfl := hseeking.returned hg
    have hnone := hseeks.2 _ _ _ hcall
    have hid : request.call.sessionId = some _ := congrArg Call.sessionId hcall
    cases hseeks.1.symm.trans hid
    refine ⟨_, _, _, hcall, ?_⟩
    rw [hnone]
    exact ⟨_, ask_asked hg ho hr⟩
  | responds hg hcall =>
    obtain ⟨id, hseeks, hseeking⟩ := h
    obtain rfl := hseeking.returned hg
    have hid : request.call.sessionId = some _ := congrArg Call.sessionId hcall
    cases hseeks.1.symm.trans hid
    exact ⟨_, _, hcall⟩
  | relays hcall =>
    exact ⟨rfl, _, _, _, hcall⟩
  | answers ho hi =>
    exact Prompts.known (Prompts.answer h (Option.bind_eq_some_iff.mpr ⟨_, ho, hi⟩))

theorem Standing.handle {h : Handler} (hst : Standing cfg s.r h) (hinv : Inv s.r)
    (hs : Server.Handles cfg s h.request h.pc s' pc') : Standing cfg s'.r { h with pc := pc' } := by
  unfold Standing at hst ⊢
  dsimp only
  generalize hauth : authMiddleware cfg h.request.headers = refusal at hst ⊢
  cases refusal with
  | some refusal =>
    refine .inr ?_
    rcases hst with hpc | hpc
    · rw [hpc] at hs
      cases hs with
      | refused hauth' =>
        rw [hauth] at hauth'
        rw [Option.some.inj hauth']
      | status hauth' | lists hauth' | rejects hauth' | seeks hauth' =>
        rw [hauth] at hauth'
        cases hauth'
    · rw [hpc] at hs
      cases hs
  | none =>
    refine .inr ?_
    rcases hst with hpc | hknown
    · rw [hpc] at hs
      cases hs with
      | refused hauth' =>
        rw [hauth] at hauth'
        cases hauth'
      | status _ hcall => exact congrArg Call.sessionId hcall
      | lists _ hcall hkeys => exact ⟨hcall, hkeys.subset⟩
      | rejects _ hcall herror =>
        refine ⟨_, _, _, hcall, ?_⟩
        rw [herror]
      | seeks _ hcall => exact ⟨_, hcall⟩
    · exact hknown.handle hinv hs

end Handler

section Runs
variable {cfg : Config} {s s' : Server} {a : Action} {acts : List Action}

structure Sound (cfg : Config) (s : Server) : Prop where
  inv : Inv s.r
  configs : s.r.m.configs = cfg.agents
  standing : ∀ h ∈ s.handlers, Standing cfg s.r h

theorem Sound.registrar (h : Sound cfg s) (hr : s'.r = s.r ∨ ∃ a, s.r.step (.manager a) = some s'.r)
    (hhandlers : ∀ hd ∈ s'.handlers, hd ∈ s.handlers ∨ Standing cfg s'.r hd) : Sound cfg s' := by
  rcases hr with heq | ⟨a, hr⟩
  · refine ⟨heq ▸ h.inv, heq ▸ h.configs, fun hd hmem => ?_⟩
    exact (hhandlers hd hmem).elim (fun hmem => heq ▸ h.standing hd hmem) id
  · refine ⟨Indexes.step_inv _ _ _ h.inv hr, step_configs _ _ _ h.configs hr, fun hd hmem => ?_⟩
    rcases hhandlers hd hmem with hmem | hst
    · exact (h.standing hd hmem).step h.inv h.configs hr
    · exact hst

theorem step_sound (s : Server) (a : Action) (s' : Server) (h : Sound cfg s)
    (hs : s.step cfg a = some s') : Sound cfg s' := by
  cases Server.step_cases hs with
  | manager hr => exact h.registrar (.inr ⟨_, hr⟩) fun hd hmem => .inl hmem
  | receive request =>
    refine h.registrar (.inl rfl) fun hd hmem => ?_
    rcases List.mem_append.mp hmem with hmem | hmem
    · exact .inl hmem
    · obtain rfl := List.mem_singleton.mp hmem
      refine .inr ?_
      unfold Standing
      split <;> exact .inl rfl
  | @handle i _ _ hd t pc hh hhandle =>
    have hst := (h.standing hd (List.mem_of_getElem? hh)).handle h.inv hhandle
    refine h.registrar hhandle.registrar fun hd' hmem => ?_
    rcases List.mem_or_eq_of_mem_set hmem with hmem | rfl
    · exact .inl hmem
    · exact .inr hst

theorem sound_new (cfg : Config) : Sound cfg (.new cfg) :=
  ⟨Indexes.inv_new cfg.agents, rfl, fun _ h => by cases h⟩

theorem run_sound (hrun : run (Server.step cfg) (.new cfg) acts = some s) : Sound cfg s :=
  preserved step_sound (sound_new cfg) hrun

end Runs

section Progress
variable {cfg : Config} {s : Server} {acts : List Action} {request : Request} {pc : Pc}

/-- What a handler waits for: a call of the manager that has not ended, or the lock. -/
def Waits (s : Server) : Pc → Prop
  | .getOrCreate _ g _ => ∃ pc, s.r.m.gets[g]? = some pc ∧ ∀ obj, pc ≠ .returned obj
  | .lookUp g => ∃ id, s.r.m.gets[g]? = some (.lookupId id)
  | .snapshot => s.r.m.writer ≠ none
  | .ask obj i _ => ∃ pc, askAt s.r.m obj i = some pc ∧ pc.inProgress = true
  | _ => False

theorem authorize_goes_on :
    ∃ keys order r, s.handleStep cfg keys order request .authorize = some r := by
  refine ⟨cfg.agents.map Prod.fst, [], ?_⟩
  simp only [Server.handleStep]
  split
  · exact ⟨_, rfl⟩
  · cases hcall : request.call with
    | getStatus | permissionResponse => exact ⟨_, rfl⟩
    | listSessions => exact ⟨_, if_pos (List.Perm.refl _)⟩
    | promptSession =>
      simp only [Server.route]
      split <;> exact ⟨_, rfl⟩

theorem found_goes_on {g : ℕ} {id : ObjId} {o : Obj} (hseeks : request.call.Seeks id)
    (hg : s.r.m.gets[g]? = some (.returned id)) (ho : s.r.m.objs[id]? = some o) :
    ∃ r, s.found cfg g id request.call = some r := by
  obtain ⟨hid, -⟩ := hseeks
  cases hcall : request.call with
  | getStatus | listSessions =>
    rw [hcall] at hid
    cases hid
  | permissionResponse => exact ⟨_, rfl⟩
  | promptSession =>
    have hhandle : s.r.m.handle g = some id := by simp only [SessionManager.handle, hg]
    simp only [Server.found, ho, Server.callManager, Registrar.step, SessionManager.step, hhandle,
      Option.map_some]
    exact ⟨_, rfl⟩

theorem Known.goes_on (h : Known cfg s.r request.call pc) (hpc : ∀ reply, pc ≠ .replied reply) :
    (∃ keys order r, s.handleStep cfg keys order request pc = some r) ∨ Waits s pc := by
  cases pc with
  | authorize => cases h
  | nextAgent todo => cases todo <;> exact .inl ⟨[], [], _, rfl⟩
  | getOrCreate agent g todo =>
    obtain ⟨-, -, -, pc, hg, hfailed, -⟩ := h
    by_cases hreturned : ∃ obj, pc = .returned obj
    · obtain ⟨obj, rfl⟩ := hreturned
      refine .inl ⟨[], [], ?_⟩
      simp only [Server.handleStep, hg]
      exact ⟨_, rfl⟩
    · exact .inr ⟨pc, hg, fun obj heq => hreturned ⟨obj, heq⟩⟩
  | snapshot =>
    by_cases hfree : s.r.m.writer = none
    · exact .inl ⟨[], s.r.m.sessions, _, if_pos ⟨hfree, List.Perm.refl _⟩⟩
    · exact .inr hfree
  | readProcess todo rows =>
    cases todo with
    | nil => exact .inl ⟨[], [], _, rfl⟩
    | cons e todo =>
      obtain ⟨o, ho, -⟩ := h.2.todo e List.mem_cons_self
      refine .inl ⟨[], [], ?_⟩
      simp only [Server.handleStep, ho]
      exact ⟨_, rfl⟩
  | readTurn key obj process todo rows =>
    obtain ⟨o, ho, -⟩ := h.2.todo (key, obj) List.mem_cons_self
    refine .inl ⟨[], [], ?_⟩
    simp only [Server.handleStep, ho]
    exact ⟨_, rfl⟩
  | getById =>
    obtain ⟨id, hid, -⟩ := h
    refine .inl ⟨[], [], ?_⟩
    cases hcall : request.call with
    | getStatus | listSessions =>
      rw [hcall] at hid
      cases hid
    | promptSession | permissionResponse =>
      simp only [Server.handleStep, hcall]
      exact ⟨_, rfl⟩
  | lookUp g =>
    obtain ⟨id, hseeks, hseeking⟩ := h
    cases hseeking with
    | looks hg => exact .inr ⟨id, hg⟩
    | found hg ho =>
      refine .inl ⟨[], [], ?_⟩
      simp only [Server.handleStep, hg]
      exact found_goes_on hseeks hg ho
    | missing hg =>
      refine .inl ⟨[], [], ?_⟩
      simp only [Server.handleStep, hg]
      exact ⟨_, rfl⟩
  | respond obj =>
    obtain ⟨permission, granted, hcall⟩ := h
    refine .inl ⟨[], [], ?_⟩
    simp only [Server.handleStep, hcall]
    exact ⟨_, rfl⟩
  | ask obj i timeout =>
    obtain ⟨id, text, given, -, hmade⟩ := h
    split at hmade
    · cases hmade
    obtain ⟨_, hasked⟩ := hmade
    cases hasked with
    | @waits pc hi hdropped =>
      cases hin : pc.inProgress with
      | true => exact .inr ⟨pc, hi, hin⟩
      | false =>
        refine .inl ⟨[], [], ?_⟩
        cases pc with
        | returned result =>
          rw [askAt] at hi
          simp only [Server.handleStep, hi]
          exact ⟨_, rfl⟩
        | dropped => exact absurd rfl hdropped
        | _ => cases hin
  | replied reply => exact absurd rfl (hpc reply)

/-- No handler is ever stuck: until it replies it can take a step, or it waits for a
call of the manager that is still in progress. -/
theorem handler_goes_on (hrun : run (Server.step cfg) (.new cfg) acts = some s) {i : ℕ}
    {h : Handler} (hh : s.handlers[i]? = some h) (hpc : ∀ reply, h.pc ≠ .replied reply) :
    (∃ keys order s', s.step cfg (.handle i keys order) = some s') ∨ Waits s h.pc := by
  have hstep : (∃ keys order r, s.handleStep cfg keys order h.request h.pc = some r) →
      ∃ keys order s', s.step cfg (.handle i keys order) = some s' := by
    rintro ⟨keys, order, r, hr⟩
    refine ⟨keys, order, ?_⟩
    simp only [Server.step, hh, hr]
    exact ⟨_, rfl⟩
  by_cases hstart : h.pc = .authorize
  · rw [hstart] at hstep
    exact .inl (hstep authorize_goes_on)
  · have hst := (run_sound hrun).standing h (List.mem_of_getElem? hh)
    have hknown := hst.known hstart fun refusal => hpc (.refused refusal)
    exact (hknown.goes_on hpc).imp_left hstep

end Progress

def Passes (cfg : Config) (h : Handler) : Prop := authMiddleware cfg h.request.headers = none

instance (cfg : Config) (h : Handler) : Decidable (Passes cfg h) :=
  inferInstanceAs (Decidable (_ = _))

def serverConfig : Config := ⟨[("codex", 600)], "/proj", 30, some "t".toList, 8080⟩

def own : Headers := ⟨none, some ⟨ascii "Bearer t", List.all_eq_true.mp (by decide)⟩⟩

def foreign : Headers :=
  { own with origin := some ⟨ascii "http://evil.example", List.all_eq_true.mp (by decide)⟩ }

def handles (i n : ℕ) : List Action := List.replicate n (.handle i [] [])

/-- A request from elsewhere is refused and the sessions are listed; of two prompts the
second comes while the first is in progress; a permission is passed on. -/
def served : List Action :=
  [.receive ⟨foreign, .listSessions⟩, .receive ⟨own, .listSessions⟩] ++ handles 0 1 ++
    [.handle 1 ["codex"] []] ++ handles 1 1 ++ List.replicate 3 (.manager (.getStep 0)) ++
    handles 1 2 ++ [.handle 1 [] [(project, 0)]] ++ handles 1 3 ++
    [.receive ⟨own, .promptSession 0 "hi".toList none⟩] ++ handles 2 2 ++
    [.manager (.getStep 1)] ++ handles 2 1 ++
    (askSteps 0 0 (toRunning 0 ++ toWait)).map .manager ++
    [.receive ⟨own, .promptSession 0 "ho".toList none⟩] ++ handles 3 2 ++
    [.manager (.getStep 2)] ++ handles 3 1 ++ (askSteps 0 1 [.go, .go]).map .manager ++
    handles 3 1 ++ [.receive ⟨own, .permissionResponse 0 "p" true⟩] ++ handles 4 2 ++
    [.manager (.getStep 3)] ++ handles 4 2 ++ (askSteps 0 0 (toReturn 0)).map .manager ++
    handles 2 1

def sessionZero : SessionInfo := ⟨0, "codex", "/proj", "STOPPED", "IDLE"⟩

def servedEnd : List (Call × Bool × Pc) :=
  [(.listSessions, false, .replied (.refused .forbidden)),
    (.listSessions, true, .replied (.sessions [sessionZero])),
    (.promptSession 0 "hi".toList none, true, .replied (.prompt true (some "hello") none)),
    (.promptSession 0 "ho".toList none, true,
      .replied (.prompt false none (some "Agent busy (turn state: PROMPTING)"))),
    (.permissionResponse 0 "p" true, true, .replied (.permission true))]

def Handler.shown (cfg : Config) (h : Handler) : Call × Bool × Pc :=
  (h.request.call, decide (Passes cfg h), h.pc)

theorem served_end : ∃ s, run (Server.step serverConfig) (.new serverConfig) served = some s ∧
    s.handlers.map (Handler.shown serverConfig) = servedEnd :=
  exists_run (s := Server.new serverConfig)
    (fun s => s.handlers.map (Handler.shown serverConfig) = servedEnd) (by decide +kernel)

theorem served_handler {l : List Handler}
    (hl : l.map (Handler.shown serverConfig) = servedEnd) {i : ℕ} {call : Call} {pc : Pc}
    (hi : servedEnd[i]? = some (call, true, pc)) :
    ∃ h, l[i]? = some h ∧ Passes serverConfig h ∧ h.request.call = call ∧ h.pc = pc := by
  rw [← hl, List.getElem?_map] at hi
  obtain ⟨h, hh, hshown⟩ := Option.map_eq_some_iff.mp hi
  simp only [Handler.shown, Prod.mk.injEq, decide_eq_true_eq] at hshown
  obtain ⟨hcall, hp, hpc⟩ := hshown
  exact ⟨h, hh, hp, hcall, hpc⟩

end Ccgonext.WebServer
