import Mathlib.Data.List.Nodup
import Ccgonext.WebHandlers

/-!
# The listings of the web server

A listing tells of sessions as they are keyed. The listing of the sessions has made one
for every agent before, which is in it unless it is taken out meanwhile.
-/

namespace Ccgonext.WebServer
open Lib Lib.Runs Lib.Pool Session Manager Indexes

section Listings
variable {cfg : Config} {s s' t u : Server} {a : Action} {acts before : List Action}
  {key : SessionKey} {h : Handler} {pc' : Pc} {i : ℕ}

def Registered (r : Registrar) (key : SessionKey) : Prop := ∃ o, (key, o) ∈ r.m.sessions

def Spares (key : SessionKey) (s : Server) : Action → Prop
  | .manager a => ¬ s.r.Removes key (.manager a)
  | .receive _ | .handle .. => True

/-- Steps of the reaper and of `shutdown_all`, the only ones that take sessions out. -/
def Action.mayRemove : Action → Bool
  | .manager (.reapStep _) | .manager (.shutdownAllStep _ _) => true
  | _ => false

theorem spares_of_not_mayRemove (ha : a.mayRemove = false) : Spares key s a := by
  cases a with
  | receive | handle => trivial
  | manager a =>
    cases a with
    | reapStep | shutdownAllStep => cases ha
    | _ => exact id

def Sees (r : Registrar) (key : SessionKey) : Pc → Prop
  | .nextAgent todo => key.agent ∈ todo ∨ Registered r key
  | .getOrCreate agent g todo => (agent = key.agent ∧
      ∀ obj, r.m.gets[g]? = some (.returned obj) → Registered r key) ∨
      key.agent ∈ todo ∨ Registered r key
  | .snapshot => Registered r key
  | .readProcess todo rows => key ∈ rows.map Row.key ++ todo.map Prod.fst
  | .readTurn key' _ _ todo rows => key ∈ rows.map Row.key ++ key' :: todo.map Prod.fst
  | .replied (.sessions sessions) =>
    ∃ info ∈ sessions, info.agent = key.agent ∧ info.cwd = key.cwd
  | _ => True

theorem Registered.step {r r' : Registrar} {a : Manager.Action} (h : Registered r key)
    (hinv : Inv r) (hno : ¬ r.Removes key (.manager a)) (hs : r.step (.manager a) = some r') :
    Registered r' key := by
  obtain ⟨o, ho⟩ := h
  exact ⟨o, (step_registered r _ r' ⟨hinv, ho⟩ hno hs).2⟩

theorem Sees.step {r r' : Registrar} {a : Manager.Action} {pc : Pc} (h : Sees r key pc)
    (hinv : Inv r) (hcreating : ∀ agent g todo, pc = .getOrCreate agent g todo →
      agent = key.agent → Creating r key g)
    (hno : ¬ r.Removes key (.manager a)) (hs : r.step (.manager a) = some r') :
    Sees r' key pc := by
  have hreg : Registered r key → Registered r' key := fun hreg => hreg.step hinv hno hs
  cases pc with
  | nextAgent todo => exact h.imp_right hreg
  | snapshot => exact hreg h
  | readProcess | readTurn => exact h
  | getOrCreate agent g todo =>
    refine h.imp (fun hagent => ⟨hagent.1, fun obj hobj => ?_⟩) fun h => h.imp_right hreg
    by_cases hsame : r.m.gets[g]? = some (.returned obj)
    · exact hreg (hagent.2 obj hsame)
    · have hreturns : Returns r r' g key obj :=
        ⟨(hcreating agent g todo rfl hagent.1).1, hsame, hobj⟩
      exact ⟨obj, hreturns.mem hinv hs⟩
  | replied reply => cases reply <;> exact h
  | _ => trivial

theorem sees_handle (hinv : Inv s.r) (hagent : key.agent ∈ cfg.agents.map Prod.fst)
    (hcall : h.request.call = .listSessions) (hsees : Sees s.r key h.pc)
    (hs : Server.Handles cfg s h.request h.pc t pc') : Sees t.r key pc' := by
  obtain ⟨request, pc⟩ := h
  replace hcall : request.call = .listSessions := hcall
  cases hs with
  | status _ hstatus => cases hcall.symm.trans hstatus
  | lists _ _ hkeys => exact .inl (hkeys.mem_iff.mpr hagent)
  | created => exact hsees.resolve_left List.not_mem_nil
  | creates hr =>
    have hreg : Registered s.r key → Registered _ key := fun hreg => hreg.step hinv id hr
    rcases hsees with hmem | hsees
    · rcases List.mem_cons.mp hmem with heq | hmem
      · refine .inl ⟨heq.symm, fun obj hobj => ?_⟩
        cases hr
        rw [List.getElem?_concat_length] at hobj
        cases hobj
      · exact .inr (.inl hmem)
    · exact .inr (.inr (hreg hsees))
  | creating hg =>
    rcases hsees with ⟨-, hsees⟩ | hsees
    · exact .inr (hsees _ hg)
    · exact hsees
  | snapshots _ horder =>
    obtain ⟨o, ho⟩ := hsees
    exact List.mem_map.mpr ⟨_, horder.mem_iff.mpr ho, rfl⟩
  | @listed rows =>
    rw [Sees, List.map_nil, List.append_nil] at hsees
    obtain ⟨row, hrow, rfl⟩ := List.mem_map.mp hsees
    rw [hcall]
    exact ⟨row.info, List.mem_map.mpr ⟨row, hrow, rfl⟩, rfl, rfl⟩
  | readsProcess => exact hsees
  | readsTurn =>
    simpa only [Sees, List.map_append, List.map_cons, List.map_nil, List.append_assoc,
      List.cons_append, List.nil_append] using hsees
  | @answers _ _ _ _ result => cases result <;> trivial
  | refused | rejects | seeks | fails | finds | missing | asks | responds | relays => trivial

def Watched (cfg : Config) (key : SessionKey) (n : ℕ) (s : Server) : Prop :=
  Sound cfg s ∧ ∀ (i : ℕ) h, n ≤ i → s.handlers[i]? = some h → Passes cfg h →
    h.request.call = .listSessions → Sees s.r key h.pc

theorem step_watched {n : ℕ} (hcwd : key.cwd = cfg.projectRoot)
    (hagent : key.agent ∈ cfg.agents.map Prod.fst) (s : Server) (a : Action) (s' : Server)
    (h : Watched cfg key n s) (hspares : Spares key s a) (hs : s.step cfg a = some s') :
    Watched cfg key n s' := by
  obtain ⟨hsound, hsees⟩ := h
  refine ⟨step_sound s a s' hsound hs, ?_⟩
  have hcreating : ∀ (i : ℕ) h, s.handlers[i]? = some h → ∀ agent g todo,
      h.pc = .getOrCreate agent g todo → agent = key.agent → Creating s.r key g := by
    intro i h hh agent g todo hpc hname
    have hknown := (hsound.standing h (List.mem_of_getElem? hh)).known (by simp [hpc])
      (by simp [hpc])
    rw [hpc] at hknown
    have hkey : key = ⟨agent, cfg.projectRoot⟩ := by rw [hname, ← hcwd]
    exact hkey ▸ hknown.2.2
  cases Server.step_cases hs with
  | manager hr =>
    intro i h hn hh hp hcall
    exact (hsees i h hn hh hp hcall).step hsound.inv (hcreating i h hh) hspares hr
  | receive request =>
    intro i h hn hh hp hcall
    rcases spawn_cases hh with hh | ⟨-, rfl⟩
    · exact hsees i h hn hh hp hcall
    · trivial
  | @handle j _ _ hd t pc hj hhandle =>
    intro i h hn hh hp hcall
    rcases set_cases hh with ⟨rfl, rfl⟩ | ⟨hne, hh⟩
    · replace hcall : hd.request.call = .listSessions := hcall
      have hnew := sees_handle hsound.inv hagent hcall (hsees j hd hn hj hp hcall) hhandle
      exact hnew
    · have hold := hsees i h hn hh hp hcall
      rcases hhandle.spares with heq | ⟨a, hr, hno⟩
      · exact heq.symm ▸ hold
      · exact hold.step hsound.inv (hcreating i h hh) (hno key) hr

theorem listing_replied (hrun : run (Server.step cfg) (.new cfg) acts = some s)
    (hh : s.handlers[i]? = some h) (hp : Passes cfg h) {reply : Reply}
    (hreply : h.pc = .replied reply) : Known cfg s.r h.request.call (.replied reply) := by
  have hst := (run_sound hrun).standing h (List.mem_of_getElem? hh)
  rw [← hreply]
  unfold Standing at hst
  rw [show authMiddleware cfg h.request.headers = none from hp] at hst
  exact hst.resolve_left (by simp [hreply])

/-- A status that is let through tells of sessions of different keys. -/
theorem status_told (hrun : run (Server.step cfg) (.new cfg) acts = some s)
    (hh : s.handlers[i]? = some h) (hp : Passes cfg h) (hcall : h.request.call = .getStatus)
    {reply : Reply} (hreply : h.pc = .replied reply) :
    ∃ rows : List Row, reply = .status (rows.map Row.status) cfg.projectRoot ∧
      (rows.map Row.key).Nodup ∧
      ∀ row ∈ rows, ∃ o, s.r.m.objs[row.obj]? = some o ∧ o.key = row.key := by
  have hknown := listing_replied hrun hh hp hreply
  rw [hcall] at hknown
  cases reply with
  | status agents root =>
    obtain ⟨-, rfl, rows, hrows, rfl⟩ := hknown
    refine ⟨rows, rfl, ?_, hrows.rows⟩
    simpa using hrows.keys
  | refused | internalServerError => cases hknown
  | notFound =>
    obtain ⟨id, hid, -⟩ := hknown
    cases hid
  | sessions => cases hknown.1
  | prompt =>
    obtain ⟨id, text, timeout, heq, -⟩ := hknown
    cases heq
  | permission =>
    obtain ⟨-, obj, permission, granted, heq⟩ := hknown
    cases heq

/-- A listing of the sessions that is let through replies with sessions, each of which
is the one of the agent and the directory that it tells of; and for every agent of the
configuration the one in the project is among them, unless it is taken out after the
request has come. -/
theorem listed (hrun : run (Server.step cfg) (.new cfg) acts = some s)
    (hh : s.handlers[i]? = some h) (hp : Passes cfg h) (hcall : h.request.call = .listSessions)
    {reply : Reply} (hreply : h.pc = .replied reply) :
    ∃ sessions, reply = .sessions sessions ∧
      (sessions.map fun info => (info.agent, info.cwd)).Nodup ∧
      (∀ info ∈ sessions, ∃ o, s.r.m.objs[info.id]? = some o ∧
        o.key = ⟨info.agent, info.cwd⟩) ∧
      ∀ agent ∈ cfg.agents.map Prod.fst, ∀ before after u, acts = before ++ after →
        run (Server.step cfg) (.new cfg) before = some u → u.handlers.length ≤ i →
        Along (Server.step cfg) (Spares ⟨agent, cfg.projectRoot⟩) u after →
        ∃ info ∈ sessions, info.agent = agent ∧ info.cwd = cfg.projectRoot := by
  have hknown := listing_replied hrun hh hp hreply
  rw [hcall] at hknown
  cases reply with
  | sessions sessions =>
    obtain ⟨-, rows, hrows, rfl⟩ := hknown
    refine ⟨_, rfl, ?_, fun info hinfo => ?_, ?_⟩
    · have hkeys : (rows.map Row.key).Nodup := by simpa using hrows.keys
      have hinj : Function.Injective fun key : SessionKey => (key.agent, key.cwd) := by
        rintro ⟨agent, cwd⟩ ⟨agent', cwd'⟩ heq
        cases heq
        rfl
      simpa only [List.map_map, Function.comp_def, Row.info] using List.Nodup.map hinj hkeys
    · obtain ⟨row, hrow, rfl⟩ := List.mem_map.mp hinfo
      exact hrows.rows row hrow
    · intro agent hagent before after u hacts hu hnew hspares
      have hstart : Watched cfg ⟨agent, cfg.projectRoot⟩ u.handlers.length u := by
        refine ⟨run_sound hu, fun j h' hn hj _ _ => ?_⟩
        exact absurd (List.getElem?_eq_some_iff.mp hj).1 (Nat.not_lt.mpr hn)
      have hafter : run (Server.step cfg) u after = some s := by
        rwa [hacts, run_append hu] at hrun
      have hwatched := invariant (step_watched rfl hagent) hstart hspares hafter
      have hsees := hwatched.2 i h hnew hh hp hcall
      rw [hreply] at hsees
      exact hsees
  | refused | internalServerError => cases hknown
  | notFound =>
    obtain ⟨id, hid, -⟩ := hknown
    cases hid
  | status => cases hknown.1
  | prompt =>
    obtain ⟨id, text, timeout, heq, -⟩ := hknown
    cases heq
  | permission =>
    obtain ⟨-, obj, permission, granted, heq⟩ := hknown
    cases heq

theorem listed_served : ∃ s sessions,
    run (Server.step serverConfig) (.new serverConfig) served = some s ∧
      sessions = [sessionZero] ∧
      (∀ info ∈ sessions, ∃ o, s.r.m.objs[info.id]? = some o ∧ o.key = project) ∧
      ∃ info ∈ sessions, info.agent = "codex" ∧ info.cwd = "/proj" := by
  obtain ⟨s, hrun, hend⟩ := served_end
  obtain ⟨h, hh, hp, hcall, hpc⟩ := served_handler hend (i := 1) rfl
  obtain ⟨sessions, hreply, -, hkeyed, hall⟩ := listed hrun hh hp hcall hpc
  cases hreply
  refine ⟨s, _, hrun, rfl, fun info hinfo => ?_, ?_⟩
  · obtain rfl := List.mem_singleton.mp hinfo
    exact hkeyed _ hinfo
  · refine hall "codex" (by decide) (served.take 1) (served.drop 1) _
      (List.take_append_drop 1 served).symm rfl (by decide) (along_of_forall fun a ha t => ?_)
    have hkeeps : (served.drop 1).all (fun a => !a.mayRemove) = true := by decide
    exact spares_of_not_mayRemove (by simpa using List.all_eq_true.mp hkeeps a ha)

end Listings

end Ccgonext.WebServer
