import Ccgonext.WebHandlers

/-!
# Refused requests and permissions

A request that is refused is as if it had not come, and a permission is passed on once
for each reply that says so.
-/

namespace Ccgonext.WebServer
open Lib Lib.Runs Lib.Pool Session Manager Indexes

section Refused
variable {cfg : Config} {s s' t : Server} {keys : List String} {order : Manager.Registry}
  {request : Request} {pc pc' : Pc} {h : Handler} {a : Action} {acts : List Action}

def Server.among (l : List Handler) (s : Server) : Server := { s with handlers := l }

/-! A handler sees no other handler. -/

theorem callManager_among (l : List Handler) {a : Manager.Action}
    (hs : s.callManager a pc = some (t, pc')) :
    (s.among l).callManager a pc = some (t.among l, pc') := by
  obtain ⟨r, hr, rfl, rfl⟩ := Server.callManager_eq hs
  simp only [Server.callManager, Server.among, hr, Option.map_some]

theorem route_among (l : List Handler) {call : Call} (hs : s.route cfg keys call = some (t, pc)) :
    (s.among l).route cfg keys call = some (t.among l, pc) := by
  cases call with
  | getStatus | permissionResponse =>
    cases hs
    rfl
  | listSessions =>
    simp only [Server.route] at hs ⊢
    split at hs
    · next hkeys =>
      cases hs
      rw [if_pos hkeys]
    · cases hs
  | promptSession =>
    simp only [Server.route] at hs ⊢
    split at hs <;> cases hs <;> rfl

theorem found_among (l : List Handler) {g : ℕ} {obj : ObjId} {call : Call}
    (hs : s.found cfg g obj call = some (t, pc)) :
    (s.among l).found cfg g obj call = some (t.among l, pc) := by
  cases call with
  | promptSession id text timeout =>
    simp only [Server.found] at hs ⊢
    split at hs
    · cases hs
    · next o ho =>
      simp only [Server.among, ho]
      exact callManager_among l hs
  | permissionResponse =>
    cases hs
    rfl
  | getStatus | listSessions => cases hs

theorem handleStep_among (l : List Handler)
    (hs : s.handleStep cfg keys order request pc = some (t, pc')) :
    (s.among l).handleStep cfg keys order request pc = some (t.among l, pc') := by
  cases pc with
  | authorize =>
    simp only [Server.handleStep] at hs ⊢
    split at hs
    · cases hs
      rfl
    · exact route_among l hs
  | nextAgent todo =>
    cases todo with
    | nil =>
      cases hs
      rfl
    | cons agent todo => exact callManager_among l hs
  | snapshot =>
    simp only [Server.handleStep] at hs ⊢
    split at hs
    · next hfree =>
      cases hs
      exact if_pos hfree
    · cases hs
  | readProcess todo rows =>
    cases todo with
    | nil =>
      cases hs
      rfl
    | cons e todo =>
      simp only [Server.handleStep, Server.among] at hs ⊢
      split at hs <;> cases hs
      rfl
  | getById =>
    simp only [Server.handleStep] at hs ⊢
    split at hs
    · exact callManager_among l hs
    · exact callManager_among l hs
    · cases hs
    · cases hs
  | lookUp g =>
    simp only [Server.handleStep, Server.among] at hs ⊢
    split at hs
    · exact found_among l hs
    · cases hs
      rfl
    · cases hs
  | getOrCreate | readTurn | respond | ask =>
    simp only [Server.handleStep, Server.among] at hs ⊢
    split at hs <;> cases hs <;> rfl
  | replied => cases hs

def Handler.held (cfg : Config) (h : Handler) : Handler :=
  if Passes cfg h then h else { h with pc := .authorize }

/-- The server as if those that are refused had not been handled. -/
def Server.held (cfg : Config) (s : Server) : Server :=
  s.among (s.handlers.map (Handler.held cfg))

def Admits (cfg : Config) (s : Server) : Action → Prop
  | .handle i _ _ => ∀ h, s.handlers[i]? = some h → Passes cfg h
  | .manager _ | .receive _ => True

theorem held_of_passes (hp : Passes cfg h) : h.held cfg = h := if_pos hp

theorem held_of_refused (hp : ¬ Passes cfg h) : h.held cfg = { h with pc := .authorize } :=
  if_neg hp

theorem refused_step (hp : ¬ Passes cfg h) (hst : Standing cfg s.r h)
    (hs : Server.Handles cfg s h.request h.pc t pc') : t = s := by
  unfold Standing at hst
  split at hst
  · rcases hst with hpc | hpc
    · rw [hpc] at hs
      cases hs with
      | refused | status | lists | rejects | seeks => rfl
    · rw [hpc] at hs
      cases hs
  · next hauth => exact absurd hauth hp

/-- A step of a handler that is refused does not show, and any other is the same step
without those. -/
theorem step_held (hsound : Sound cfg s) (hs : s.step cfg a = some s') :
    (Admits cfg (s.held cfg) a ∧ (s.held cfg).step cfg a = some (s'.held cfg)) ∨
      s'.held cfg = s.held cfg := by
  cases a with
  | manager a =>
    obtain ⟨r, hr, rfl⟩ := Option.map_eq_some_iff.mp hs
    refine .inl ⟨trivial, ?_⟩
    simp only [Server.step, Server.held, Server.among, hr, Option.map_some]
  | receive request =>
    cases hs
    refine .inl ⟨trivial, ?_⟩
    have hnew : Handler.held cfg ⟨request, .authorize⟩ = ⟨request, .authorize⟩ := by
      unfold Handler.held
      split <;> rfl
    simp only [Server.step, Server.held, Server.among, List.map_append, List.map_cons,
      List.map_nil, hnew]
  | handle i keys order =>
    simp only [Server.step] at hs
    split at hs
    · cases hs
    next h hh =>
    split at hs
    · cases hs
    next t pc' hstep =>
    cases hs
    have hhandles := Server.handleStep_cases hstep
    have hget : (s.held cfg).handlers[i]? = some (h.held cfg) := by
      rw [Server.held, Server.among, List.getElem?_map, hh, Option.map_some]
    by_cases hp : Passes cfg h
    · have hkept : Handler.held cfg { h with pc := pc' } = { h with pc := pc' } :=
        held_of_passes hp
      rw [held_of_passes hp] at hget
      refine .inl ⟨fun h' hh' => ?_, ?_⟩
      · rw [hget] at hh'
        cases hh'
        exact hp
      · simp only [Server.step, hget]
        rw [Server.held, handleStep_among _ hstep]
        simp only [Server.held, Server.among, hhandles.handlers_eq, List.map_set, hkept]
    · refine .inr ?_
      obtain rfl := refused_step hp (hsound.standing h (List.mem_of_getElem? hh)) hhandles
      have hback : Handler.held cfg { h with pc := pc' } = h.held cfg := by
        rw [held_of_refused hp]
        exact held_of_refused hp
      have hsame := set_same hget
      simp only [Server.held, Server.among] at hsame ⊢
      rw [List.map_set, hback, hsame]

theorem run_held (hsound : Sound cfg s) (hrun : run (Server.step cfg) s acts = some s') :
    ∃ kept, kept.Sublist acts ∧ run (Server.step cfg) (s.held cfg) kept = some (s'.held cfg) ∧
      Along (Server.step cfg) (Admits cfg) (s.held cfg) kept := by
  induction acts generalizing s with
  | nil =>
    cases hrun
    exact ⟨[], .slnil, rfl, trivial⟩
  | cons a acts ih =>
    obtain ⟨u, hs, hrun⟩ := run_cons_inv hrun
    obtain ⟨kept, hsub, hkept, halong⟩ := ih (step_sound s a u hsound hs) hrun
    rcases step_held hsound hs with ⟨hadmits, hstep⟩ | hsame
    · refine ⟨a :: kept, hsub.cons_cons a, ?_, (along_cons hstep).mpr ⟨hadmits, halong⟩⟩
      simp only [run, hstep]
      exact hkept
    · rw [hsame] at hkept halong
      exact ⟨kept, hsub.cons a, hkept, halong⟩

/-- A request that is refused gets its refusal and is otherwise as if it had not come:
the run without the steps of those has the same effect on the manager, on the
permissions and on all others. -/
theorem refused_unnoticed (hrun : run (Server.step cfg) (.new cfg) acts = some s) :
    (∀ h ∈ s.handlers, ∀ refusal, authMiddleware cfg h.request.headers = some refusal →
      h.pc = .authorize ∨ h.pc = .replied (.refused refusal)) ∧
    ∃ kept t, kept.Sublist acts ∧ run (Server.step cfg) (.new cfg) kept = some t ∧
      Along (Server.step cfg) (Admits cfg) (.new cfg) kept ∧ t.r = s.r ∧
      t.responded = s.responded ∧
      ∀ (i : ℕ) h, s.handlers[i]? = some h → Passes cfg h → t.handlers[i]? = some h := by
  refine ⟨fun h hmem refusal hauth => ?_, ?_⟩
  · have hst := (run_sound hrun).standing h hmem
    unfold Standing at hst
    rw [hauth] at hst
    exact hst
  obtain ⟨kept, hsub, hkept, halong⟩ := run_held (sound_new cfg) hrun
  refine ⟨kept, s.held cfg, hsub, hkept, halong, rfl, rfl, fun i h hh hp => ?_⟩
  rw [Server.held, Server.among, List.getElem?_map, hh, Option.map_some, held_of_passes hp]

theorem refused_unnoticed_served : ∃ kept t, kept.Sublist served ∧
    run (Server.step serverConfig) (.new serverConfig) kept = some t ∧
    Along (Server.step serverConfig) (Admits serverConfig) (.new serverConfig) kept ∧
    ∃ h, t.handlers[2]? = some h ∧ h.pc = .replied (.prompt true (some "hello") none) := by
  obtain ⟨s, hrun, hend⟩ := served_end
  obtain ⟨-, kept, t, hsub, hkept, halong, -, -, hsame⟩ := refused_unnoticed hrun
  obtain ⟨h, hh, hp, -, hpc⟩ := served_handler hend (i := 2) rfl
  exact ⟨kept, t, hsub, hkept, halong, h, hsame 2 h hh hp, hpc⟩

end Refused

section Permissions
variable {cfg : Config} {s s' t : Server} {pc' : Pc} {h : Handler} {a : Action}
  {acts : List Action}

end Permissions

end Ccgonext.WebServer
