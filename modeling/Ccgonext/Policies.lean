import Ccgonext.AgentRequests

/-!
# What the policy lets through

Each handler places its check itself. `Stage` says, for every place a handler can
have reached, what the policy and the user have said by then, and it is all that
the effects and the answers rest on.
-/

namespace Ccgonext.Policies
open Lib Lib.Runs Lib.Pool Lib.Posix Callbacks AgentRequests
open CallbackHandler (mayWrite)

def performs : HandlerPc → Option Purpose
  | .writeFile path content => some (.write path content)
  | .spawn req _ => some (.create req)
  | _ => none

section Statement
variable {Value : Type} (schema : Schema Value)

def Reads (s : Sys Value) (a : Action Value) : Prop :=
  ∃ r q path, a = .advance r ∧ s.requests[r]? = some q ∧ q.pc = .readFile path

def Performs (s : Sys Value) (a : Action Value) (r : ℕ) (purpose : Purpose) : Prop :=
  (a = .advance r ∨ ∃ outcome, a = .spawn r outcome) ∧
    ∃ q, s.requests[r]? = some q ∧ performs q.pc = some purpose

/-- No option, or one that rejects. -/
def Refuses (req : RequestPermissionRequest) (outcome : RequestPermissionOutcome) : Prop :=
  outcome = .cancelled ∨
    ∃ option ∈ req.options, option.kind.rejects = true ∧ outcome = .selected option.optionId

def Asked (calls : List Permissions.UserRequest) (call : ℕ) (purpose : Purpose)
    (c : Permissions.UserRequest) : Prop :=
  calls[call]? = some c ∧ c.method = purpose.method ∧ c.description = purpose.description schema

def GrantedTo (calls : List Permissions.UserRequest) (q : AgentRequest Value)
    (purpose : Purpose) : Prop :=
  ∃ call c, q.asked = some call ∧ Asked schema calls call purpose c ∧ c.pc = .returned true

def Granted (s : Sys Value) (r : ℕ) (purpose : Purpose) : Prop :=
  ∃ q, s.requests[r]? = some q ∧ GrantedTo schema s.host.perms.calls q purpose ∧
    ∀ (r' : ℕ) (q' : AgentRequest Value), s.requests[r']? = some q' → q'.asked = q.asked → r' = r

def Plain (q : AgentRequest Value) : Prop :=
  ∀ req, q.decoded schema ≠ .ok (.requestPermission req)

def OnBehalf (q : AgentRequest Value) : Purpose → Prop
  | .answer req => q.decoded schema = .ok (.requestPermission req)
  | .write _ _ | .create _ => Plain schema q

def Cleared (policy : CallbackPolicy) (calls : List Permissions.UserRequest)
    (q : AgentRequest Value) (purpose : Purpose) : Prop :=
  mayWrite policy = true ∧ (policy = .ask → GrantedTo schema calls q purpose)

def Fits (policy : CallbackPolicy) (calls : List Permissions.UserRequest)
    (q : AgentRequest Value) (req : RequestPermissionRequest)
    (outcome : RequestPermissionOutcome) : Prop :=
  Refuses req outcome ∨ Cleared schema policy calls q (.answer req)

def Stage (policy : CallbackPolicy) (calls : List Permissions.UserRequest)
    (q : AgentRequest Value) : HandlerPc → Prop
  | .acquire | .dispatch => True
  | .requestUserPermission purpose => policy = .ask ∧ OnBehalf schema q purpose
  | .awaitPermission purpose call => policy = .ask ∧ OnBehalf schema q purpose ∧
    q.asked = some call ∧ ∃ c, Asked schema calls call purpose c
  | .readFile _ => policy ≠ .denyAll ∧ Plain schema q
  | .writeFile path content => Plain schema q ∧ Cleared schema policy calls q (.write path content)
  | .resolveCwd req | .spawn req _ =>
    Plain schema q ∧ Cleared schema policy calls q (.create req)
  | .insertTerminal _ _ => Plain schema q ∧ mayWrite policy = true
  | .readBuffer _ | .readExit _ _ _ | .takeKill _ _ | .checkExit _ | .waitExit _ => Plain schema q
  | .respond result | .done result => ∀ req, q.decoded schema = .ok (.requestPermission req) →
    ∃ outcome, result = .ok (.permission outcome) ∧ Fits schema policy calls q req outcome

structure Inv (handler : CallbackHandler) (s : Sys Value) : Prop where
  same : s.host.handler = handler
  stage : ∀ (r : ℕ) (q : AgentRequest Value), s.requests[r]? = some q →
    Stage schema handler.policy s.host.perms.calls q q.pc
  known : ∀ (r : ℕ) (q : AgentRequest Value) (call : ℕ), s.requests[r]? = some q →
    q.asked = some call → call < s.host.perms.calls.length
  own : ∀ (r r' : ℕ) (q q' : AgentRequest Value) (call : ℕ), s.requests[r]? = some q →
    s.requests[r']? = some q' → q.asked = some call → q'.asked = some call → r = r'
  spawned : mayWrite handler.policy = false →
    s.host.terminals = [] ∧ s.host.managed = []

end Statement

section Stages
variable {Value : Type} {schema : Schema Value} {c c' : Host} {q q' : AgentRequest Value}
  {calls calls' : List Permissions.UserRequest} {policy : CallbackPolicy} {pc : HandlerPc}
  {purpose : Purpose} {req : RequestPermissionRequest}

def Later (calls calls' : List Permissions.UserRequest) : Prop :=
  ∀ (call : ℕ) (c : Permissions.UserRequest), calls[call]? = some c →
    ∃ pc, calls'[call]? = some { c with pc := pc } ∧
      ∀ granted, c.pc = .returned granted → pc = .returned granted

theorem Later.refl (calls : List Permissions.UserRequest) : Later calls calls :=
  fun _ c hc => ⟨c.pc, hc, fun _ => id⟩

theorem GrantedTo.later (h : GrantedTo schema calls q purpose) (hl : Later calls calls') :
    GrantedTo schema calls' q purpose := by
  obtain ⟨call, c, hq, ⟨hc, hm, hd⟩, hret⟩ := h
  obtain ⟨pc, hc', hpc⟩ := hl call c hc
  exact ⟨call, _, hq, ⟨hc', hm, hd⟩, hpc true hret⟩

theorem Cleared.later (h : Cleared schema policy calls q purpose) (hl : Later calls calls') :
    Cleared schema policy calls' q purpose :=
  ⟨h.1, fun hask => (h.2 hask).later hl⟩

theorem Stage.later (h : Stage schema policy calls q pc) (hl : Later calls calls') :
    Stage schema policy calls' q pc := by
  cases pc with
  | awaitPermission purpose call =>
    obtain ⟨hask, hon, hq, c, hc, hm, hd⟩ := h
    obtain ⟨pc, hc', -⟩ := hl call c hc
    exact ⟨hask, hon, hq, _, hc', hm, hd⟩
  | writeFile path content => exact ⟨h.1, h.2.later hl⟩
  | resolveCwd req => exact ⟨h.1, h.2.later hl⟩
  | spawn req cwd => exact ⟨h.1, h.2.later hl⟩
  | respond result | done result =>
    intro req hreq
    obtain ⟨outcome, hres, hfit⟩ := h req hreq
    exact ⟨outcome, hres, hfit.imp_right fun hcl => hcl.later hl⟩
  | _ => exact h

theorem Stage.moved (h : Stage schema policy calls q pc) (pc' : HandlerPc) :
    Stage schema policy calls { q with pc := pc' } pc := by
  cases pc <;> exact h

theorem refuses_deny (req : RequestPermissionRequest) :
    Refuses req (.makeResponse req.denyOption) := by
  unfold RequestPermissionRequest.denyOption
  cases hfind : req.options.find? fun o => o.kind.rejects with
  | none => exact .inl rfl
  | some option =>
    have hrejects : option.kind.rejects = true := by simpa using List.find?_some hfind
    exact .inr ⟨option, List.mem_of_find?_eq_some hfind, hrejects, rfl⟩

theorem Plain.respond (hq : Plain schema q) (result : Except String Response) :
    Stage schema policy calls q (.respond result) :=
  fun req hreq => absurd hreq (hq req)

theorem Plain.fail (hq : Plain schema q) (e : RpcError) :
    Stage schema policy calls q (fail schema e) :=
  hq.respond _

theorem respond_outcome (hq : q.decoded schema = .ok (.requestPermission req))
    {outcome : RequestPermissionOutcome} (hfit : Fits schema policy calls q req outcome) :
    Stage schema policy calls q (.respond (.ok (.permission outcome))) := by
  intro req' hreq
  rw [hq] at hreq
  cases hreq
  exact ⟨outcome, rfl, hfit⟩

theorem cleared_stage (hon : OnBehalf schema q purpose)
    (hcl : Cleared schema policy calls q purpose) :
    Stage schema policy calls q purpose.cleared := by
  cases purpose with
  | answer req => exact respond_outcome hon (.inr hcl)
  | write path content => exact ⟨hon, hcl⟩
  | create req => exact ⟨hon, hcl⟩

theorem refused_stage (hon : OnBehalf schema q purpose) :
    Stage schema policy calls q (purpose.refused schema) := by
  cases purpose with
  | answer req => exact respond_outcome hon (.inl (refuses_deny req))
  | write path content => exact Plain.fail hon _
  | create req => exact Plain.fail hon _

theorem withWritePermission_stage (hq : Plain schema q) (hon : OnBehalf schema q purpose) :
    Stage schema c.handler.policy calls q (c.withWritePermission schema purpose) := by
  unfold Host.withWritePermission
  cases hp : c.handler.policy with
  | denyAll | readOnly => exact hq.fail _
  | ask => exact ⟨rfl, hon⟩
  | autoApprove => exact cleared_stage hon ⟨rfl, nofun⟩

theorem withTerminal_stage (hq : Plain schema q) {terminalId : String} {next : ℕ → HandlerPc}
    (hnext : ∀ terminal, Stage schema policy calls q (next terminal)) :
    Stage schema policy calls q (c.withTerminal schema terminalId next) := by
  unfold Host.withTerminal
  split
  · exact hq.fail _
  · exact hnext _

theorem handleRequestPermission_stage (hq : q.decoded schema = .ok (.requestPermission req)) :
    Stage schema c.handler.policy calls q (c.handleRequestPermission req) := by
  unfold Host.handleRequestPermission
  cases hp : c.handler.policy with
  | denyAll | readOnly => exact respond_outcome hq (.inl (refuses_deny req))
  | ask => exact ⟨rfl, hq⟩
  | autoApprove => exact respond_outcome hq (.inr ⟨rfl, nofun⟩)

theorem handleReadFile_stage (hq : Plain schema q) (path : Path) :
    Stage schema c.handler.policy calls q (c.handleReadFile schema path) := by
  unfold Host.handleReadFile
  cases hp : c.handler.policy with
  | denyAll => exact hq.fail _
  | readOnly | ask | autoApprove =>
    cases hr : c.handler.resolvePath c.fs path false with
    | error e => exact hq.fail _
    | ok path => exact ⟨nofun, hq⟩

theorem handleWriteFile_stage (hq : Plain schema q) (path : Path) (content : String) :
    Stage schema c.handler.policy calls q (c.handleWriteFile schema path content) := by
  unfold Host.handleWriteFile
  split
  · exact hq.fail _
  · exact withWritePermission_stage hq hq

theorem resolveCwd_stage (hq : Plain schema q) {req : CreateTerminalRequest}
    (hcl : Cleared schema policy calls q (.create req)) :
    Stage schema policy calls q (c.resolveCwd schema req) := by
  unfold Host.resolveCwd
  dsimp only
  split
  · exact hq.fail _
  · split
    · exact hq.fail _
    · exact ⟨hq, hcl⟩

theorem handleAgentRequest_stage :
    Stage schema c.handler.policy calls q (c.handleAgentRequest schema q.method q.params).2 := by
  unfold Host.handleAgentRequest
  cases hd : decode schema q.method q.params with
  | error e =>
    intro req hreq
    rw [AgentRequest.decoded, hd] at hreq
    cases hreq
  | ok request =>
    have hother : (∀ req, request ≠ .requestPermission req) → Plain schema q := by
      intro hno req hreq
      rw [AgentRequest.decoded, hd] at hreq
      cases hreq
      exact hno req rfl
    cases request with
    | requestPermission req => exact handleRequestPermission_stage hd
    | readTextFile path => exact handleReadFile_stage (hother nofun) path
    | writeTextFile path content => exact handleWriteFile_stage (hother nofun) path content
    | createTerminal req => exact withWritePermission_stage (hother nofun) (hother nofun)
    | terminalOutput id => exact withTerminal_stage (hother nofun) fun _ => hother nofun
    | releaseTerminal id =>
      exact withTerminal_stage (hother nofun) fun _ => hother nofun
    | waitForTerminalExit id => exact withTerminal_stage (hother nofun) fun _ => hother nofun
    | killTerminal id => exact withTerminal_stage (hother nofun) fun _ => hother nofun

theorem readFile_stage (hq : Plain schema q) (path : Path) :
    Stage schema policy calls q (c.readFile schema path) := by
  unfold Host.readFile
  split
  · exact hq.fail _
  · split
    · exact hq.fail _
    · exact hq.respond _

theorem writeFile_stage (hq : Plain schema q) (path : Path) (content : String) :
    Stage schema policy calls q (c.writeFile schema path content).2 := by
  unfold Host.writeFile
  split
  · exact hq.fail _
  · exact hq.respond _

theorem advance_stage (hst : Stage schema c.handler.policy c.perms.calls q q.pc)
    (h : c.advance schema q = some (c', pc)) :
    Stage schema c.handler.policy c.perms.calls q pc := by
  cases hpc : q.pc <;> simp only [Host.advance, hpc] at h <;> rw [hpc] at hst
  case dispatch =>
    obtain rfl : _ = pc := congrArg Prod.snd (Option.some.inj h)
    exact handleAgentRequest_stage
  case awaitPermission purpose call =>
    obtain ⟨hask, hon, hq, c, hc, hm, hd⟩ := hst
    simp only [hc] at h
    split at h
    · next hret =>
      cases h
      refine cleared_stage hon ⟨by rw [hask]; rfl, fun _ => ?_⟩
      exact ⟨call, c, hq, ⟨hc, hm, hd⟩, hret⟩
    · cases h
      exact refused_stage hon
    · cases h
  case readFile path =>
    cases h
    exact readFile_stage hst.2 path
  case writeFile path content =>
    obtain rfl : _ = pc := congrArg Prod.snd (Option.some.inj h)
    exact writeFile_stage hst.1 path content
  case resolveCwd req =>
    cases h
    exact resolveCwd_stage hst.1 hst.2
  case insertTerminal terminal terminalId =>
    cases h
    exact hst.1.respond _
  case takeKill terminal response =>
    cases h
    exact Plain.respond hst _
  case acquire | requestUserPermission | spawn | respond | done => cases h
  all_goals
    repeat' split at h
    all_goals
      cases h
      try first | exact hst | exact Plain.respond hst _

end Stages

section Invariant
variable {Value : Type} {schema : Schema Value} {handler : CallbackHandler} {fs : FileSystem}
  {s s' : Sys Value} {a : Action Value} {q q' : AgentRequest Value} {host : Host}
  {perms : Permissions.Sys} {r : ℕ}

theorem inv_start : Inv schema handler (.start handler fs) where
  same := rfl
  stage := by
    intro r q hq
    cases hq
  known := by
    intro r q call hq
    cases hq
  own := by
    intro r r' q q' call hq
    cases hq
  spawned := fun _ => ⟨rfl, rfl⟩

theorem later_step {action : Permissions.Action} (h : s.host.perms.step action = some perms) :
    Later s.host.perms.calls perms.calls :=
  fun _ _ hc => Permissions.step_call h hc

theorem Later.length {calls calls' : List Permissions.UserRequest} (h : Later calls calls')
    {call : ℕ} (hlt : call < calls.length) : call < calls'.length := by
  obtain ⟨pc, hc, -⟩ := h call _ (List.getElem?_eq_getElem hlt)
  exact (List.getElem?_eq_some_iff.mp hc).1

theorem Inv.move (hI : Inv schema handler s) (hq : s.requests[r]? = some q) (permits : ℕ)
    (hsame : host.handler = s.host.handler)
    (hlater : Later s.host.perms.calls host.perms.calls)
    (hst : Stage schema handler.policy host.perms.calls q' q'.pc)
    (hasked : q'.asked = q.asked ∨ q'.asked = some s.host.perms.calls.length ∧
      s.host.perms.calls.length < host.perms.calls.length)
    (hspawned : mayWrite handler.policy = false → host.terminals = [] ∧ host.managed = []) :
    Inv schema handler ⟨host, permits, s.requests.set r q'⟩ := by
  have hnew : ∀ (i : ℕ) (p : AgentRequest Value) (call : ℕ), s.requests[i]? = some p →
      p.asked = some call → q'.asked = some call → r = i := by
    intro i p call hp hcall hcall'
    rcases hasked with hold | ⟨hfresh, -⟩
    · exact hI.own r i q p call hq hp (hold ▸ hcall') hcall
    · have hlt := hI.known i p call hp hcall
      rw [hfresh] at hcall'
      cases hcall'
      exact absurd hlt (lt_irrefl _)
  refine ⟨hsame.trans hI.same, ?_, ?_, ?_, hspawned⟩
  · apply indexed_set
    · exact fun i p _ hp => (hI.stage i p hp).later hlater
    · exact hst
  · intro i p call hp hcall
    revert call
    refine indexed_set (Q := fun _ p => ∀ call, p.asked = some call →
      call < host.perms.calls.length) (fun i p _ hp call hcall => ?_) (fun call hcall => ?_) i p hp
    · exact hlater.length (hI.known i p call hp hcall)
    · rcases hasked with hold | ⟨hfresh, hlt⟩
      · exact hlater.length (hI.known r q call hq (hold ▸ hcall))
      · rw [hfresh] at hcall
        cases hcall
        exact hlt
  · intro i j p p' call hp hp' hcall hcall'
    rcases set_cases hp with ⟨hi, hpq⟩ | ⟨-, hold⟩
    · rcases set_cases hp' with ⟨hj, -⟩ | ⟨-, hold'⟩
      · exact hi.symm.trans hj
      · subst hpq
        exact hi.symm.trans (hnew j p' call hold' hcall' hcall)
    · rcases set_cases hp' with ⟨hj, hpq⟩ | ⟨-, hold'⟩
      · subst hpq
        exact (hnew i p call hold hcall hcall').symm.trans hj
      · exact hI.own i j p p' call hold hold' hcall hcall'

theorem inv_moves (hI : Inv schema handler s) (hq : s.requests[r]? = some q) {permits : ℕ}
    (h : Moves schema s r q a host permits q') :
    Inv schema handler ⟨host, permits, s.requests.set r q'⟩ := by
  have hst := hI.stage r q hq
  cases h with
  | acquire hpc hfree => exact hI.move hq _ rfl (.refl _) trivial (.inl rfl) hI.spawned
  | advance hadv =>
    have hk := Host.advance_kept hadv
    have hpol := congrArg CallbackHandler.policy hI.same
    rw [← hpol] at hst
    refine hI.move hq _ hk.handler (hk.perms ▸ .refl _) ?_ (.inl rfl) fun hno => ?_
    · rw [hk.perms, ← hpol]
      exact (advance_stage hst hadv).moved _
    · obtain ⟨hterm, hman⟩ := hI.spawned hno
      refine ⟨List.eq_nil_iff_forall_not_mem.mpr fun e he => ?_, ?_⟩
      · rcases hk.entries e he with hold | hpc
        · exact absurd (hterm ▸ hold) List.not_mem_nil
        · rw [hpc, hpol] at hst
          exact absurd hst.2 (by rw [hno]; exact Bool.false_ne_true)
      · exact List.length_eq_zero_iff.mp (by rw [hk.length, hman]; rfl)
  | @ask purpose permId perms hpc hstep =>
    rw [hpc] at hst
    obtain ⟨-, rfl⟩ := Permissions.Sys.step_request hstep
    refine hI.move hq _ rfl (later_step hstep) ⟨hst.1, hst.2, rfl, ?_⟩ (.inr ⟨rfl, ?_⟩) hI.spawned
    · exact ⟨_, List.getElem?_concat_length, rfl, rfl⟩
    · simp only [List.length_append, List.length_singleton, Nat.lt_add_one]
  | spawnFailed hpc =>
    rw [hpc] at hst
    exact hI.move hq _ rfl (.refl _) (hst.1.fail _) (.inl rfl) hI.spawned
  | spawned hpc =>
    rw [hpc] at hst
    refine hI.move hq _ rfl (.refl _) ⟨hst.1, hst.2.1⟩ (.inl rfl) fun hno => ?_
    exact absurd hst.2.1 (by rw [hno]; exact Bool.false_ne_true)
  | reply hpc =>
    rw [hpc] at hst
    exact hI.move hq _ rfl (.refl _) hst (.inl rfl) hI.spawned

theorem step_inv (hI : Inv schema handler s) (h : s.step schema a = some s') :
    Inv schema handler s' := by
  rcases Sys.step_cases h with ⟨method, params, -, rfl⟩ | ⟨r, q, host, permits, q', hq, hm, rfl⟩ |
    ⟨host, ho, rfl⟩
  · refine ⟨hI.same, indexed_spawn hI.stage trivial, ?_, ?_, hI.spawned⟩
    · intro i p call hp
      revert call
      exact indexed_spawn (Q := fun _ p => ∀ call, p.asked = some call →
        call < s.host.perms.calls.length) (fun i p hp call => hI.known i p call hp)
        (fun call hcall => by cases hcall) i p hp
    · intro i j p p' call hp hp' hcall hcall'
      have hold : ∀ (i : ℕ) (p : AgentRequest Value),
          (s.requests ++ [⟨method, params, none, .acquire⟩])[i]? = some p →
          p.asked = some call → s.requests[i]? = some p :=
        indexed_spawn (Q := fun i p => p.asked = some call → s.requests[i]? = some p)
          (fun i p hp _ => hp) fun hcall => by cases hcall
      exact hI.own i j p p' call (hold i p hp hcall) (hold j p' hp' hcall') hcall hcall'
  · exact inv_moves hI hq hm
  · cases ho with
    | permission hstep =>
      have hl := later_step hstep
      exact ⟨hI.same, fun i p hp => (hI.stage i p hp).later hl,
        fun i p call hp hcall => hl.length (hI.known i p call hp hcall), hI.own, hI.spawned⟩
    | changeFiles fs => exact ⟨hI.same, hI.stage, hI.known, hI.own, hI.spawned⟩
    | exit | terminal =>
      refine ⟨hI.same, hI.stage, hI.known, hI.own, fun hno => ?_⟩
      obtain ⟨hterm, hman⟩ := hI.spawned hno
      exact ⟨hterm, by simp only [Host.updateTerminal, hman, List.modify_nil]⟩

end Invariant

section Runs
variable {Value : Type} {schema : Schema Value} {handler : CallbackHandler} {fs : FileSystem}
  {as after : List (Action Value)} {a : Action Value} {s s' t u u' : Sys Value}
  {q : AgentRequest Value} {purpose : Purpose} {r : ℕ}

theorem run_inv (hr : run (Sys.step schema) (.start handler fs) as = some t) :
    Inv schema handler t :=
  preserved (fun _ _ _ hI => step_inv hI) inv_start hr

theorem Visit.inv (h : Visit (Sys.step schema) (.start handler fs) as u a u' after) :
    Inv schema handler u := by
  obtain ⟨⟨before, -, hu⟩, -⟩ := h
  exact run_inv hu

theorem step_files (h : s.step schema a = some s') :
    s'.host.fs = s.host.fs ∨ (∃ fs, a = .changeFiles fs) ∨
      ∃ r path content, Performs s a r (.write path content) := by
  rcases Sys.step_cases h with ⟨method, params, -, rfl⟩ | ⟨r, q, host, permits, q', hq, hm, rfl⟩ |
    ⟨host, ho, rfl⟩
  · exact .inl rfl
  · cases hm with
    | advance hadv =>
      rcases (Host.advance_kept hadv).files with hsame | ⟨path, content, hpc⟩
      · exact .inl hsame
      · exact .inr (.inr ⟨r, path, content, .inl rfl, q, hq, by rw [hpc]; rfl⟩)
    | _ => exact .inl rfl
  · cases ho with
    | changeFiles fs => exact .inr (.inl ⟨fs, rfl⟩)
    | _ => exact .inl rfl

theorem Inv.performs_cleared (hI : Inv schema handler s) (h : Performs s a r purpose) :
    ∃ q, s.requests[r]? = some q ∧
      Cleared schema handler.policy s.host.perms.calls q purpose := by
  obtain ⟨-, q, hq, hp⟩ := h
  have hst := hI.stage r q hq
  refine ⟨q, hq, ?_⟩
  unfold performs at hp
  split at hp
  · next hpc =>
    cases hp
    rw [hpc] at hst
    exact hst.2
  · next hpc =>
    cases hp
    rw [hpc] at hst
    exact hst.2
  · cases hp

theorem Inv.granted (hI : Inv schema handler s) (hq : s.requests[r]? = some q)
    (hg : GrantedTo schema s.host.perms.calls q purpose) : Granted schema s r purpose := by
  refine ⟨q, hq, hg, fun r' q' hq' hsame => ?_⟩
  obtain ⟨call, c, hcall, -⟩ := hg
  exact hI.own r' r q' q call hq' hq (hsame.trans hcall) hcall

theorem Inv.answered (hI : Inv schema handler s) (hq : s.requests[r]? = some q)
    {req : RequestPermissionRequest} {result : Except String Response}
    (hreq : q.decoded schema = .ok (.requestPermission req)) (hpc : q.pc = .done result) :
    ∃ outcome, result = .ok (.permission outcome) ∧
      Fits schema handler.policy s.host.perms.calls q req outcome := by
  have hst := hI.stage r q hq
  rw [hpc] at hst
  exact hst req hreq

end Runs

/-- Under `DenyAll` nothing is read, under `DenyAll` and `ReadOnly` nothing is
written or spawned and every permission is refused, and under `Ask` all of it
takes a call of its own that was granted. -/
theorem policy_enforced {Value : Type} (schema : Schema Value) (handler : CallbackHandler)
    (fs : FileSystem) (as : List (Action Value)) (t : Sys Value)
    (hr : run (Sys.step schema) (.start handler fs) as = some t) :
    (handler.policy = .denyAll → ∀ u a u' after,
      Visit (Sys.step schema) (.start handler fs) as u a u' after → ¬ Reads u a) ∧
    (handler.policy = .denyAll ∨ handler.policy = .readOnly →
      t.host.terminals = [] ∧ t.host.managed = [] ∧
      (∀ u a u' after, Visit (Sys.step schema) (.start handler fs) as u a u' after →
        (∀ r purpose, ¬ Performs u a r purpose) ∧
        (u'.host.fs = u.host.fs ∨ ∃ fs, a = .changeFiles fs)) ∧
      ∀ (r : ℕ) (q : AgentRequest Value) req result, t.requests[r]? = some q →
        q.decoded schema = .ok (.requestPermission req) → q.pc = .done result →
        ∃ outcome, result = .ok (.permission outcome) ∧ Refuses req outcome) ∧
    (handler.policy = .ask →
      (∀ u a u' after, Visit (Sys.step schema) (.start handler fs) as u a u' after →
        ∀ r purpose, Performs u a r purpose → Granted schema u r purpose) ∧
      ∀ (r : ℕ) (q : AgentRequest Value) req result, t.requests[r]? = some q →
        q.decoded schema = .ok (.requestPermission req) → q.pc = .done result →
        ∃ outcome, result = .ok (.permission outcome) ∧
          (Refuses req outcome ∨ Granted schema t r (.answer req))) := by
  have hI := run_inv hr
  refine ⟨fun hdeny u a u' after hv hread => ?_, fun hclosed => ?_, fun hask => ⟨?_, ?_⟩⟩
  · obtain ⟨r, q, path, -, hq, hpc⟩ := hread
    have hst := (Visit.inv hv).stage r q hq
    rw [hpc] at hst
    exact hst.1 hdeny
  · have hno : mayWrite handler.policy = false := by
      rcases hclosed with hp | hp <;> rw [hp] <;> rfl
    have hnever : ∀ u a r purpose, Inv schema handler u → ¬ Performs u a r purpose := by
      intro u a r purpose hu hp
      obtain ⟨q, -, hmay, -⟩ := hu.performs_cleared hp
      rw [hno] at hmay
      cases hmay
    refine ⟨(hI.spawned hno).1, (hI.spawned hno).2, fun u a u' after hv => ⟨?_, ?_⟩, ?_⟩
    · exact fun r purpose => hnever u a r purpose (Visit.inv hv)
    · rcases step_files hv.step with hsame | hchange | ⟨r, path, content, hp⟩
      · exact .inl hsame
      · exact .inr hchange
      · exact absurd hp (hnever u a r _ (Visit.inv hv))
    · intro r q req result hq hreq hpc
      obtain ⟨outcome, hres, hfit | ⟨hmay, -⟩⟩ := hI.answered hq hreq hpc
      · exact ⟨outcome, hres, hfit⟩
      · rw [hno] at hmay
        cases hmay
  · intro u a u' after hv r purpose hp
    have hu := Visit.inv hv
    obtain ⟨q, hq, -, hg⟩ := hu.performs_cleared hp
    exact hu.granted hq (hg hask)
  · intro r q req result hq hreq hpc
    obtain ⟨outcome, hres, hfit⟩ := hI.answered hq hreq hpc
    exact ⟨outcome, hres, hfit.imp_right fun hcl => hI.granted hq (hcl.2 hask)⟩

def askingHandler : CallbackHandler := ⟨.ask, ⟨true, [.name "proj"]⟩⟩

/-- The agent writes a file and the user grants it. -/
def grantedWrite : List (Action ClientRequest) :=
  [.arrive "fs/write_text_file" (.writeTextFile ⟨false, [.name "a"]⟩ "text"), .acquire 0,
    .advance 0, .requestUserPermission 0 "p", .permission (.advance 0), .permission (.advance 0),
    .permission (.respondPermission "p" true), .permission (.advance 0), .permission (.advance 0),
    .permission (.advance 0), .advance 0]

theorem policy_enforced_granted :
    ∃ u u', Visit (Sys.step plainSchema) (.start askingHandler projectFiles)
        (grantedWrite ++ [.advance 0]) u (.advance 0) u' [] ∧
      Performs u (.advance 0) 0 (.write ⟨true, [.name "proj", .name "a"]⟩ "text") ∧
      Granted plainSchema u 0 (.write ⟨true, [.name "proj", .name "a"]⟩ "text") := by
  obtain ⟨t, hr, -⟩ : ∃ t, run (Sys.step plainSchema) (.start askingHandler projectFiles)
      (grantedWrite ++ [.advance 0]) = some t ∧ True := exists_run _ (by decide +kernel)
  obtain ⟨u, hu, hp, hstep⟩ : ∃ u, run (Sys.step plainSchema) (.start askingHandler projectFiles)
      grantedWrite = some u ∧ (u.requests[0]?.map fun q => performs q.pc) =
        some (some (.write ⟨true, [.name "proj", .name "a"]⟩ "text")) ∧
      (u.step plainSchema (.advance 0)).isSome = true := exists_run _ (by decide +kernel)
  obtain ⟨u', hu'⟩ := Option.isSome_iff_exists.mp hstep
  obtain ⟨q, hq, hp⟩ := Option.map_eq_some_iff.mp hp
  have hv : Visit (Sys.step plainSchema) (.start askingHandler projectFiles)
      (grantedWrite ++ [.advance 0]) u (.advance 0) u' [] := ⟨⟨grantedWrite, rfl, hu⟩, hu'⟩
  have hperf : Performs u (.advance 0) 0 (.write ⟨true, [.name "proj", .name "a"]⟩ "text") :=
    ⟨.inl rfl, q, hq, hp⟩
  have h := policy_enforced plainSchema askingHandler projectFiles _ t hr
  exact ⟨u, u', hv, hperf, (h.2.2 rfl).1 u _ u' [] hv 0 _ hperf⟩

end Ccgonext.Policies
