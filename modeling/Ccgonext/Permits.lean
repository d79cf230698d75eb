import Ccgonext.AgentRequests

/-!
# Permits held while a terminal runs

A `terminal/wait_for_exit` handler keeps its permit until its terminal's process
ends, and the request that would end the process needs a permit as well. With
`requestPermits` such handlers no permit comes back until some process ends by
itself. `Spared` is what keeps a run out of that: the last permit is not given to
a wait while somebody waits to end a terminal, and nobody asks to end one while
all permits are gone that way.
-/

namespace Ccgonext.Permits
open Lib Lib.Runs Lib.Pool AgentRequests

def holds : HandlerPc → Bool
  | .acquire | .done _ => false
  | _ => true

def queued : HandlerPc → Bool
  | .acquire => true
  | _ => false

def dispatched : HandlerPc → Bool
  | .dispatch => true
  | _ => false

/-- The handler goes on only when a process that still runs has ended. -/
def waits (c : Host) : HandlerPc → Bool
  | .checkExit terminal | .waitExit terminal => c.running terminal
  | _ => false

def runningAt (c : Host) (terminalId : String) : Bool :=
  (c.terminals.lookup terminalId).any c.running

section Statement
variable {Value : Type} (schema : Schema Value)

def ending (c : Host) (method : String) (params : Value) : Bool :=
  match decode schema method params with
  | .ok (.killTerminal terminalId) | .ok (.releaseTerminal terminalId) => runningAt c terminalId
  | _ => false

def awaiting (c : Host) (method : String) (params : Value) : Bool :=
  match decode schema method params with
  | .ok (.waitForTerminalExit terminalId) => runningAt c terminalId
  | _ => false

/-- Somebody waits for a permit to end a terminal that runs. -/
def Delayed (s : Sys Value) : Prop :=
  ∃ q ∈ s.requests, queued q.pc = true ∧ ending schema s.host q.method q.params = true

/-- All permits are held until some process ends, and the request that would end
one waits for a permit. -/
def Jam (s : Sys Value) : Prop :=
  s.permits = 0 ∧ (∀ q ∈ s.requests, holds q.pc = true → waits s.host q.pc = true) ∧
    Delayed schema s

def holding (s : Sys Value) : ℕ := s.requests.countP fun q => holds q.pc

def waiting (s : Sys Value) : ℕ := s.requests.countP fun q => waits s.host q.pc

def Spared (s : Sys Value) : Action Value → Prop
  | .arrive method params => ending schema s.host method params = true →
    waiting s < requestPermits
  | .advance r => ∀ q ∈ s.requests[r]?, dispatched q.pc = true →
    awaiting schema s.host q.method q.params = true →
    waiting s + 1 < requestPermits ∨ ¬ Delayed schema s
  | _ => True

instance decidableDelayed (s : Sys Value) : Decidable (Delayed schema s) :=
  inferInstanceAs (Decidable (∃ q ∈ s.requests, _ ∧ _))

instance decidableJam (s : Sys Value) : Decidable (Jam schema s) :=
  inferInstanceAs (Decidable (_ ∧ (∀ q ∈ s.requests, _) ∧ _))

instance decidableSpared (s : Sys Value) : ∀ a, Decidable (Spared schema s a)
  | .arrive _ _ => inferInstanceAs (Decidable (_ → _))
  | .advance r => inferInstanceAs (Decidable (∀ q ∈ s.requests[r]?, _))
  | .acquire _ | .requestUserPermission _ _ | .spawn _ _ | .reply _ | .permission _
  | .changeFiles _ | .drain _ _ _ | .exit _ | .storeExit _ _ => .isTrue trivial

end Statement

def target : HandlerPc → Option ℕ
  | .insertTerminal terminal _ | .checkExit terminal | .waitExit terminal => some terminal
  | _ => none

structure Inv {Value : Type} (s : Sys Value) : Prop where
  permits : s.permits + holding s = requestPermits
  entries : ∀ e ∈ s.host.terminals, e.2 < s.host.managed.length
  targets : ∀ q ∈ s.requests, ∀ terminal, target q.pc = some terminal →
    terminal < s.host.managed.length
  timely : s.host.Timely

section Handlers
variable {Value : Type} {schema : Schema Value} {c c' : Host} {q : AgentRequest Value}
  {pc : HandlerPc} {method : String} {params : Value}

theorem target_of_waits (h : waits c pc = true) : ∃ terminal, target pc = some terminal := by
  cases pc <;> first | exact ⟨_, rfl⟩ | cases h

def Busy (pc : HandlerPc) : Prop := holds pc = true ∧ target pc = none

theorem Busy.waits (h : Busy pc) : waits c pc = false := by
  rw [Bool.eq_false_iff]
  intro hw
  obtain ⟨terminal, ht⟩ := target_of_waits hw
  rw [h.2] at ht
  cases ht

theorem busy_respond (result : Except String Response) : Busy (.respond result) := ⟨rfl, rfl⟩

theorem busy_withTerminal {terminalId : String} {next : ℕ → HandlerPc}
    (hnext : ∀ terminal, Busy (next terminal)) : Busy (c.withTerminal schema terminalId next) := by
  unfold Host.withTerminal
  split
  · exact busy_respond _
  · exact hnext _

theorem busy_cleared (purpose : Purpose) : Busy purpose.cleared := by
  cases purpose <;> exact ⟨rfl, rfl⟩

theorem busy_refused (purpose : Purpose) : Busy (purpose.refused schema) := by
  cases purpose <;> exact ⟨rfl, rfl⟩

theorem busy_withWritePermission (purpose : Purpose) :
    Busy (c.withWritePermission schema purpose) := by
  unfold Host.withWritePermission
  cases c.handler.policy with
  | denyAll | readOnly => exact busy_respond _
  | ask => exact ⟨rfl, rfl⟩
  | autoApprove => exact busy_cleared purpose

theorem busy_handleRequestPermission (req : RequestPermissionRequest) :
    Busy (c.handleRequestPermission req) := by
  unfold Host.handleRequestPermission
  cases c.handler.policy <;> exact ⟨rfl, rfl⟩

theorem busy_handleReadFile (path : Posix.Path) : Busy (c.handleReadFile schema path) := by
  unfold Host.handleReadFile
  cases c.handler.policy with
  | denyAll => exact busy_respond _
  | readOnly | ask | autoApprove =>
    cases c.handler.resolvePath c.fs path false with
    | error e => exact busy_respond _
    | ok path => exact ⟨rfl, rfl⟩

theorem busy_handleWriteFile (path : Posix.Path) (content : String) :
    Busy (c.handleWriteFile schema path content) := by
  unfold Host.handleWriteFile
  split
  · exact busy_respond _
  · exact busy_withWritePermission _

theorem busy_readFile (path : Posix.Path) : Busy (c.readFile schema path) := by
  unfold Host.readFile
  split
  · exact busy_respond _
  · split <;> exact busy_respond _

theorem busy_writeFile (path : Posix.Path) (content : String) :
    Busy (c.writeFile schema path content).2 := by
  unfold Host.writeFile
  split <;> exact busy_respond _

theorem busy_resolveCwd (req : CreateTerminalRequest) : Busy (c.resolveCwd schema req) := by
  unfold Host.resolveCwd
  dsimp only
  split
  · exact busy_respond _
  · split <;> exact ⟨rfl, rfl⟩

/-- A handler that goes on keeps its permit. It waits for a process only where it
was asked to, or did before, and holds on only to terminals it found. -/
structure Goes (schema : Schema Value) (c : Host) (q : AgentRequest Value) (pc : HandlerPc) :
    Prop where
  held : holds q.pc = true
  holds : holds pc = true
  awaits : dispatched q.pc = true → Permits.waits c pc = awaiting schema c q.method q.params
  waited : dispatched q.pc = false → Permits.waits c pc = true → Permits.waits c q.pc = true
  targets : ∀ terminal, target pc = some terminal →
    target q.pc = some terminal ∨ ∃ e ∈ c.terminals, e.2 = terminal

theorem Busy.goes (h : Busy pc) (hq : Permits.holds q.pc = true)
    (hd : dispatched q.pc = true → awaiting schema c q.method q.params = false) :
    Goes schema c q pc where
  held := hq
  holds := h.1
  awaits hdis := h.waits.trans (hd hdis).symm
  waited _ hw := by
    rw [h.waits] at hw
    cases hw
  targets _ ht := by
    rw [h.2] at ht
    cases ht

theorem goes_handleWait {terminalId : String} (hq : dispatched q.pc = true)
    (hd : awaiting schema c q.method q.params = runningAt c terminalId) :
    Goes schema c q (c.handleWaitForTerminalExit schema terminalId) := by
  have hheld : Permits.holds q.pc = true := by
    cases hpc : q.pc <;> rw [hpc] at hq <;> first | rfl | cases hq
  unfold Host.handleWaitForTerminalExit Host.withTerminal Host.getTerminal
  unfold runningAt at hd
  cases hl : c.terminals.lookup terminalId with
  | none =>
    rw [hl] at hd
    exact (busy_respond _).goes hheld fun _ => hd
  | some terminal =>
    rw [hl] at hd
    refine ⟨hheld, rfl, fun _ => hd.symm, fun hno => ?_, fun k hk => ?_⟩
    · rw [hq] at hno
      cases hno
    · cases hk
      obtain ⟨l₁, l₂, hsplit, -⟩ := List.lookup_eq_some_iff.mp hl
      refine .inr ⟨(terminalId, terminal), ?_, rfl⟩
      rw [hsplit]
      exact List.mem_append_right l₁ List.mem_cons_self

theorem goes_dispatch (hq : q.pc = .dispatch) :
    Goes schema c q (c.handleAgentRequest schema q.method q.params).2 := by
  have hdis : dispatched q.pc = true := by rw [hq]; rfl
  have hheld : Permits.holds q.pc = true := by rw [hq]; rfl
  unfold Host.handleAgentRequest
  cases hd : decode schema q.method q.params with
  | error e => exact (busy_respond _).goes hheld fun _ => by rw [awaiting, hd]
  | ok request =>
    have hgoes : ∀ {pc}, (∀ id, request ≠ .waitForTerminalExit id) → Busy pc →
        Goes schema c q pc := by
      intro pc hno hbusy
      refine hbusy.goes hheld fun _ => ?_
      unfold awaiting
      split
      · next terminalId hok =>
        rw [hd] at hok
        cases hok
        exact absurd rfl (hno terminalId)
      · rfl
    cases request with
    | requestPermission req => exact hgoes nofun (busy_handleRequestPermission req)
    | readTextFile path => exact hgoes nofun (busy_handleReadFile path)
    | writeTextFile path content => exact hgoes nofun (busy_handleWriteFile path content)
    | createTerminal req => exact hgoes nofun (busy_withWritePermission _)
    | terminalOutput id => exact hgoes nofun (busy_withTerminal fun _ => ⟨rfl, rfl⟩)
    | releaseTerminal id => exact hgoes nofun (busy_withTerminal fun _ => ⟨rfl, rfl⟩)
    | waitForTerminalExit id => exact goes_handleWait hdis (by rw [awaiting, hd])
    | killTerminal id => exact hgoes nofun (busy_withTerminal fun _ => ⟨rfl, rfl⟩)

theorem Busy.goes_on {here : HandlerPc} (h : Busy pc) (hq : q.pc = here)
    (hheld : Permits.holds here = true) (hd : dispatched here = false) : Goes schema c q pc :=
  h.goes (hq ▸ hheld) fun hdis => by
    rw [hq, hd] at hdis
    cases hdis

theorem goes_round {terminal : ℕ} {here : HandlerPc} (hq : q.pc = here)
    (hf : here = .checkExit terminal ∨ here = .waitExit terminal)
    (ht : pc = .checkExit terminal ∨ pc = .waitExit terminal) : Goes schema c q pc := by
  refine ⟨?_, ?_, fun hdis => ?_, fun _ hw => ?_, fun k hk => .inl ?_⟩
  · rcases hf with rfl | rfl <;> rw [hq] <;> rfl
  · rcases ht with rfl | rfl <;> rfl
  · rcases hf with rfl | rfl <;> rw [hq] at hdis <;> cases hdis
  · rcases hf with rfl | rfl <;> rcases ht with rfl | rfl <;> rw [hq] <;> exact hw
  · rcases hf with rfl | rfl <;> rcases ht with rfl | rfl <;> rw [hq] <;> exact hk

theorem advance_goes (h : c.advance schema q = some (c', pc)) : Goes schema c q pc := by
  cases hpc : q.pc <;> simp only [Host.advance, hpc] at h
  case dispatch =>
    obtain rfl : _ = pc := congrArg Prod.snd (Option.some.inj h)
    exact goes_dispatch hpc
  case awaitPermission purpose call =>
    split at h
    · cases h
    · split at h
      · cases h
        exact (busy_cleared purpose).goes_on hpc rfl rfl
      · cases h
        exact (busy_refused purpose).goes_on hpc rfl rfl
      · cases h
  case readFile path =>
    cases h
    exact (busy_readFile path).goes_on hpc rfl rfl
  case writeFile path content =>
    obtain rfl : _ = pc := congrArg Prod.snd (Option.some.inj h)
    exact (busy_writeFile path content).goes_on hpc rfl rfl
  case resolveCwd req =>
    cases h
    exact (busy_resolveCwd req).goes_on hpc rfl rfl
  case insertTerminal | takeKill =>
    cases h
    exact (busy_respond _).goes_on hpc rfl rfl
  case readBuffer terminal =>
    split at h
    · cases h
    · cases h
      exact Busy.goes_on ⟨rfl, rfl⟩ hpc rfl rfl
  case readExit terminal output truncated =>
    split at h
    · cases h
    · cases h
      exact (busy_respond _).goes_on hpc rfl rfl
  case checkExit terminal =>
    split at h
    · cases h
    · split at h
      · cases h
        exact (busy_respond _).goes_on hpc rfl rfl
      · cases h
        exact goes_round hpc (.inl rfl) (.inr rfl)
  case waitExit terminal =>
    split at h
    · cases h
    · split at h
      · cases h
        exact goes_round hpc (.inr rfl) (.inl rfl)
      · cases h
  case acquire | requestUserPermission | spawn | respond | done => cases h

end Handlers

section Invariant
variable {Value : Type} {schema : Schema Value} {s s' : Sys Value} {a : Action Value} {c c' : Host}
  {q q' : AgentRequest Value} {host : Host} {permits r : ℕ}

theorem inv_start {handler : Callbacks.CallbackHandler} {fs : Posix.FileSystem} :
    Inv (Sys.start handler fs : Sys Value) where
  permits := rfl
  entries := nofun
  targets := nofun
  timely := by
    intro terminal t ht
    cases ht

theorem moves_permits (h : Moves schema s r q a host permits q') :
    permits + (holds q'.pc).toNat = s.permits + (holds q.pc).toNat := by
  cases h with
  | acquire hpc hfree =>
    rw [hpc]
    simp only [holds, Bool.toNat_true, Bool.toNat_false]
    omega
  | advance hadv =>
    have hg := advance_goes hadv
    rw [hg.held]
    simp only [hg.holds]
  | ask hpc | spawnFailed hpc | spawned hpc =>
    rw [hpc]
    rfl
  | reply hpc =>
    rw [hpc]
    rfl

theorem moves_length (h : Moves schema s r q a host permits q') :
    s.host.managed.length ≤ host.managed.length := by
  cases h with
  | advance hadv => rw [(Host.advance_kept hadv).length]
  | spawned hpc =>
    rw [List.length_append]
    exact Nat.le_add_right _ _
  | _ => exact le_rfl

theorem moves_targets (hI : Inv s) (hq : q ∈ s.requests)
    (h : Moves schema s r q a host permits q') (terminal : ℕ) (ht : target q'.pc = some terminal) :
    terminal < host.managed.length := by
  cases h with
  | advance hadv =>
    rw [(Host.advance_kept hadv).length]
    rcases (advance_goes hadv).targets terminal ht with hold | ⟨e, he, rfl⟩
    · exact hI.targets q hq terminal hold
    · exact hI.entries e he
  | spawned hpc =>
    cases ht
    rw [List.length_append]
    exact Nat.lt_add_one _
  | _ => cases ht

theorem moves_entries (hI : Inv s) (hq : q ∈ s.requests)
    (h : Moves schema s r q a host permits q') : ∀ e ∈ host.terminals,
      e.2 < host.managed.length := by
  intro e he
  have hle := moves_length h
  cases h with
  | advance hadv =>
    have hk := Host.advance_kept hadv
    rw [hk.length]
    rcases hk.entries e he with hold | hpc
    · exact hI.entries e hold
    · exact hI.targets q hq e.2 (by rw [hpc]; rfl)
  | _ => exact lt_of_lt_of_le (hI.entries e he) hle

theorem moves_timely (hI : Inv s) (h : Moves schema s r q a host permits q') : host.Timely := by
  cases h with
  | advance hadv => exact (Host.advance_kept hadv).timely hI.timely
  | spawned hpc => exact indexed_spawn hI.timely fun _ => rfl
  | _ => exact hI.timely

theorem outside_host {a : Action Value} (h : Outside c a host) :
    host.terminals = c.terminals ∧ host.managed.length = c.managed.length ∧
      ∀ terminal, host.running terminal = true → c.running terminal = true := by
  cases h with
  | permission hstep => exact ⟨rfl, rfl, fun _ => id⟩
  | changeFiles fs => exact ⟨rfl, rfl, fun _ => id⟩
  | exit terminal =>
    refine ⟨rfl, Host.length_updateTerminal, fun j hj => Host.running_of_update ?_ hj⟩
    intro t ht
    cases ht
  | terminal hf hs ha =>
    exact ⟨rfl, Host.length_updateTerminal, fun j hj => (Host.running_update hf j).symm.trans hj⟩

theorem outside_running {a : Action Value} (h : Outside c a host)
    (ha : ∀ terminal, a ≠ .exit terminal) (j : ℕ) : host.running j = c.running j := by
  cases h with
  | permission hstep => rfl
  | changeFiles fs => rfl
  | exit terminal => exact absurd rfl (ha terminal)
  | terminal hf hs _ => exact Host.running_update hf j

theorem outside_timely {a : Action Value} (hc : c.Timely) (h : Outside c a host) :
    host.Timely := by
  cases h with
  | permission hstep => exact hc
  | changeFiles fs => exact hc
  | exit terminal =>
    refine hc.update fun t _ hrun => ?_
    cases hrun
  | terminal hf hs _ =>
    refine hc.update fun t ht hrun => ?_
    have hold : t.running = true := hf t ▸ hrun
    exact ⟨hold, hs t ht hold⟩

theorem step_inv (hI : Inv s) (h : s.step schema a = some s') : Inv s' := by
  rcases Sys.step_cases h with ⟨method, params, -, rfl⟩ | ⟨r, q, host, permits, q', hq, hm, rfl⟩ |
    ⟨host, ho, rfl⟩
  · refine ⟨?_, hI.entries, forall_spawn hI.targets nofun, hI.timely⟩
    have hp := hI.permits
    simp only [holding, List.countP_append] at hp ⊢
    exact hp
  · have hqm := List.mem_of_getElem? hq
    refine ⟨?_, moves_entries hI hqm hm, ?_, moves_timely hI hm⟩
    · have hp := hI.permits
      have hmove := moves_permits hm
      have hset := countP_set hq q' fun q => holds q.pc
      simp only [holding] at hp ⊢
      omega
    · refine forall_set (fun p hp terminal ht => ?_) (moves_targets hI hqm hm)
      exact lt_of_lt_of_le (hI.targets p hp terminal ht) (moves_length hm)
  · obtain ⟨hterm, hlen, -⟩ := outside_host ho
    refine ⟨hI.permits, fun e he => ?_, fun p hp terminal ht => ?_, outside_timely hI.timely ho⟩
    · rw [hlen]
      exact hI.entries e (hterm ▸ he)
    · rw [hlen]
      exact hI.targets p hp terminal ht

end Invariant

section Jams
variable {Value : Type} {schema : Schema Value} {s s' : Sys Value} {a : Action Value} {c c' : Host}
  {q : AgentRequest Value} {pc : HandlerPc}

theorem holds_of_waits (h : waits c pc = true) : holds pc = true := by
  obtain ⟨terminal, ht⟩ := target_of_waits h
  cases pc <;> first | rfl | cases ht

/-- All permits are gone to waits exactly when as many handlers wait as there are
permits. -/
theorem Inv.waiting_eq (hI : Inv s) : waiting s = requestPermits ↔
    s.permits = 0 ∧ ∀ q ∈ s.requests, holds q.pc = true → waits s.host q.pc = true := by
  have hall : s.requests.countP (fun q => waits s.host q.pc) =
      s.requests.countP (fun q => holds q.pc) ↔ _ := countP_eq_iff fun q => holds_of_waits
  have hle : waiting s ≤ holding s := List.countP_mono_left fun q _ => holds_of_waits
  have hp := hI.permits
  rw [← hall]
  unfold waiting holding at *
  omega

theorem Inv.waiting_le (hI : Inv s) : waiting s ≤ requestPermits := by
  have hle : waiting s ≤ holding s := List.countP_mono_left fun q _ => holds_of_waits
  have hp := hI.permits
  omega

theorem advance_host (h : c.advance schema q = some (c', pc)) (hw : waits c pc = true) :
    c' = c := by
  have hbusy : ¬ Busy pc := fun hb => by rw [hb.waits] at hw; cases hw
  cases hpc : q.pc <;> simp only [Host.advance, hpc] at h
  case dispatch =>
    obtain rfl : _ = c' := congrArg Prod.fst (Option.some.inj h)
    obtain rfl : _ = pc := congrArg Prod.snd (Option.some.inj h)
    unfold Host.handleAgentRequest at hbusy ⊢
    split at hbusy
    case h_7 => exact absurd (busy_withTerminal fun _ => ⟨rfl, rfl⟩) hbusy
    all_goals rfl
  case writeFile path content =>
    obtain rfl : _ = pc := congrArg Prod.snd (Option.some.inj h)
    exact absurd (busy_writeFile path content) hbusy
  case insertTerminal | takeKill =>
    cases h
    exact absurd (busy_respond _) hbusy
  all_goals
    repeat' split at h
    all_goals
      cases h
      try rfl

theorem waits_congr (h : ∀ terminal, c'.running terminal = c.running terminal) :
    waits c' pc = waits c pc := by
  cases pc <;> first | rfl | exact h _

theorem waits_of_running (h : ∀ terminal, c'.running terminal = true → c.running terminal = true)
    (hw : waits c' pc = true) : waits c pc = true := by
  cases pc <;> first | exact h _ hw | cases hw

theorem ending_of_running (hterm : c'.terminals = c.terminals)
    (h : ∀ terminal, c'.running terminal = true → c.running terminal = true) {method : String}
    {params : Value} (hend : ending schema c' method params = true) :
    ending schema c method params = true := by
  have hat : ∀ terminalId, runningAt c' terminalId = true → runningAt c terminalId = true := by
    intro terminalId hr
    rw [runningAt, hterm] at hr
    obtain ⟨terminal, hl, hrun⟩ := (Option.any_eq_true _ _).mp hr
    exact (Option.any_eq_true _ _).mpr ⟨terminal, hl, h terminal hrun⟩
  unfold ending at hend ⊢
  split at hend
  · exact hat _ hend
  · exact hat _ hend
  · cases hend

theorem delayed_of_set {r : ℕ} {q' : AgentRequest Value} (hq' : queued q'.pc = false)
    (h : Delayed schema { s with requests := s.requests.set r q' }) : Delayed schema s := by
  obtain ⟨p, hp, hqueued, hend⟩ := h
  rcases List.mem_or_eq_of_mem_set hp with hp | rfl
  · exact ⟨p, hp, hqueued, hend⟩
  · rw [hq'] at hqueued
    cases hqueued

theorem delayed_set {r : ℕ} (q' : AgentRequest Value) (hq : s.requests[r]? = some q)
    (hno : queued q.pc = false) (h : Delayed schema s) :
    Delayed schema { s with requests := s.requests.set r q' } := by
  obtain ⟨p, hp, hqueued, hend⟩ := h
  refine ⟨p, mem_set_of_ne hq hp ?_ q', hqueued, hend⟩
  rintro rfl
  rw [hno] at hqueued
  cases hqueued

theorem not_queued_of_holds (h : holds pc = true) : queued pc = false := by
  cases pc <;> first | rfl | cases h

theorem waiting_begin {r : ℕ} (hq : s.requests[r]? = some q) (hd : dispatched q.pc = true)
    (hadv : s.host.advance schema q = some (c', pc)) (hw : waits s.host pc = true) :
    c' = s.host ∧
      waiting { s with requests := s.requests.set r { q with pc := pc } } = waiting s + 1 := by
  have hset := countP_set hq { q with pc := pc } fun q => waits s.host q.pc
  have hno : waits s.host q.pc = false := by
    cases hpc : q.pc <;> rw [hpc] at hd <;> first | rfl | cases hd
  refine ⟨advance_host hadv hw, ?_⟩
  simp only [hw, hno, Bool.toNat_true, Bool.toNat_false, Nat.add_zero] at hset
  exact hset

theorem step_spared (hI : Inv s) (hC : Spared schema s a) (h : s.step schema a = some s')
    (hno : ¬ Jam schema s) : ¬ Jam schema s' := by
  rintro ⟨hfree, hall, hdel⟩
  rcases Sys.step_cases h with ⟨method, params, rfl, rfl⟩ | ⟨r, q, host, permits, q', hq, hm, rfl⟩ |
    ⟨host, ho, rfl⟩
  · have hold : ∀ q ∈ s.requests, holds q.pc = true → waits s.host q.pc = true :=
      fun q hq => hall q (List.mem_append_left _ hq)
    obtain ⟨q, hq, hqueued, hend⟩ := hdel
    rcases List.mem_append.mp hq with hq | hq
    · exact hno ⟨hfree, hold, q, hq, hqueued, hend⟩
    · rw [List.mem_singleton.mp hq] at hend
      have hlt := hC hend
      rw [hI.waiting_eq.mpr ⟨hfree, hold⟩] at hlt
      exact lt_irrefl _ hlt
  · have hmem := mem_of_step hq q'
    have hstuck := hall q' hmem
    cases hm with
    | acquire hpc hpos => cases hstuck rfl
    | ask hpc hstep => cases hstuck rfl
    | spawnFailed hpc => cases hstuck rfl
    | spawned hpc => cases hstuck rfl
    | reply hpc => exact absurd hfree (Nat.succ_ne_zero _)
    | @advance _ pc hadv =>
      have hg := advance_goes hadv
      have hk := Host.advance_kept hadv
      have hw : waits s.host pc = true := waits_congr hk.running ▸ hstuck hg.holds
      obtain rfl := advance_host hadv hw
      have hdel' := delayed_of_set (not_queued_of_holds hg.holds) hdel
      cases hd : dispatched q.pc with
      | true =>
        have hwait := hg.awaits hd
        rw [hw] at hwait
        rcases hC q hq hd hwait.symm with hlt | hnone
        · have hall' := (step_inv hI h).waiting_eq.mpr ⟨hfree, hall⟩
          rw [(waiting_begin hq hd hadv hw).2] at hall'
          omega
        · exact hnone hdel'
      | false =>
        refine hno ⟨hfree, fun p hp hh => ?_, hdel'⟩
        by_cases hpq : p = q
        · rw [hpq]
          exact hg.waited hd hw
        · exact hall p (mem_set_of_ne hq hp hpq _) hh
  · obtain ⟨hterm, -, hrun⟩ := outside_host ho
    obtain ⟨q, hq, hqueued, hend⟩ := hdel
    exact hno ⟨hfree, fun q hq hh => waits_of_running hrun (hall q hq hh), q, hq, hqueued,
      ending_of_running hterm hrun hend⟩

/-- A step that is not spared leads into a jam at once. -/
theorem spared_of_step (hI : Inv s) (h : s.step schema a = some s') (hno : ¬ Jam schema s') :
    Spared schema s a := by
  have hI' := step_inv hI h
  cases a with
  | arrive method params =>
    intro hend
    cases h
    refine lt_of_le_of_ne hI.waiting_le fun heq => hno ?_
    obtain ⟨hfree, hall⟩ := hI.waiting_eq.mp heq
    refine ⟨hfree, forall_spawn hall nofun, ⟨method, params, none, .acquire⟩, ?_, rfl, hend⟩
    exact List.mem_append_right _ (List.mem_singleton_self _)
  | advance r =>
    obtain ⟨q, host, pc, hq, hadv, rfl⟩ := Sys.step_advance h
    intro p hp hd hwait
    cases hq.symm.trans hp
    have hg := advance_goes hadv
    have hw : waits s.host pc = true := (hg.awaits hd).trans hwait
    obtain ⟨rfl, hone⟩ := waiting_begin hq hd hadv hw
    by_contra hboth
    obtain ⟨hmany, hdel⟩ := not_or.mp hboth
    have hle := hI'.waiting_le
    rw [hone] at hle
    obtain ⟨hfree, hall⟩ := hI'.waiting_eq.mp (hone.trans (by omega))
    exact hno ⟨hfree, hall, delayed_set _ hq (not_queued_of_holds hg.held) (not_not.mp hdel)⟩
  | acquire | requestUserPermission | spawn | reply | permission | changeFiles | drain | exit
  | storeExit => trivial

theorem advance_waits (hc : c.Timely) (h : c.advance schema q = some (c', pc))
    (hw : waits c q.pc = true) : waits c pc = true := by
  have hnone : ∀ (terminal : ℕ) (t : ManagedTerminal), c.running terminal = true →
      c.managed[terminal]? = some t → t.exitStatus = none := by
    intro terminal t hrun ht
    rw [Host.running, ht] at hrun
    exact hc terminal t ht hrun
  cases hpc : q.pc <;> rw [hpc] at hw <;> simp only [Host.advance, hpc] at h
  case checkExit terminal =>
    split at h
    · cases h
    · next t ht =>
      rw [hnone terminal t hw ht] at h
      cases h
      exact hw
  case waitExit terminal =>
    split at h
    · cases h
    · next t ht =>
      rw [hnone terminal t hw ht] at h
      cases h
  all_goals cases hw

/-- A jam lasts until some process ends by itself. -/
theorem jam_lasts (hI : Inv s) (hj : Jam schema s) (h : s.step schema a = some s')
    (ha : ∀ terminal, a ≠ .exit terminal) : Jam schema s' := by
  obtain ⟨hfree, hall, hdel⟩ := hj
  rcases Sys.step_cases h with ⟨method, params, rfl, rfl⟩ | ⟨r, q, host, permits, q', hq, hm, rfl⟩ |
    ⟨host, ho, rfl⟩
  · exact ⟨hfree, forall_spawn hall nofun, exists_spawn _ hdel⟩
  · have hstuck := hall q (List.mem_of_getElem? hq)
    cases hm with
    | acquire hpc hpos => exact absurd hfree hpos.ne'
    | ask hpc hstep =>
      rw [hpc] at hstuck
      cases hstuck rfl
    | spawnFailed hpc | spawned hpc | reply hpc =>
      rw [hpc] at hstuck
      cases hstuck rfl
    | advance hadv =>
      have hg := advance_goes hadv
      have hw := advance_waits hI.timely hadv (hstuck hg.held)
      obtain rfl := advance_host hadv hw
      exact ⟨hfree, forall_set hall fun _ => hw,
        delayed_set _ hq (not_queued_of_holds hg.held) hdel⟩
  · have hrun := outside_running ho ha
    obtain ⟨q, hq, hqueued, hend⟩ := hdel
    refine ⟨hfree, fun p hp hh => waits_congr hrun ▸ hall p hp hh, q, hq, hqueued, ?_⟩
    exact ending_of_running (outside_host ho).1.symm (fun j hj => (hrun j).trans hj) hend

end Jams

/-- No run gets into a jam exactly as long as the last permit is kept from the
waits that a queued kill or release would end. -/
theorem jam_free_iff_spared {Value : Type} (schema : Schema Value)
    (handler : Callbacks.CallbackHandler) (fs : Posix.FileSystem) (as : List (Action Value))
    (t : Sys Value) (hr : run (Sys.step schema) (.start handler fs) as = some t) :
    Always (Sys.step schema) (fun s => ¬ Jam schema s) (.start handler fs) as ↔
      Along (Sys.step schema) (Spared schema) (.start handler fs) as := by
  have hD : Along (Sys.step schema) (fun _ _ => True) (.start handler fs) as :=
    along_true _ _
  constructor
  · exact fun hP => along_of_always (fun _ _ _ hI _ => step_inv hI)
      (fun _ _ _ hI _ => spared_of_step hI) inv_start hD hP hr
  · intro hC
    refine always_of_invariant (I := fun s => Inv s ∧ ¬ Jam schema s) (fun s a s' hI hCa h => ?_)
      (fun _ hI => hI.2) ⟨inv_start, fun hjam => ?_⟩ hC
    · exact ⟨step_inv hI.1 h, step_spared hI.1 hCa h hI.2⟩
    · exact absurd hjam.1 (Nat.succ_ne_zero 15)

def approvingHandler : Callbacks.CallbackHandler := ⟨.autoApprove, ⟨true, [.name "proj"]⟩⟩

/-- A terminal that sleeps, and `n` requests that wait for it. -/
def sleepAndWait (n : ℕ) : List (Action ClientRequest) :=
  [.arrive "terminal/create" (.createTerminal ⟨"sleep", ["60"], [], none⟩), .acquire 0, .advance 0,
    .advance 0, .spawn 0 (.ok "t"), .advance 0, .reply 0] ++
  (List.range n).flatMap fun i =>
    [.arrive "terminal/wait_for_exit" (.waitForTerminalExit "t"), .acquire (i + 1),
      .advance (i + 1), .advance (i + 1)]

def killed : Action ClientRequest := .arrive "terminal/kill" (.killTerminal "t")

theorem jam_free_iff_spared_killed :
    Always (Sys.step plainSchema) (fun s => ¬ Jam plainSchema s)
      (.start approvingHandler projectFiles) (sleepAndWait 1 ++ [killed, .acquire 2, .advance 2]) := by
  obtain ⟨t, hr, -⟩ : ∃ t, run (Sys.step plainSchema) (.start approvingHandler projectFiles)
      (sleepAndWait 1 ++ [killed, .acquire 2, .advance 2]) = some t ∧ True :=
    exists_run _ (by decide +kernel)
  exact (jam_free_iff_spared plainSchema approvingHandler projectFiles _ t hr).mpr
    (by decide +kernel)

theorem waited_out :
    ∃ t, run (Sys.step plainSchema) (.start approvingHandler projectFiles)
        (sleepAndWait 16 ++ [killed]) = some t ∧ Jam plainSchema t := exists_run _ (by decide +kernel)

end Ccgonext.Permits
