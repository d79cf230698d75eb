import Ccgonext.Client
import Ccgonext.Policies

/-!
# What outlives a client

`AcpClient::shutdown` beside the tasks that `reader_task` has spawned for requests of
the agent. It calls `CallbackHandler::shutdown` first, which denies what the user was
asked, drains the map of terminals and sends each its kill, and goes on with the
client's own tasks. The handlers are in tasks of their own that nobody aborts, so one
may write or spawn after all that. A session takes its client out before it shuts it
down, so there is one call of `shutdown`; the reader takes in requests until it ends.
-/

namespace Ccgonext.Orphans
open Lib Lib.Runs Lib.Pool Posix Callbacks AgentRequests
open CallbackHandler (mayWrite)

inductive CallbacksPc
  | cancelAllPending
  | drain
  | kill (terminals : List ℕ)
  | done
  deriving DecidableEq, Repr

structure System (Value : Type) where
  client : Client.Sys Value
  agent : AgentRequests.Sys Value
  closing : CallbacksPc

def System.start {Value : Type} (agent : String) (handler : CallbackHandler) (fs : FileSystem) :
    System Value :=
  ⟨.new agent, .start handler fs, .cancelAllPending⟩

inductive Act (Value : Type)
  | client (a : Client.Action Value)
  | agent (a : AgentRequests.Action Value)
  | callbacks (order : List ℕ)

/-- `order` is the order in which the map gives its terminals out. -/
def closeCallbacks (c : Host) (order : List ℕ) : CallbacksPc → Option (Host × CallbacksPc)
  | .cancelAllPending =>
    (c.perms.step .cancelAllPending).map fun perms => ({ c with perms := perms }, .drain)
  | .drain =>
    if order.Perm (c.terminals.map Prod.snd) then some ({ c with terminals := [] }, .kill order)
    else none
  | .kill [] => some (c, .done)
  | .kill (terminal :: terminals) => some (c.updateTerminal terminal .kill, .kill terminals)
  | .done => none

section Steps
variable {Value : Type}

def mayStep (s : System Value) : Client.Action Value → Bool
  | .shutdown => s.client.shutdowns = []
  | .shutdownStep k => s.client.shutdowns[k]? ≠ some .callbacks || s.closing = .done
  | _ => true

def arrives : AgentRequests.Action Value → Bool
  | .arrive .. => true
  | _ => false

def System.step (null : Value) (schema : Schema Value) (s : System Value) :
    Act Value → Option (System Value)
  | .client a =>
    if mayStep s a then (s.client.step null a).map fun client => { s with client := client }
    else none
  | .agent a =>
    if arrives a = true ∧ s.client.client.reader ≠ .reading then none
    else (s.agent.step schema a).map fun agent => { s with agent := agent }
  | .callbacks order =>
    if s.client.shutdowns = [.callbacks] then
      (closeCallbacks s.agent.host order s.closing).map fun p =>
        { s with agent := { s.agent with host := p.1 }, closing := p.2 }
    else none

def Returned (s : System Value) : Prop := .returned ∈ s.client.shutdowns

def settled (c : Host) (terminal : ℕ) : Bool :=
  c.managed[terminal]?.all fun t => t.killSent || !t.running

def acts : ClientRequest → Bool
  | .writeTextFile .. | .createTerminal _ => true
  | _ => false

def actsFor : Purpose → Bool
  | .answer _ => false
  | .write .. | .create _ => true

def bound (schema : Schema Value) (c : Host) (q : AgentRequest Value) : Bool :=
  match q.pc with
  | .acquire | .dispatch => mayWrite c.handler.policy && (q.decoded schema).toOption.any acts
  | .requestUserPermission purpose => actsFor purpose
  | .awaitPermission purpose call => actsFor purpose && !c.perms.denied call
  | .writeFile .. | .resolveCwd _ | .spawn .. => true
  | _ => false

def inserting : HandlerPc → Option (String × ℕ)
  | .insertTerminal terminal terminalId => some (terminalId, terminal)
  | _ => none

def killing : HandlerPc → Option ℕ
  | .takeKill terminal _ => some terminal
  | _ => none

/-- Uuids differ: no terminal in the map has the new one's. -/
def Fresh (s : System Value) : Act Value → Prop
  | .agent (.advance r) => ∀ q ∈ s.agent.requests[r]?, ∀ new ∈ inserting q.pc,
    ∀ e ∈ s.agent.host.terminals, e.1 ≠ new.1
  | _ => True

/-- No handler spawns after the drain of the map or stands between its spawn and the
map at the drain, and at its return none is on its way to write or spawn, or to kill a
terminal that it has taken out of the map. -/
def Spares (schema : Schema Value) (s : System Value) : Act Value → Prop
  | .agent (.spawn _ (.ok _)) => s.closing = .cancelAllPending ∨ s.closing = .drain
  | .callbacks _ => s.closing = .drain → ∀ q ∈ s.agent.requests, ∀ new ∈ inserting q.pc,
    settled s.agent.host new.2 = true
  | .client (.shutdownStep k) => s.client.shutdowns[k]? = some .failPending →
    ∀ q ∈ s.agent.requests, bound schema s.agent.host q = false ∧
      ∀ terminal ∈ killing q.pc, settled s.agent.host terminal = true
  | _ => True

instance decidableFresh (s : System Value) : ∀ a, Decidable (Fresh s a)
  | .agent (.advance r) => inferInstanceAs (Decidable (∀ q ∈ s.agent.requests[r]?, _))
  | .agent (.arrive _ _) | .agent (.acquire _) | .agent (.requestUserPermission _ _)
  | .agent (.spawn _ _) | .agent (.reply _) | .agent (.permission _) | .agent (.changeFiles _)
  | .agent (.drain _ _ _) | .agent (.exit _) | .agent (.storeExit _ _) | .client _
  | .callbacks _ => .isTrue trivial

instance decidableSpares (schema : Schema Value) (s : System Value) :
    ∀ a, Decidable (Spares schema s a)
  | .agent (.spawn _ (.ok _)) => inferInstanceAs (Decidable (_ ∨ _))
  | .callbacks _ => inferInstanceAs (Decidable (_ → ∀ q ∈ s.agent.requests, _))
  | .client (.shutdownStep _) => inferInstanceAs (Decidable (_ → ∀ q ∈ s.agent.requests, _ ∧ _))
  | .agent (.spawn _ (.error _)) | .agent (.advance _) | .agent (.arrive _ _)
  | .agent (.acquire _) | .agent (.requestUserPermission _ _) | .agent (.reply _)
  | .agent (.permission _) | .agent (.changeFiles _) | .agent (.drain _ _ _) | .agent (.exit _)
  | .agent (.storeExit _ _) | .client .call | .client (.callStep _ _) | .client (.dropCall _)
  | .client (.post _) | .client (.line _) | .client .readerStep | .client (.writerStep _)
  | .client (.waitStep _) | .client .stderrEnds | .client (.cancel _) | .client .terminate
  | .client (.terminateStep _) | .client .shutdown | .client (.dropShutdown _) => .isTrue trivial

def Settles (s : System Value) : Prop :=
  Returned s → ∀ t ∈ s.agent.host.managed, t.killSent = true ∨ t.running = false

instance (s : System Value) : Decidable (Returned s) := inferInstanceAs (Decidable (_ ∈ _))

instance (s : System Value) : Decidable (Settles s) :=
  inferInstanceAs (Decidable (_ → ∀ t ∈ s.agent.host.managed, _ ∨ _))

end Steps

section Client
variable {Value : Type} {null : Value} {c c' : Client.AcpClient Value}

def Leaves (c c' : Client.AcpClient Value) : Prop :=
  c'.handles = c.handles ∧ c'.reader = c.reader

theorem post_leaves {msg : Client.WriterMsg} (h : c.post msg = some c') : Leaves c c' := by
  simp only [Client.AcpClient.post] at h
  split at h <;> cases h
  exact ⟨rfl, rfl⟩

theorem writerStep_leaves {written : Bool} (h : c.writerStep written = some c') :
    Leaves c c' := by
  simp only [Client.AcpClient.writerStep] at h
  repeat' split at h
  all_goals
    cases h
    try exact ⟨rfl, rfl⟩

theorem waitStep_leaves {exited : Bool} (h : c.waitStep exited = some c') : Leaves c c' := by
  simp only [Client.AcpClient.waitStep] at h
  split at h <;> cases h <;> exact ⟨rfl, rfl⟩

theorem terminateStep_leaves {pc pc' : Client.TerminatePc}
    (h : Client.terminateStep c pc = some (c', pc')) : Leaves c c' := by
  cases pc <;> cases h <;> exact ⟨rfl, rfl⟩

theorem callStep_leaves {i : ℕ} {q q' : Client.RequestCall Value} {line : Except String String}
    (h : Client.callStep i c q line = some (c', q')) : Leaves c c' := by
  obtain ⟨id, pc⟩ := q
  cases pc <;> cases id <;> simp only [Client.callStep] at h
  case sendLine.none | sendLine.some =>
    split at h
    · obtain ⟨d, hp, hd⟩ := Option.map_eq_some_iff.mp h
      cases hd
      exact post_leaves hp
    · cases h
      exact ⟨rfl, rfl⟩
  all_goals
    repeat' split at h
    all_goals
      cases h
      try exact ⟨rfl, rfl⟩

theorem readerStep_leaves (h : c.readerStep = some c') :
    c'.handles = c.handles ∧ c.finished .reader = false := by
  cases hr : c.reader <;> simp only [Client.AcpClient.readerStep, hr] at h <;> cases h <;>
    exact ⟨rfl, by simp [Client.AcpClient.finished, hr]⟩

theorem finished_of_leaves (h : Leaves c c') (hf : c.finished .reader = true) :
    c'.finished .reader = true := by
  simp only [Client.AcpClient.finished, h.2] at hf ⊢
  exact hf

end Client

section Shutdown
variable {Value : Type} {null : Value} {c c' : Client.Sys Value}

inductive Effect (c : Client.Sys Value) : Client.Action Value → Client.Sys Value → Prop
  | beside (a : Client.Action Value) {c' : Client.Sys Value}
    (hshutdowns : c'.shutdowns = c.shutdowns)
    (hhandles : c'.client.handles = c.client.handles)
    (hreader : c.client.finished .reader = true → c'.client.finished .reader = true) : Effect c a c'
  | begins : Effect c .shutdown { c with shutdowns := c.shutdowns ++ [.callbacks] }
  | goesOn {k : ℕ} {pc pc' : Client.ShutdownPc} {client : Client.AcpClient Value}
    (hk : c.shutdowns[k]? = some pc)
    (hs : Client.shutdownStep c.client pc = some (client, pc')) :
    Effect c (.shutdownStep k) { c with client := client, shutdowns := c.shutdowns.set k pc' }
  | dropped {k : ℕ} {pc : Client.ShutdownPc} (hk : c.shutdowns[k]? = some pc) :
    Effect c (.dropShutdown k) { c with shutdowns := c.shutdowns.set k .dropped }

theorem Effect.leaves {a : Client.Action Value} (hshutdowns : c'.shutdowns = c.shutdowns)
    (h : Leaves c.client c'.client) : Effect c a c' :=
  .beside a hshutdowns h.1 (finished_of_leaves h)

theorem taskStep_effect {a : Client.Action Value} {client : Client.AcpClient Value}
    (h : Client.TaskStep c.client a client) : Effect c a { c with client := client } := by
  cases h with
  | post hpost => exact .leaves rfl (post_leaves hpost)
  | reader hs =>
    obtain ⟨hhandles, hreading⟩ := readerStep_leaves hs
    refine .beside _ rfl hhandles fun hf => ?_
    rw [hreading] at hf
    cases hf
  | writer hs => exact .leaves rfl (writerStep_leaves hs)
  | wait hs => exact .leaves rfl (waitStep_leaves hs)
  | stderrEnds => exact .leaves rfl ⟨rfl, rfl⟩
  | @cancel task =>
    cases task
    case reader => exact .beside _ rfl rfl fun _ => rfl
    all_goals exact .leaves rfl ⟨rfl, rfl⟩

theorem client_effect {a : Client.Action Value} (h : c.step null a = some c') : Effect c a c' := by
  cases Client.step_takes h with
  | task htask => exact taskStep_effect htask
  | call | dropCall | terminate => exact .leaves rfl ⟨rfl, rfl⟩
  | callStep _ hs => exact .leaves rfl (callStep_leaves hs)
  | line l =>
    refine .leaves rfl ?_
    simp only [Client.Sys.handle]
    split <;> exact ⟨rfl, rfl⟩
  | terminateStep _ hs => exact .leaves rfl (terminateStep_leaves hs)
  | shutdown => exact .begins
  | shutdownStep hk hs => exact .goesOn hk hs
  | dropShutdown hk => exact .dropped hk

/-- The call has the reader's handle to take or has it, and past its wait for the
reader the reader is through. -/
def Secured (c : Client.AcpClient Value) : Client.ShutdownPc → Prop
  | .callbacks | .store | .trySend | .kill | .waitKill | .takeHandle .writer _
  | .takeHandle .reader _ => .reader ∈ c.handles
  | .takeHandle .stderr taken | .takeHandle .wait taken | .abort taken | .join .wait taken
  | .killAgain taken | .waitKillAgain taken | .join .writer taken | .join .reader taken =>
    .reader ∈ taken
  | .join .stderr _ | .failPending | .returned => c.finished .reader = true
  | .dropped => True

theorem secured_step {client client' : Client.AcpClient Value} {pc pc' : Client.ShutdownPc}
    (h : Client.shutdownStep client pc = some (client', pc')) (hsecured : Secured client pc) :
    Secured client' pc' := by
  cases pc <;> simp only [Client.shutdownStep] at h
  case trySend =>
    cases h
    cases hp : client.post .shutdown with
    | none => exact hsecured
    | some d =>
      have hin : Client.TaskName.reader ∈ client.handles := hsecured
      rw [← (post_leaves hp).1] at hin
      exact hin
  case kill =>
    cases h
    split <;> exact hsecured
  case takeHandle task taken =>
    cases h
    cases task
    case writer => exact (List.mem_erase_of_ne (by decide)).mpr hsecured
    case reader =>
      have hin : Client.TaskName.reader ∈ client.handles := hsecured
      simp only [if_pos hin]
      exact List.mem_append_right _ (List.mem_singleton_self _)
    case stderr | wait =>
      have hin : Client.TaskName.reader ∈ taken := hsecured
      simp only [Client.ShutdownPc.afterTake]
      split
      · exact List.mem_append_left _ hin
      · exact hin
  case abort taken =>
    cases h
    exact hsecured
  case join task taken =>
    split at h <;> cases h
    next hjoined =>
      cases task
      case reader => exact hjoined.resolve_left fun hno => hno hsecured
      all_goals exact hsecured
  case killAgain taken =>
    cases h
    split <;> exact hsecured
  case returned | dropped => cases h
  all_goals
    cases h
    exact hsecured

theorem Secured.mono {client client' : Client.AcpClient Value} {pc : Client.ShutdownPc}
    (h : Secured client pc) (hhandles : client'.handles = client.handles)
    (hreader : client.finished .reader = true → client'.finished .reader = true) :
    Secured client' pc := by
  unfold Secured at h ⊢
  split at h
  all_goals first
    | exact hhandles ▸ h
    | exact hreader h
    | exact h

end Shutdown

section Handlers
variable {Value : Type} {schema : Schema Value} {s s' : AgentRequests.Sys Value}
  {a : AgentRequests.Action Value} {c c' : Host} {q q' : AgentRequest Value} {pc : HandlerPc}
  {policy : CallbackPolicy} {r terminal : ℕ}

def Loose (c : Host) (terminal : ℕ) : Prop :=
  ∃ t, c.managed[terminal]? = some t ∧ t.running = true ∧ t.killSent = false

theorem loose_iff : Loose c terminal ↔ settled c terminal = false := by
  unfold Loose settled
  cases c.managed[terminal]? with
  | none => simp
  | some t => simp [and_comm]

theorem Loose.of_update {f : ManagedTerminal → ManagedTerminal} {j : ℕ}
    (hf : ∀ t, (f t).running = true → (f t).killSent = false →
      t.running = true ∧ t.killSent = false)
    (h : Loose (c.updateTerminal j f) terminal) : Loose c terminal := by
  obtain ⟨t, ht, hrun, hkill⟩ := h
  obtain ⟨u, hu, ⟨-, rfl⟩ | ⟨-, rfl⟩⟩ := Host.managed_update ht
  · exact ⟨u, hu, hf u hrun hkill⟩
  · exact ⟨t, hu, hrun, hkill⟩

def Killable (c : Host) : Prop := ∀ t ∈ c.managed, t.killTx = true ∨ t.killSent = true

theorem Killable.update (h : Killable c) {f : ManagedTerminal → ManagedTerminal}
    (hf : ∀ t, t.killTx = true ∨ t.killSent = true →
      (f t).killTx = true ∨ (f t).killSent = true) : Killable (c.updateTerminal terminal f) := by
  intro t ht
  obtain ⟨j, hj⟩ := List.mem_iff_getElem?.mp ht
  obtain ⟨u, hu, ⟨-, rfl⟩ | ⟨-, rfl⟩⟩ := Host.managed_update hj
  · exact hf u (h u (List.mem_of_getElem? hu))
  · exact h t (List.mem_of_getElem? hu)

theorem kill_killable {t : ManagedTerminal} (h : t.killTx = true ∨ t.killSent = true) :
    t.kill.killSent = true := by
  unfold ManagedTerminal.kill
  split
  · rfl
  · next hno => exact h.resolve_left hno

theorem Loose.of_kill (hk : Killable c) {j : ℕ} (h : Loose (c.updateTerminal j .kill) terminal) :
    Loose c terminal ∧ terminal ≠ j := by
  refine ⟨h.of_update fun t hrun hkill => ?_, ?_⟩
  · rw [ManagedTerminal.running_kill] at hrun
    refine ⟨hrun, ?_⟩
    unfold ManagedTerminal.kill at hkill
    split at hkill
    · cases hkill
    · exact hkill
  · rintro rfl
    obtain ⟨t, ht, -, hkill⟩ := h
    obtain ⟨u, hu, ⟨-, rfl⟩ | ⟨hne, -⟩⟩ := Host.managed_update ht
    · rw [kill_killable (hk u (List.mem_of_getElem? hu))] at hkill
      cases hkill
    · exact hne rfl

inductive Handles (schema : Schema Value) (c : Host) (q : AgentRequest Value) :
    Host → HandlerPc → Prop
  | beside {c' : Host} {pc : HandlerPc} (hmanaged : c'.managed = c.managed)
    (hterminals : c'.terminals = c.terminals) (hq : inserting q.pc = none ∧ killing q.pc = none) :
    Handles schema c q c' pc
  | inserts {terminal : ℕ} {terminalId : String} (hq : q.pc = .insertTerminal terminal terminalId) :
    Handles schema c q (c.insertTerminal terminal terminalId) (.respond (.ok (.created terminalId)))
  | kills {terminal : ℕ} {response : Response} (hq : q.pc = .takeKill terminal response) :
    Handles schema c q (c.updateTerminal terminal .kill) (.respond (.ok response))
  | releases (terminalId : String) (hq : q.pc = .dispatch) :
    Handles schema c q
      { c with terminals := c.terminals.filter fun e => e.1 ≠ terminalId }
      (c.withTerminal schema terminalId fun terminal => .takeKill terminal .released)

theorem advance_handles (h : c.advance schema q = some (c', pc)) : Handles schema c q c' pc := by
  cases hpc : q.pc <;> simp only [Host.advance, hpc] at h
  case dispatch =>
    have hq : inserting q.pc = none ∧ killing q.pc = none := by simp [hpc, inserting, killing]
    simp only [Host.handleAgentRequest, Host.handleReleaseTerminal, Option.some.injEq] at h
    split at h
    case h_7 =>
      cases h
      exact .releases _ hpc
    all_goals
      cases h
      exact .beside rfl rfl hq
  case writeFile path content =>
    have hq : inserting q.pc = none ∧ killing q.pc = none := by simp [hpc, inserting, killing]
    simp only [Host.writeFile] at h
    split at h <;> cases h <;> exact .beside rfl rfl hq
  case insertTerminal terminal terminalId =>
    cases h
    exact .inserts hpc
  case takeKill terminal response =>
    cases h
    exact .kills hpc
  all_goals
    repeat' split at h
    all_goals
      cases h
      try exact .beside rfl rfl (by simp [hpc, inserting, killing])

/-- The step is a spawn that goes well, or does to the terminals what `Handles` says. -/
theorem moves_handles {sys : AgentRequests.Sys Value} {host : Host} {permits : ℕ}
    (h : Moves schema sys r q a host permits q') :
    Handles schema sys.host q host q'.pc ∨
    ∃ terminalId, a = .spawn r (.ok terminalId) ∧
      host = { sys.host with managed := sys.host.managed ++ [.spawned] } ∧
      q'.pc = .insertTerminal sys.host.managed.length terminalId ∧
      inserting q.pc = none ∧ killing q.pc = none := by
  cases h with
  | acquire hpc => exact .inl (.beside rfl rfl (by simp [hpc, inserting, killing]))
  | advance h => exact .inl (advance_handles h)
  | ask hpc => exact .inl (.beside rfl rfl (by simp [hpc, inserting, killing]))
  | spawnFailed hpc => exact .inl (.beside rfl rfl (by simp [hpc, inserting, killing]))
  | spawned hpc => exact .inr ⟨_, rfl, rfl, rfl, by simp [hpc, inserting, killing]⟩
  | reply hpc => exact .inl (.beside rfl rfl (by simp [hpc, inserting, killing]))

def Mapped (c : Host) (terminal : ℕ) : Prop := ∃ terminalId, (terminalId, terminal) ∈ c.terminals

def Keyed (c : Host) : Prop := (c.terminals.map Prod.fst).Nodup

theorem Keyed.lookup (h : Keyed c) {terminalId : String}
    (hm : (terminalId, terminal) ∈ c.terminals) : c.terminals.lookup terminalId = some terminal :=
  Pending.lookup_of_mem (p := ⟨c.terminals, ([] : List (Option ℕ))⟩)
    (fun _ hi => congrArg Prod.snd (List.inj_on_of_nodup_map h hi hm rfl)) hm

theorem withTerminal_mapped (h : Keyed c) {terminalId : String}
    (hm : (terminalId, terminal) ∈ c.terminals) (next : ℕ → HandlerPc) :
    c.withTerminal schema terminalId next = next terminal := by
  simp only [Host.withTerminal, Host.getTerminal, h.lookup hm]

theorem Handles.keyed (h : Handles schema c q c' pc) (hk : Keyed c) : Keyed c' := by
  cases h with
  | beside hmanaged hterminals => rwa [Keyed, hterminals]
  | @inserts terminal terminalId =>
    refine List.nodup_cons.mpr ⟨?_, hk.sublist (List.filter_sublist.map _)⟩
    intro hm
    obtain ⟨e, he, hid⟩ := List.mem_map.mp hm
    exact of_decide_eq_true (List.mem_filter.mp he).2 hid
  | kills => exact hk
  | releases terminalId => exact hk.sublist (List.filter_sublist.map _)

theorem Handles.killable (h : Handles schema c q c' pc) (hk : Killable c) : Killable c' := by
  cases h with
  | beside hmanaged => rwa [Killable, hmanaged]
  | inserts => exact hk.update fun _ h => h
  | kills => exact hk.update fun t ht => .inr (kill_killable ht)
  | releases => exact hk

structure Tracks (c : Host) (q : AgentRequest Value) (c' : Host) (pc : HandlerPc)
    (terminal : ℕ) : Prop where
  loose : Loose c terminal
  mapped : Mapped c terminal → Mapped c' terminal ∨ killing pc = some terminal
  inserted : ∀ terminalId, inserting q.pc = some (terminalId, terminal) → Mapped c' terminal
  killed : killing q.pc ≠ some terminal

theorem Handles.tracks (h : Handles schema c q c' pc) (hkeyed : Keyed c) (hkillable : Killable c)
    (hfresh : ∀ new ∈ inserting q.pc, ∀ e ∈ c.terminals, e.1 ≠ new.1)
    (hloose : Loose c' terminal) : Tracks c q c' pc terminal := by
  cases h with
  | beside hmanaged hterminals hq =>
    refine ⟨?_, fun hm => .inl ?_, ?_, ?_⟩
    · rwa [Loose, hmanaged] at hloose
    · rwa [Mapped, hterminals]
    · intro terminalId hin
      rw [hq.1] at hin
      cases hin
    · rw [hq.2]
      exact nofun
  | @inserts new newId hq =>
    refine ⟨Loose.of_update (f := fun t => { t with supervised := true })
      (fun t hrun hkill => ⟨hrun, hkill⟩) hloose, ?_, ?_, ?_⟩
    · rintro ⟨terminalId, hm⟩
      have hne := hfresh (newId, new) (by rw [hq]; rfl) _ hm
      refine .inl ⟨terminalId, List.mem_cons_of_mem _ ?_⟩
      exact List.mem_filter.mpr ⟨hm, decide_eq_true hne⟩
    · intro terminalId hin
      rw [hq] at hin
      cases hin
      exact ⟨newId, List.mem_cons_self⟩
    · rw [hq]
      exact nofun
  | @kills victim response hq =>
    obtain ⟨hold, hne⟩ := Loose.of_kill hkillable hloose
    refine ⟨hold, .inl, ?_, ?_⟩
    · intro terminalId hin
      rw [hq] at hin
      cases hin
    · intro hkilled
      rw [hq] at hkilled
      exact hne (Option.some.inj hkilled).symm
  | releases released hq =>
    refine ⟨hloose, ?_, ?_, ?_⟩
    · rintro ⟨terminalId, hm⟩
      by_cases hid : terminalId = released
      · subst hid
        rw [withTerminal_mapped hkeyed hm]
        exact .inr rfl
      · exact .inl ⟨terminalId, List.mem_filter.mpr ⟨hm, decide_eq_true hid⟩⟩
    · intro terminalId hin
      rw [hq] at hin
      cases hin
    · rw [hq]
      exact nofun

end Handlers

section Bound
variable {Value : Type} {schema : Schema Value} {c c' : Host} {q : AgentRequest Value}
  {pc : HandlerPc} {purpose : Purpose}

theorem withWritePermission_bound
    (h : mayWrite c.handler.policy = true → actsFor purpose = false) :
    bound schema c { q with pc := c.withWritePermission schema purpose } = false := by
  unfold Host.withWritePermission
  cases hp : c.handler.policy with
  | denyAll | readOnly => rfl
  | ask | autoApprove =>
    have hno := h (by rw [hp]; rfl)
    cases purpose with
    | answer req => rfl
    | write path content => cases hno
    | create req => cases hno

theorem withTerminal_bound {terminalId : String} {next : ℕ → HandlerPc}
    (hnext : ∀ terminal, bound schema c { q with pc := next terminal } = false) :
    bound schema c { q with pc := c.withTerminal schema terminalId next } = false := by
  unfold Host.withTerminal
  split
  · rfl
  · exact hnext _

theorem handleAgentRequest_bound (hpc : q.pc = .dispatch) (hb : bound schema c q = false) :
    bound schema c { q with pc := (c.handleAgentRequest schema q.method q.params).2 } = false := by
  unfold Host.handleAgentRequest
  cases hd : decode schema q.method q.params with
  | error e => rfl
  | ok request =>
    have hno : mayWrite c.handler.policy = true → acts request = false := by
      intro hmay
      simpa [bound, hpc, hmay, AgentRequest.decoded, hd, Except.toOption] using hb
    cases request with
    | requestPermission req =>
      simp only [Host.handleRequestPermission]
      split <;> rfl
    | readTextFile path =>
      simp only [Host.handleReadFile]
      repeat' split
      all_goals rfl
    | writeTextFile path content =>
      simp only [Host.handleWriteFile]
      split
      · rfl
      · exact withWritePermission_bound hno
    | createTerminal req => exact withWritePermission_bound hno
    | terminalOutput id => exact withTerminal_bound fun _ => rfl
    | releaseTerminal id => exact withTerminal_bound fun _ => rfl
    | waitForTerminalExit id => exact withTerminal_bound fun _ => rfl
    | killTerminal id => exact withTerminal_bound fun _ => rfl

theorem advance_bound (hperms : Permissions.Inv c.perms)
    (h : c.advance schema q = some (c', pc)) (hb : bound schema c q = false) :
    bound schema c { q with pc := pc } = false := by
  cases hpc : q.pc <;> simp only [Host.advance, hpc] at h
  case dispatch =>
    obtain rfl : _ = pc := congrArg Prod.snd (Option.some.inj h)
    exact handleAgentRequest_bound hpc hb
  case awaitPermission purpose call =>
    simp only [bound, hpc] at hb
    split at h
    · cases h
    · next asked hasked =>
      split at h
      · next hgranted =>
        -- a granted call has not been denied, so the purpose was to answer
        rw [hperms.not_denied hasked hgranted, Bool.not_false, Bool.and_true] at hb
        cases h
        cases purpose with
        | answer req => rfl
        | write path content => cases hb
        | create req => cases hb
      · cases h
        cases purpose <;> rfl
      · cases h
  case readFile path =>
    cases h
    simp only [Host.readFile]
    repeat' split
    all_goals rfl
  case writeFile path content =>
    simp only [bound, hpc] at hb
    cases hb
  case resolveCwd req =>
    simp only [bound, hpc] at hb
    cases hb
  all_goals
    repeat' split at h
    all_goals
      cases h
      try rfl

theorem bound_mono (hhandler : c'.handler = c.handler)
    (hdenied : ∀ call, c.perms.denied call = true → c'.perms.denied call = true)
    (hb : bound schema c q = false) : bound schema c' q = false := by
  cases hpc : q.pc <;> simp only [bound, hpc, hhandler] at hb ⊢
  case awaitPermission purpose call =>
    cases hd : c.perms.denied call with
    | true => rw [hdenied call hd, Bool.not_true, Bool.and_false]
    | false =>
      rw [hd, Bool.not_false, Bool.and_true] at hb
      rw [hb, Bool.false_and]
  all_goals exact hb

theorem performs_bound (h : Policies.performs q.pc = some purpose) :
    bound schema c q = true := by
  cases hpc : q.pc <;> simp only [bound, hpc] <;> rw [hpc] at h <;> cases h

end Bound

section Agent
variable {Value : Type} {schema : Schema Value} {s s' : AgentRequests.Sys Value}
  {a : AgentRequests.Action Value} {q : AgentRequest Value} {terminal : ℕ}

structure Idle (s s' : AgentRequests.Sys Value) : Prop where
  requests : s'.requests = s.requests
  handler : s'.host.handler = s.host.handler
  terminals : s'.host.terminals = s.host.terminals
  killable : Killable s.host → Killable s'.host
  loose : ∀ terminal, Loose s'.host terminal → Loose s.host terminal
  perms : s'.host.perms = s.host.perms ∨ ∃ b, s.host.perms.step b = some s'.host.perms

theorem Idle.update {f : ManagedTerminal → ManagedTerminal}
    (hf : ∀ t, (f t).killTx = t.killTx ∧ (f t).killSent = t.killSent ∧
      ((f t).running = true → t.running = true)) :
    Idle s { s with host := s.host.updateTerminal terminal f } where
  requests := rfl
  handler := rfl
  terminals := rfl
  killable hk := hk.update fun t ht => by rwa [(hf t).1, (hf t).2.1]
  loose _ := Loose.of_update fun t hrun hkill => ⟨(hf t).2.2 hrun, (hf t).2.1 ▸ hkill⟩
  perms := .inl rfl

theorem step_idle (ha : a.byHandler = false) (h : s.step schema a = some s') : Idle s s' := by
  cases a with
  | arrive | acquire | advance | requestUserPermission | spawn | reply => cases ha
  | permission action =>
    simp only [AgentRequests.Sys.step] at h
    split at h
    · cases h
    all_goals
      split at h
      · cases h
      · next perms hstep =>
        cases h
        exact ⟨rfl, rfl, rfl, id, fun _ => id, .inr ⟨_, hstep⟩⟩
  | changeFiles fs =>
    cases h
    exact ⟨rfl, rfl, rfl, id, fun _ => id, .inl rfl⟩
  | drain terminal output truncated =>
    simp only [AgentRequests.Sys.step] at h
    split at h
    · cases h
    · split at h <;> cases h
      exact .update fun t => ⟨rfl, rfl, id⟩
  | exit terminal =>
    simp only [AgentRequests.Sys.step] at h
    split at h
    · cases h
    · split at h <;> cases h
      exact .update fun t => ⟨rfl, rfl, by simp⟩
  | storeExit terminal exitStatus =>
    simp only [AgentRequests.Sys.step] at h
    split at h
    · cases h
    · split at h <;> cases h
      exact .update fun t => ⟨rfl, rfl, id⟩

def Inserted (s : AgentRequests.Sys Value) (terminal : ℕ) : Prop :=
  Mapped s.host terminal ∨
    ∃ q ∈ s.requests, ∃ terminalId, inserting q.pc = some (terminalId, terminal)

def Doomed (s : AgentRequests.Sys Value) (terminal : ℕ) : Prop :=
  ∃ q ∈ s.requests, killing q.pc = some terminal

theorem Tracks.inserted_set {r permits : ℕ} {q' : AgentRequest Value} {host : Host}
    (h : Tracks s.host q host q'.pc terminal) (hq : s.requests[r]? = some q)
    (hi : Inserted s terminal) :
    Inserted ⟨host, permits, s.requests.set r q'⟩ terminal ∨
      Doomed ⟨host, permits, s.requests.set r q'⟩ terminal := by
  rcases hi with hm | hother
  · rcases h.mapped hm with hm | hkilling
    · exact .inl (.inl hm)
    · exact .inr ⟨q', mem_of_step hq q', hkilling⟩
  · rcases exists_set hq q' hother with hother | ⟨terminalId, hown⟩
    · exact .inl (.inr hother)
    · exact .inl (.inl (h.inserted terminalId hown))

theorem Tracks.doomed_set {r permits : ℕ} {q' : AgentRequest Value} {host : Host}
    (h : Tracks s.host q host q'.pc terminal) (hq : s.requests[r]? = some q)
    (hd : Doomed s terminal) : Doomed ⟨host, permits, s.requests.set r q'⟩ terminal :=
  (exists_set hq q' hd).resolve_right h.killed

theorem step_tracks (hkeyed : Keyed s.host) (hkillable : Killable s.host)
    (hfresh : ∀ r, a = .advance r → ∀ q ∈ s.requests[r]?, ∀ new ∈ inserting q.pc,
      ∀ e ∈ s.host.terminals, e.1 ≠ new.1)
    (h : s.step schema a = some s') (hloose : Loose s'.host terminal) :
    ((∃ r terminalId, a = .spawn r (.ok terminalId)) ∧ Inserted s' terminal) ∨
      Loose s.host terminal ∧ (Inserted s terminal → Inserted s' terminal ∨ Doomed s' terminal) ∧
        (Doomed s terminal → Doomed s' terminal) := by
  cases ha : a.byHandler with
  | false =>
    have hidle := step_idle ha h
    refine .inr ⟨hidle.loose terminal hloose, fun hi => .inl ?_, ?_⟩
    · rwa [Inserted, Mapped, hidle.terminals, hidle.requests]
    · rw [Doomed, Doomed, hidle.requests]
      exact id
  | true =>
    rcases Sys.step_byHandler ha h with
      ⟨method, params, rfl, rfl⟩ | ⟨r, q, host, permits, q', hq, hmove, rfl⟩
    · refine .inr ⟨hloose, fun hi => .inl ?_, exists_spawn _⟩
      exact hi.imp_right (exists_spawn _)
    · rcases moves_handles hmove with hh | ⟨terminalId, rfl, rfl, hpc, hno⟩
      · have htracks := hh.tracks hkeyed hkillable ?_ hloose
        · exact .inr ⟨htracks.loose, htracks.inserted_set hq, htracks.doomed_set hq⟩
        · intro new hnew
          cases hmove with
          | advance => exact hfresh r rfl q hq new hnew
          | acquire hpc | ask hpc | spawnFailed hpc | spawned hpc | reply hpc =>
            rw [hpc] at hnew
            cases hnew
      · obtain ⟨t, ht, hrun, hkill⟩ := hloose
        by_cases hlt : terminal < s.host.managed.length
        · rw [List.getElem?_append_left hlt] at ht
          have htracks : Tracks s.host q
              { s.host with managed := s.host.managed ++ [.spawned] } q'.pc terminal :=
            ⟨⟨t, ht, hrun, hkill⟩, .inl, by simp [hno.1], by simp [hno.2]⟩
          exact .inr ⟨htracks.loose, htracks.inserted_set hq, htracks.doomed_set hq⟩
        · have hnew : terminal = s.host.managed.length := by
            have hle := (List.getElem?_eq_some_iff.mp ht).1
            rw [List.length_append, List.length_singleton] at hle
            omega
          subst hnew
          refine .inl ⟨⟨r, terminalId, rfl⟩, .inr ⟨q', mem_of_step hq q', terminalId, ?_⟩⟩
          rw [hpc]
          rfl

structure Sound (s : AgentRequests.Sys Value) : Prop where
  perms : Permissions.Inv s.host.perms
  killable : Killable s.host
  keyed : Keyed s.host

structure Later (c c' : Host) : Prop where
  handler : c'.handler = c.handler
  denied : ∀ call, c.perms.denied call = true → c'.perms.denied call = true

theorem Sound.of_perms (hI : Sound s) {c' : Host} {requests : List (AgentRequest Value)}
    {permits : ℕ} (hhandler : c'.handler = s.host.handler)
    (hperms : c'.perms = s.host.perms ∨ ∃ b, s.host.perms.step b = some c'.perms)
    (hkillable : Killable c') (hkeyed : Keyed c') :
    Sound ⟨c', permits, requests⟩ ∧ Later s.host c' := by
  rcases hperms with heq | ⟨b, hstep⟩
  · exact ⟨⟨heq ▸ hI.perms, hkillable, hkeyed⟩, hhandler, fun _ => heq ▸ id⟩
  · exact ⟨⟨Permissions.step_inv hI.perms hstep, hkillable, hkeyed⟩, hhandler,
      fun _ => Permissions.step_denied hI.perms hstep⟩

theorem Sound.step (hI : Sound s) (h : s.step schema a = some s') :
    Sound s' ∧ Later s.host s'.host := by
  cases ha : a.byHandler with
  | false =>
    have hidle := step_idle ha h
    exact hI.of_perms hidle.handler hidle.perms (hidle.killable hI.killable)
      (by rw [Keyed, hidle.terminals]; exact hI.keyed)
  | true =>
    rcases Sys.step_byHandler ha h with
      ⟨method, params, rfl, rfl⟩ | ⟨r, q, host, permits, q', hq, hmove, rfl⟩
    · exact hI.of_perms rfl (.inl rfl) hI.killable hI.keyed
    · have hlater : host.handler = s.host.handler ∧
          (host.perms = s.host.perms ∨ ∃ b, s.host.perms.step b = some host.perms) := by
        cases hmove with
        | advance hadv =>
          have hkept := Host.advance_kept hadv
          exact ⟨hkept.handler, .inl hkept.perms⟩
        | ask _ hstep => exact ⟨rfl, .inr ⟨_, hstep⟩⟩
        | acquire | spawnFailed | spawned | reply => exact ⟨rfl, .inl rfl⟩
      rcases moves_handles hmove with hh | ⟨terminalId, rfl, rfl, -⟩
      · exact hI.of_perms hlater.1 hlater.2 (hh.killable hI.killable) (hh.keyed hI.keyed)
      · refine hI.of_perms hlater.1 hlater.2 (fun t ht => ?_) hI.keyed
        rcases List.mem_append.mp ht with ht | ht
        · exact hI.killable t ht
        · rw [List.mem_singleton.mp ht]
          exact .inl rfl

def Still (schema : Schema Value) (s : AgentRequests.Sys Value) : Prop :=
  ∀ q ∈ s.requests, bound schema s.host q = false

theorem Still.step (hI : Sound s) (hstill : Still schema s) (hno : arrives a = false)
    (h : s.step schema a = some s') : Still schema s' := by
  have hlater := (hI.step h).2
  have hold : ∀ q ∈ s.requests, bound schema s'.host q = false := fun q hq =>
    bound_mono hlater.handler hlater.denied (hstill q hq)
  cases ha : a.byHandler with
  | false =>
    rw [Still, (step_idle ha h).requests]
    exact hold
  | true =>
    rcases Sys.step_byHandler ha h with
      ⟨method, params, rfl, -⟩ | ⟨r, q, host, permits, q', hq, hmove, rfl⟩
    · cases hno
    · refine forall_set hold ?_
      have hb := hstill q (List.mem_of_getElem? hq)
      cases hmove with
      | acquire hpc =>
        simp only [bound, hpc] at hb ⊢
        exact hb
      | advance hadv =>
        exact bound_mono hlater.handler hlater.denied (advance_bound hI.perms hadv hb)
      | ask hpc =>
        simp only [bound, hpc] at hb ⊢
        rw [hb, Bool.false_and]
      | spawnFailed | spawned | reply => rfl

end Agent

section Invariant
variable {Value : Type} {null : Value} {schema : Schema Value} {s s' : System Value}
  {terminal : ℕ}

inductive Underway (s : System Value) : Prop
  | before (hnone : s.client.shutdowns = []) (hclosing : s.closing = .cancelAllPending)
    (hin : Client.TaskName.reader ∈ s.client.client.handles)
  | called (pc : Client.ShutdownPc) (hone : s.client.shutdowns = [pc])
    (hsecured : Secured s.client.client pc)
    (hdone : pc ≠ .callbacks → pc ≠ .dropped → s.closing = .done)

def Listed (s : System Value) (terminal : ℕ) : Prop :=
  match s.closing with
  | .cancelAllPending | .drain => Inserted s.agent terminal
  | .kill terminals => terminal ∈ terminals
  | .done => False

structure Inv (schema : Schema Value) (s : System Value) : Prop where
  sound : Sound s.agent
  underway : Underway s
  tracked : ∀ terminal, Loose s.agent.host terminal →
    Listed s terminal ∨ Doomed s.agent terminal
  still : Returned s → Still schema s.agent
  gone : Returned s → ∀ terminal, ¬ Loose s.agent.host terminal

theorem inv_start {agent : String} {handler : CallbackHandler} {fs : FileSystem} :
    Inv schema (.start agent handler fs : System Value) where
  sound := ⟨Permissions.inv_new, fun _ ht => absurd ht List.not_mem_nil, List.nodup_nil⟩
  underway := .before rfl rfl (.tail _ (.head _))
  tracked _ := by
    rintro ⟨t, ht, -⟩
    cases ht
  still := fun h => absurd h List.not_mem_nil
  gone := fun h => absurd h List.not_mem_nil

theorem Underway.returned (h : Underway s) (hret : Returned s) :
    s.client.shutdowns = [.returned] ∧ s.client.client.finished .reader = true ∧
      s.closing = .done := by
  cases h with
  | before hnone =>
    rw [Returned, hnone] at hret
    cases hret
  | called pc hone hsecured hdone =>
    rw [Returned, hone] at hret
    obtain rfl := List.mem_singleton.mp hret
    exact ⟨hone, hsecured, hdone nofun nofun⟩

theorem not_reading {c : Client.AcpClient Value} (h : c.finished .reader = true) :
    c.reader ≠ .reading := by
  intro hr
  simp [Client.AcpClient.finished, hr] at h

theorem shutdownStep_returned {c c' : Client.AcpClient Value} {pc : Client.ShutdownPc}
    (h : Client.shutdownStep c pc = some (c', .returned)) : pc = .failPending := by
  cases pc <;> simp only [Client.shutdownStep] at h
  case failPending => rfl
  case takeHandle task taken => cases task <;> cases h
  case join task taken =>
    split at h
    · cases task <;> cases h
    · cases h
  case kill =>
    split at h <;> cases h
  case killAgain =>
    split at h <;> cases h
  all_goals cases h

theorem Inv.agent (hI : Inv schema s) {a : AgentRequests.Action Value}
    {agent : AgentRequests.Sys Value} (hfresh : Fresh s (.agent a))
    (hspares : Spares schema s (.agent a))
    (harrives : ¬ (arrives a = true ∧ s.client.client.reader ≠ .reading))
    (h : s.agent.step schema a = some agent) : Inv schema { s with agent := agent } := by
  have htracks : ∀ terminal, Loose agent.host terminal → _ := fun terminal =>
    step_tracks hI.sound.keyed hI.sound.killable (fun r har => by subst har; exact hfresh) h
  -- a new terminal means that the map has not been drained
  have hearly : (∃ r terminalId, a = .spawn r (.ok terminalId)) →
      s.closing = .cancelAllPending ∨ s.closing = .drain := by
    rintro ⟨r, terminalId, rfl⟩
    exact hspares
  refine ⟨(hI.sound.step h).1, ?_, fun terminal hloose => ?_, fun hret => ?_,
    fun hret terminal hloose => ?_⟩
  · cases hI.underway with
    | before hnone hclosing hin => exact .before hnone hclosing hin
    | called pc hone hsecured hdone => exact .called pc hone hsecured hdone
  · rcases htracks terminal hloose with ⟨hnew, hin⟩ | ⟨hold, hinserted, hdoomed⟩
    · left
      rcases hearly hnew with hc | hc <;> simp only [Listed, hc] <;> exact hin
    · rcases hI.tracked terminal hold with hlisted | hd
      · cases hc : s.closing <;> simp only [Listed, hc] at hlisted ⊢
        case cancelAllPending | drain => exact hinserted hlisted
        case kill => exact .inl hlisted
      · exact .inr (hdoomed hd)
  · have hreader := not_reading (hI.underway.returned hret).2.1
    refine (hI.still hret).step hI.sound ?_ h
    cases hno : arrives a with
    | false => rfl
    | true => exact absurd ⟨hno, hreader⟩ harrives
  · have hdone := (hI.underway.returned hret).2.2
    rcases htracks terminal hloose with ⟨hnew, -⟩ | ⟨hold, -⟩
    · rcases hearly hnew with hc | hc <;> rw [hdone] at hc <;> cases hc
    · exact hI.gone hret terminal hold

theorem Underway.only (h : Underway s) {k : ℕ} {pc : Client.ShutdownPc}
    (hk : s.client.shutdowns[k]? = some pc) : k = 0 ∧ s.client.shutdowns = [pc] ∧
      Secured s.client.client pc ∧ (pc ≠ .callbacks → pc ≠ .dropped → s.closing = .done) := by
  cases h with
  | before hnone =>
    rw [hnone] at hk
    cases hk
  | called pc' hone hsecured hdone =>
    rw [hone] at hk
    obtain ⟨hlt, heq⟩ := List.getElem?_eq_some_iff.mp hk
    obtain rfl : k = 0 := Nat.lt_one_iff.mp hlt
    obtain rfl : pc' = pc := heq
    exact ⟨rfl, hone, hsecured, hdone⟩

theorem Inv.of_client (hI : Inv schema s) {client : Client.Sys Value}
    (hunderway : Underway { s with client := client })
    (hret : Returned { s with client := client } →
      Still schema s.agent ∧ ∀ terminal, ¬ Loose s.agent.host terminal) :
    Inv schema { s with client := client } :=
  ⟨hI.sound, hunderway, hI.tracked, fun h => (hret h).1, fun h => (hret h).2⟩

theorem Inv.client (hI : Inv schema s) {a : Client.Action Value} {client : Client.Sys Value}
    (hspares : Spares schema s (.client a)) (hmay : mayStep s a = true)
    (h : s.client.step null a = some client) : Inv schema { s with client := client } := by
  cases client_effect h with
  | beside a hshutdowns hhandles hreader =>
    refine hI.of_client ?_ fun hret => ?_
    · cases hI.underway with
      | before hnone hclosing hin =>
        exact .before (hshutdowns.trans hnone) hclosing (by rw [hhandles]; exact hin)
      | called pc hone hsecured hdone =>
        exact .called pc (hshutdowns.trans hone) (hsecured.mono hhandles hreader) hdone
    · have hold : Returned s := by rwa [Returned, hshutdowns] at hret
      exact ⟨hI.still hold, hI.gone hold⟩
  | begins =>
    have hnone : s.client.shutdowns = [] := of_decide_eq_true hmay
    refine hI.of_client ?_ fun hret => ?_
    · cases hI.underway with
      | before hnone hclosing hin =>
        exact .called .callbacks (by rw [hnone]; rfl) hin fun hne => absurd rfl hne
      | called pc hone =>
        rw [hnone] at hone
        cases hone
    · rw [Returned, hnone] at hret
      cases List.mem_singleton.mp hret
  | @goesOn k pc pc' c hk hs =>
    obtain ⟨rfl, hone, hsecured, hdone⟩ := hI.underway.only hk
    refine hI.of_client ?_ fun hret => ?_
    · refine .called pc' (by rw [hone]; rfl) (secured_step hs hsecured) fun _ _ => ?_
      by_cases hpc : pc = .callbacks
      · -- the step from there waits for that of the callbacks
        simpa [mayStep, hone, hpc] using hmay
      · refine hdone hpc ?_
        rintro rfl
        cases hs
    · rw [Returned, hone] at hret
      obtain rfl := List.mem_singleton.mp hret
      obtain rfl := shutdownStep_returned hs
      have hfit := hspares hk
      have hclosed : s.closing = .done := hdone nofun nofun
      refine ⟨fun q hq => (hfit q hq).1, fun terminal hloose => ?_⟩
      rcases hI.tracked terminal hloose with hlisted | ⟨q, hq, hkilling⟩
      · simp only [Listed, hclosed] at hlisted
      · have hsettled := (hfit q hq).2 terminal hkilling
        rw [loose_iff.mp hloose] at hsettled
        cases hsettled
  | @dropped k pc hk =>
    obtain ⟨rfl, hone, -⟩ := hI.underway.only hk
    refine hI.of_client ?_ fun hret => ?_
    · exact .called .dropped (by rw [hone]; rfl) trivial fun _ hne => absurd rfl hne
    · rw [Returned, hone] at hret
      cases List.mem_singleton.mp hret

theorem Inv.callbacks (hI : Inv schema s) {order : List ℕ} {host : Host} {closing : CallbacksPc}
    (hspares : Spares schema s (.callbacks order)) (hone : s.client.shutdowns = [.callbacks])
    (h : closeCallbacks s.agent.host order s.closing = some (host, closing)) :
    Inv schema { s with agent := { s.agent with host := host }, closing := closing } := by
  have hret : ¬ Returned { s with agent := { s.agent with host := host }, closing := closing } := by
    rw [Returned, hone]
    intro h
    cases List.mem_singleton.mp h
  have hunderway :
      Underway { s with agent := { s.agent with host := host }, closing := closing } := by
    obtain ⟨-, -, hsecured, -⟩ := hI.underway.only (k := 0) (by rw [hone]; rfl)
    exact .called .callbacks hone hsecured fun hne => absurd rfl hne
  suffices hrest : Sound { s.agent with host := host } ∧
      ∀ terminal, Loose host terminal →
        Listed { s with agent := { s.agent with host := host }, closing := closing } terminal ∨
          Doomed { s.agent with host := host } terminal from
    ⟨hrest.1, hunderway, hrest.2, fun h => absurd h hret, fun h => absurd h hret⟩
  obtain ⟨hperms, hkillable, hkeyed⟩ := hI.sound
  have htracked := hI.tracked
  cases hc : s.closing with
  | cancelAllPending =>
    rw [hc] at h
    cases h
    simp only [Listed, hc] at htracked ⊢
    have hcancelled := Permissions.step_inv (a := .cancelAllPending) hperms rfl
    exact ⟨⟨hcancelled, hkillable, hkeyed⟩, htracked⟩
  | drain =>
    simp only [hc, closeCallbacks] at h
    split at h <;> cases h
    next hperm =>
      refine ⟨⟨hperms, hkillable, List.nodup_nil⟩, fun terminal hloose => ?_⟩
      have hold : Loose s.agent.host terminal := hloose
      simp only [Listed, hc] at htracked ⊢
      rcases htracked terminal hold with (⟨terminalId, hm⟩ | ⟨q, hq, terminalId, hin⟩) | hd
      · exact .inl (hperm.mem_iff.mpr (List.mem_map_of_mem hm))
      · have hsettled := hspares hc q hq _ hin
        rw [loose_iff.mp hold] at hsettled
        cases hsettled
      · exact .inr hd
  | kill terminals =>
    simp only [Listed, hc] at htracked
    cases terminals with
    | nil =>
      rw [hc] at h
      cases h
      refine ⟨⟨hperms, hkillable, hkeyed⟩, fun terminal hloose => ?_⟩
      exact (htracked terminal hloose).imp_left fun hm => absurd hm List.not_mem_nil
    | cons killed terminals =>
      rw [hc] at h
      cases h
      refine ⟨⟨hperms, hkillable.update fun t ht => .inr (kill_killable ht), hkeyed⟩,
        fun terminal hloose => ?_⟩
      obtain ⟨hold, hne⟩ := Loose.of_kill hkillable hloose
      refine (htracked terminal hold).imp_left fun hm => ?_
      exact (List.mem_cons.mp hm).resolve_left hne
  | done =>
    rw [hc] at h
    cases h

theorem step_inv (hI : Inv schema s) {a : Act Value} (hfresh : Fresh s a)
    (hspares : Spares schema s a) (h : s.step null schema a = some s') : Inv schema s' := by
  cases a with
  | client a =>
    simp only [System.step] at h
    split at h
    · next hmay =>
      obtain ⟨client, hs, rfl⟩ := Option.map_eq_some_iff.mp h
      exact hI.client hspares hmay hs
    · cases h
  | agent a =>
    simp only [System.step] at h
    split at h
    · cases h
    · next harrives =>
      obtain ⟨agent, hs, rfl⟩ := Option.map_eq_some_iff.mp h
      exact hI.agent hfresh hspares harrives hs
  | callbacks order =>
    simp only [System.step] at h
    split at h
    · next hone =>
      obtain ⟨⟨host, closing⟩, hs, rfl⟩ := Option.map_eq_some_iff.mp h
      exact hI.callbacks hspares hone hs
    · cases h

theorem Inv.settles (hI : Inv schema s) : Settles s := by
  intro hret t ht
  obtain ⟨terminal, hterminal⟩ := List.mem_iff_getElem?.mp ht
  cases hkill : t.killSent with
  | true => exact .inl rfl
  | false =>
    cases hrun : t.running with
    | false => exact .inr rfl
    | true => exact absurd ⟨t, hterminal, hrun, hkill⟩ (hI.gone hret terminal)

theorem Inv.performs (hI : Inv schema s) (hret : Returned s) {a : AgentRequests.Action Value}
    {r : ℕ} {purpose : Purpose} : ¬ Policies.Performs s.agent a r purpose := by
  rintro ⟨-, q, hq, hp⟩
  have hb := hI.still hret q (List.mem_of_getElem? hq)
  rw [performs_bound hp] at hb
  cases hb

end Invariant

/-- When no handler spawns past the drain of the map, and none is on its way when
`shutdown` returns, nothing is written or spawned after that and no terminal is left. -/
theorem nothing_outlives {Value : Type} (null : Value) (schema : Schema Value) (agent : String)
    (handler : CallbackHandler) (fs : FileSystem) (as : List (Act Value)) (t : System Value)
    (hr : run (System.step null schema) (.start agent handler fs) as = some t)
    (hfresh : Along (System.step null schema) Fresh (.start agent handler fs) as)
    (hspares : Along (System.step null schema) (Spares schema) (.start agent handler fs) as) :
    (∀ u a u' after r purpose,
      Visit (System.step null schema) (.start agent handler fs) as u (.agent a) u' after →
      Returned u → ¬ Policies.Performs u.agent a r purpose) ∧ Settles t := by
  have hstep : ∀ s a s', Inv schema s → Fresh s a ∧ Spares schema s a →
      System.step null schema s a = some s' → Inv schema s' :=
    fun s a s' hI ha h => step_inv hI ha.1 ha.2 h
  have hboth := hfresh.and hspares
  refine ⟨fun u a u' after r purpose hvisit hret => ?_, ?_⟩
  · exact (hvisit.invariant hstep inv_start hboth).1.performs hret
  · exact (invariant hstep inv_start hboth hr).settles

def created : Act ClientRequest :=
  .agent (.arrive "terminal/create" (.createTerminal ⟨"sleep", ["60"], [], none⟩))

def shutDown (order : List ℕ) : List (Act ClientRequest) :=
  .client .shutdown :: List.replicate (order.length + 3) (.callbacks order) ++
    List.replicate 10 (.client (.shutdownStep 0)) ++
    [.client (.cancel .wait), .client (.cancel .writer), .client (.cancel .reader),
      .client (.cancel .stderr)] ++
    List.replicate 6 (.client (.shutdownStep 0))

def approving : CallbackHandler := ⟨.autoApprove, ⟨true, [.name "proj"]⟩⟩

def createdEarly : List (Act ClientRequest) :=
  [created, .agent (.acquire 0), .agent (.advance 0), .agent (.advance 0),
    .agent (.spawn 0 (.ok "t")), .agent (.advance 0), .agent (.reply 0)] ++ shutDown [0]

theorem nothing_outlives_createdEarly :
    ∃ t, run (System.step (.killTerminal "") plainSchema) (.start "codex" approving projectFiles)
        createdEarly = some t ∧
      Returned t ∧ t.agent.host.managed ≠ [] ∧ Settles t := by
  obtain ⟨t, hr, hret, hmanaged⟩ : ∃ t, run (System.step (.killTerminal "") plainSchema)
      (.start "codex" approving projectFiles) createdEarly = some t ∧
        Returned t ∧ t.agent.host.managed ≠ [] :=
    exists_run _ (by decide +kernel)
  have hrest := nothing_outlives (ClientRequest.killTerminal "") plainSchema "codex" approving
    projectFiles createdEarly t hr (by decide +kernel) (by decide +kernel)
  exact ⟨t, hr, hret, hmanaged, hrest.2⟩

/-- The handler is past its checks when the agent is shut down, and spawns after that. -/
def createdLate : List (Act ClientRequest) :=
  [created, .agent (.acquire 0), .agent (.advance 0), .agent (.advance 0)] ++ shutDown []

def spawnsLate : AgentRequests.Action ClientRequest := .spawn 0 (.ok "t")

theorem createdLate_outlives :
    Along (System.step (.killTerminal "") plainSchema) Fresh
        (.start "codex" approving projectFiles) (createdLate ++ [.agent spawnsLate]) ∧
      ∃ u t, run (System.step (.killTerminal "") plainSchema)
          (.start "codex" approving projectFiles) createdLate = some u ∧
        u.step (.killTerminal "") plainSchema (.agent spawnsLate) = some t ∧ Returned u ∧
        Policies.Performs u.agent spawnsLate 0 (.create ⟨"sleep", ["60"], [], none⟩) ∧
        ¬ Settles t := by
  refine ⟨by decide +kernel, ?_⟩
  obtain ⟨u, hr, hret, hq, hspawn⟩ : ∃ u, run (System.step (.killTerminal "") plainSchema)
      (.start "codex" approving projectFiles) createdLate = some u ∧ Returned u ∧
      u.agent.requests[0]?.any (fun q => Policies.performs q.pc =
        some (.create ⟨"sleep", ["60"], [], none⟩)) = true ∧
      (u.step (.killTerminal "") plainSchema (.agent spawnsLate)).any (fun t => ¬ Settles t) :=
    exists_run _ (by decide +kernel)
  obtain ⟨q, hq, hperforms⟩ := (Option.any_eq_true _ _).mp hq
  obtain ⟨t, ht, hleft⟩ := (Option.any_eq_true _ _).mp hspawn
  exact ⟨u, t, hr, ht, hret, ⟨.inr ⟨_, rfl⟩, q, hq, of_decide_eq_true hperforms⟩,
    of_decide_eq_true hleft⟩

end Ccgonext.Orphans
