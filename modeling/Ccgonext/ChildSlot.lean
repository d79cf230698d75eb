import Ccgonext.Teardown

/-!
# The slot of the child handle

`kill_child` takes the handle of the child out of its slot and then calls
`start_kill` on it. It does not await in between, so a task cannot be aborted
there, nor a call of `shutdown` dropped, but everybody else may find the slot
empty. Here the two are steps of their own: who has just taken the handle is
`holding` it, and does nothing before `startKill`. `takers` and `started` say who
has taken it and who has called `start_kill` on it, in order. The client's own
`killed`, which is set with the take, says nothing here.
-/

namespace Ccgonext.ChildSlot
open Lib Lib.Runs Lib.Pool Client Teardown

variable {Value : Type}

inductive Party
  | reader
  | writer
  | wait
  | shutdown (k : ℕ)
  deriving DecidableEq, Repr

def Party.ofTask : TaskName → Option Party
  | .reader => some .reader
  | .writer => some .writer
  | .wait => some .wait
  | .stderr => none

/-- Whose step it is. Nobody is cancelled or dropped outside of a step of its own. -/
def actor : Client.Action Value → Option Party
  | .line _ | .readerStep => some .reader
  | .writerStep _ => some .writer
  | .waitStep _ => some .wait
  | .cancel task => Party.ofTask task
  | .shutdownStep k | .dropShutdown k => some (.shutdown k)
  | _ => none

structure System (Value : Type) where
  sys : Sys Value
  takers : List Party
  holding : List Party
  started : List Party
  deriving DecidableEq, Repr

inductive Action (Value : Type)
  | act (a : Client.Action Value)
  | startKill (p : Party)

def Action.sys : Action Value → Option (Client.Action Value)
  | .act a => some a
  | .startKill _ => none

namespace System

def new (agent : String) : System Value := ⟨.new agent, [], [], []⟩

def busy (w : System Value) (a : Client.Action Value) : Bool := (actor a).any (· ∈ w.holding)

/-- Whoever finds the handle in the slot and leaves it empty has taken it. -/
def taker (s s' : Sys Value) (a : Client.Action Value) : List Party :=
  if s.client.slot && !s'.client.slot then (actor a).toList else []

def step (null : Value) (w : System Value) : Action Value → Option (System Value)
  | .act a =>
    if w.busy a then none
    else (w.sys.step null a).map fun sys =>
      { w with
        sys := sys
        takers := w.takers ++ taker w.sys sys a
        holding := w.holding ++ taker w.sys sys a }
  | .startKill p =>
    if p ∈ w.holding then
      some { w with holding := w.holding.erase p, started := w.started ++ [p] }
    else none

end System

def writerStored : WriterPc → Bool
  | .takeChild | .waitChild | .done => true
  | _ => false

def waitStored : WaitPc → Bool
  | .takeChild | .waitChild | .done => true
  | _ => false

def emptied : ShutdownPc → Bool
  | .callbacks | .store | .trySend | .kill | .dropped => false
  | _ => true

def Stored (s : Sys Value) : Party → Prop
  | .reader => leaving s.client.reader = true
  | .writer => writerStored s.client.writer = true
  | .wait => waitStored s.client.wait = true
  | .shutdown k => ∃ pc, s.shutdowns[k]? = some pc ∧ stored pc = true

section Steps
variable {null : Value} {s s' : Sys Value} {a : Client.Action Value} {c c' : AcpClient Value}

structure Still (c c' : AcpClient Value) : Prop where
  writer : c'.writer = c.writer
  wait : c'.wait = c.wait
  slot : c'.slot = c.slot

structure Exiting (c c' : AcpClient Value) (was now : Bool) : Prop where
  stored : now = true → was = true ∨ c'.connected = false
  slot : c'.slot = c.slot ∨ c'.slot = false ∧ was = true

theorem post_still {msg : WriterMsg} (h : c.post msg = some c') : Still c c' := by
  simp only [AcpClient.post] at h
  split at h <;> cases h
  exact ⟨rfl, rfl, rfl⟩

theorem callStep_still {i : ℕ} {q q' : RequestCall Value} {line : Except String String}
    (h : callStep i c q line = some (c', q')) : Still c c' := by
  obtain ⟨id, pc⟩ := q
  cases pc <;> cases id <;> simp only [callStep] at h
  case sendLine.none | sendLine.some =>
    split at h
    · obtain ⟨d, hp, hd⟩ := Option.map_eq_some_iff.mp h
      cases hd
      exact post_still hp
    · cases h
      exact ⟨rfl, rfl, rfl⟩
  all_goals
    repeat' split at h
    all_goals
      cases h
      try exact ⟨rfl, rfl, rfl⟩

theorem terminateStep_still {pc pc' : TerminatePc} (h : terminateStep c pc = some (c', pc')) :
    Still c c' := by
  cases pc <;> cases h <;> exact ⟨rfl, rfl, rfl⟩

theorem handle_still (l : Line Value) : Still s.client (s.handle null l) := by
  unfold Sys.handle
  split <;> exact ⟨rfl, rfl, rfl⟩

theorem readerStep_exiting (h : c.readerStep = some c') :
    c'.writer = c.writer ∧ c'.wait = c.wait ∧
      (c'.slot = c.slot ∨ c'.slot = false ∧ leaving c.reader = true) := by
  cases hr : c.reader <;> simp only [AcpClient.readerStep, hr] at h
  case takeChild =>
    cases h
    exact ⟨rfl, rfl, .inr ⟨rfl, rfl⟩⟩
  all_goals
    cases h
    try exact ⟨rfl, rfl, .inl rfl⟩

theorem writerStep_exiting {written : Bool} (h : c.writerStep written = some c') :
    c'.wait = c.wait ∧ Exiting c c' (writerStored c.writer) (writerStored c'.writer) := by
  cases hw : c.writer <;> simp only [AcpClient.writerStep, hw] at h
  case recv =>
    split at h <;> cases h
    · exact ⟨rfl, by intros; contradiction, .inl rfl⟩
    · exact ⟨rfl, by intros; contradiction, .inl rfl⟩
  case write text =>
    cases h
    refine ⟨rfl, ?_, .inl rfl⟩
    cases written <;> (intros; contradiction)
  case closeStdin =>
    cases h
    exact ⟨rfl, by intros; contradiction, .inl rfl⟩
  case storeClosed cleanup =>
    cases h
    exact ⟨rfl, fun _ => .inr rfl, .inl rfl⟩
  case takeChild =>
    cases h
    exact ⟨rfl, fun _ => .inl rfl, .inr ⟨rfl, rfl⟩⟩
  case waitChild =>
    cases h
    exact ⟨rfl, fun _ => .inl rfl, .inl rfl⟩
  all_goals cases h

theorem waitStep_exiting {exited : Bool} (h : c.waitStep exited = some c') :
    c'.writer = c.writer ∧ Exiting c c' (waitStored c.wait) (waitStored c'.wait) := by
  cases hw : c.wait <;> simp only [AcpClient.waitStep, hw] at h
  case tryWait =>
    cases h
    refine ⟨rfl, fun hs => ?_, .inl rfl⟩
    simp only at hs
    split at hs <;> cases hs
  case sleep =>
    cases h
    exact ⟨rfl, by intros; contradiction, .inl rfl⟩
  case storeClosed =>
    cases h
    exact ⟨rfl, fun _ => .inr rfl, .inl rfl⟩
  case takeChild =>
    cases h
    exact ⟨rfl, fun _ => .inl rfl, .inr ⟨rfl, rfl⟩⟩
  case waitChild =>
    cases h
    exact ⟨rfl, fun _ => .inl rfl, .inl rfl⟩
  all_goals cases h

theorem shutdownStep_exiting {pc pc' : ShutdownPc} (h : shutdownStep c pc = some (c', pc')) :
    c'.writer = c.writer ∧ c'.wait = c.wait ∧
      (c'.slot = c.slot ∨ c'.slot = false ∧ stored pc = true) ∧
      (emptied pc' = true → emptied pc = true ∨ c'.slot = false) := by
  cases pc <;> simp only [shutdownStep] at h
  case trySend =>
    cases h
    have hstill : Still c ((c.post .shutdown).getD c) := by
      cases hp : c.post .shutdown with
      | none => exact ⟨rfl, rfl, rfl⟩
      | some d => exact post_still hp
    exact ⟨hstill.writer, hstill.wait, .inl hstill.slot, by intros; contradiction⟩
  case kill | killAgain =>
    cases h
    exact ⟨rfl, rfl, .inr ⟨rfl, rfl⟩, fun _ => .inr rfl⟩
  case callbacks | store =>
    cases h
    exact ⟨rfl, rfl, .inl rfl, by intros; contradiction⟩
  case join =>
    split at h <;> cases h
    exact ⟨rfl, rfl, .inl rfl, fun _ => .inl rfl⟩
  case returned | dropped => cases h
  all_goals
    cases h
    exact ⟨rfl, rfl, .inl rfl, fun _ => .inl rfl⟩

structure SlotStep (s s' : Sys Value) (a : Client.Action Value) : Prop where
  writer : Stored s' .writer → Stored s .writer ∨ s'.client.connected = false
  wait : Stored s' .wait → Stored s .wait ∨ s'.client.connected = false
  slot : s'.client.slot = s.client.slot ∨
    s'.client.slot = false ∧ ∃ p, actor a = some p ∧ Stored s p
  emptied : (∃ pc ∈ s'.shutdowns, emptied pc = true) →
    (∃ pc ∈ s.shutdowns, emptied pc = true) ∨ s'.client.slot = false

theorem Still.slotStep (h : Still s.client s'.client) (hshutdowns : s'.shutdowns = s.shutdowns) :
    SlotStep s s' a where
  writer hw := .inl (by rwa [Stored, h.writer] at hw)
  wait hw := .inl (by rwa [Stored, h.wait] at hw)
  slot := .inl h.slot
  emptied hpc := .inl (hshutdowns ▸ hpc)

theorem taskStep_slot (h : TaskStep s.client a c) : SlotStep s { s with client := c } a := by
  cases h with
  | post hpost => exact (post_still hpost).slotStep rfl
  | reader hs =>
    obtain ⟨hwriter, hwait, hslot⟩ := readerStep_exiting hs
    refine ⟨fun hw => .inl ?_, fun hw => .inl ?_, ?_, .inl⟩
    · simpa only [Stored, hwriter] using hw
    · simpa only [Stored, hwait] using hw
    · exact hslot.imp_right fun ⟨hempty, hl⟩ => ⟨hempty, .reader, rfl, hl⟩
  | writer hs =>
    obtain ⟨hwait, hexit⟩ := writerStep_exiting hs
    refine ⟨hexit.stored, fun hw => .inl ?_, ?_, .inl⟩
    · simpa only [Stored, hwait] using hw
    · exact hexit.slot.imp_right fun ⟨hempty, hst⟩ => ⟨hempty, .writer, rfl, hst⟩
  | wait hs =>
    obtain ⟨hwriter, hexit⟩ := waitStep_exiting hs
    refine ⟨fun hw => .inl ?_, hexit.stored, ?_, .inl⟩
    · simpa only [Stored, hwriter] using hw
    · exact hexit.slot.imp_right fun ⟨hempty, hst⟩ => ⟨hempty, .wait, rfl, hst⟩
  | stderrEnds => exact Still.slotStep ⟨rfl, rfl, rfl⟩ rfl
  | @cancel task =>
    cases task
    case writer => exact ⟨nofun, .inl, .inl rfl, .inl⟩
    case wait => exact ⟨.inl, nofun, .inl rfl, .inl⟩
    all_goals exact Still.slotStep ⟨rfl, rfl, rfl⟩ rfl

theorem step_slot (h : s.step null a = some s') : SlotStep s s' a := by
  cases step_takes h with
  | task htask => exact taskStep_slot htask
  | call | dropCall | terminate => exact Still.slotStep ⟨rfl, rfl, rfl⟩ rfl
  | callStep _ hs => exact (callStep_still hs).slotStep rfl
  | line l => exact (handle_still l).slotStep rfl
  | terminateStep _ hs => exact (terminateStep_still hs).slotStep rfl
  | shutdown =>
    refine ⟨.inl, .inl, .inl rfl, ?_⟩
    rintro ⟨pc, hpc, he⟩
    rcases List.mem_append.mp hpc with hpc | hpc
    · exact .inl ⟨pc, hpc, he⟩
    · rw [List.mem_singleton.mp hpc] at he
      cases he
  | @shutdownStep k pc pc' client hk hs =>
    obtain ⟨hwriter, hwait, hslot, hemptied⟩ := shutdownStep_exiting hs
    refine ⟨fun hw => .inl ?_, fun hw => .inl ?_, ?_, ?_⟩
    · simpa only [Stored, hwriter] using hw
    · simpa only [Stored, hwait] using hw
    · exact hslot.imp_right fun ⟨hempty, hst⟩ => ⟨hempty, .shutdown k, rfl, pc, hk, hst⟩
    · rintro ⟨q, hq, he⟩
      rcases List.mem_or_eq_of_mem_set hq with hq | rfl
      · exact .inl ⟨q, hq, he⟩
      · exact (hemptied he).imp_left fun he => ⟨pc, List.mem_of_getElem? hk, he⟩
  | @dropShutdown k pc hk =>
    refine ⟨.inl, .inl, .inl rfl, ?_⟩
    rintro ⟨q, hq, he⟩
    rcases List.mem_or_eq_of_mem_set hq with hq | rfl
    · exact .inl ⟨q, hq, he⟩
    · cases he

end Steps

/-- Nobody goes to the slot before the connection is closed, and a shutdown leaves
it empty. -/
structure Inv (s : Sys Value) : Prop where
  closing : Teardown.Inv s
  writer : Stored s .writer → s.client.connected = false
  wait : Stored s .wait → s.client.connected = false
  slot : s.client.slot = false → s.client.connected = false
  emptied : (∃ pc ∈ s.shutdowns, emptied pc = true) → s.client.slot = false

/-- The handle is in the slot, or one party has taken it and has started the kill
or is just about to. -/
structure Held (w : System Value) : Prop where
  full : w.sys.client.slot = true → w.takers = []
  empty : w.sys.client.slot = false → ∃ p, w.takers = [p] ∧ (p ∈ w.holding ∨ p ∈ w.started)

section Run
variable {null : Value} {agent : String} {s s' t : Sys Value} {a : Client.Action Value}
  {w w' : System Value} {act : Action Value} {acts : List (Action Value)}

theorem inv_new (agent : String) : Inv (Sys.new agent : Sys Value) := by
  refine ⟨Teardown.inv_new agent, nofun, nofun, nofun, ?_⟩
  rintro ⟨pc, hpc, -⟩
  exact absurd hpc List.not_mem_nil

theorem Inv.closed (h : Inv s) {p : Party} (hp : Stored s p) : s.client.connected = false := by
  cases p with
  | reader => exact h.closing.leaving hp
  | writer => exact h.writer hp
  | wait => exact h.wait hp
  | shutdown k =>
    obtain ⟨pc, hk, hst⟩ := hp
    exact h.closing.stored ⟨pc, List.mem_of_getElem? hk, hst⟩

theorem step_inv (h : Inv s) (hs : s.step null a = some s') : Inv s' := by
  have hstep := step_slot hs
  have hclosing := step_closing hs
  refine ⟨Teardown.step_inv h.closing hs, fun hw => ?_, fun hw => ?_, fun he => ?_, fun he => ?_⟩
  · exact (hstep.writer hw).elim (fun hw => hclosing.closed (h.writer hw)) id
  · exact (hstep.wait hw).elim (fun hw => hclosing.closed (h.wait hw)) id
  · rcases hstep.slot with hsame | ⟨-, p, -, hp⟩
    · exact hclosing.closed (h.slot (hsame ▸ he))
    · exact hclosing.closed (h.closed hp)
  · rcases hstep.emptied he with he | hempty
    · rcases hstep.slot with hsame | ⟨hempty, -⟩
      · exact hsame.trans (h.emptied he)
      · exact hempty
    · exact hempty

theorem System.step_act (h : w.step null (.act a) = some w') :
    w.busy a = false ∧ ∃ sys, w.sys.step null a = some sys ∧ w' =
      { w with
        sys := sys
        takers := w.takers ++ taker w.sys sys a
        holding := w.holding ++ taker w.sys sys a } := by
  simp only [step] at h
  split at h
  · cases h
  · next hbusy =>
    obtain ⟨sys, hs, rfl⟩ := Option.map_eq_some_iff.mp h
    exact ⟨eq_false_of_ne_true hbusy, sys, hs, rfl⟩

theorem System.step_startKill {p : Party} (h : w.step null (.startKill p) = some w') :
    p ∈ w.holding ∧
      w' = { w with holding := w.holding.erase p, started := w.started ++ [p] } := by
  simp only [step] at h
  split at h
  · next hp =>
    cases h
    exact ⟨hp, rfl⟩
  · cases h

theorem run_inv {as : List (Client.Action Value)}
    (hr : run (Sys.step null) (.new agent) as = some t) : Inv t :=
  preserved (fun _ _ _ h hs => step_inv h hs) (inv_new agent) hr

theorem run_sys (hr : run (System.step null) w acts = some w') :
    run (Sys.step null) w.sys (acts.filterMap Action.sys) = some w'.sys := by
  refine run_refines System.sys Action.sys (fun u act u' hs => ?_) hr
  cases act with
  | act a =>
    obtain ⟨-, sys, hsys, rfl⟩ := System.step_act hs
    exact hsys
  | startKill p =>
    obtain ⟨-, rfl⟩ := System.step_startKill hs
    rfl

theorem taker_same (h : s'.client.slot = s.client.slot) : System.taker s s' a = [] := by
  rw [System.taker, h, Bool.and_not_self]
  rfl

theorem held_new (agent : String) : Held (System.new agent : System Value) :=
  ⟨fun _ => rfl, nofun⟩

theorem step_held (h : Held w) (hs : w.step null act = some w') : Held w' := by
  cases act with
  | startKill p =>
    obtain ⟨hp, rfl⟩ := System.step_startKill hs
    refine ⟨h.full, fun he => ?_⟩
    obtain ⟨q, htakers, hq⟩ := h.empty he
    refine ⟨q, htakers, ?_⟩
    by_cases hqp : q = p
    · exact .inr (List.mem_append_right _ (List.mem_singleton.mpr hqp))
    · exact hq.imp (List.mem_erase_of_ne hqp).mpr (List.mem_append_left _)
  | act a =>
    obtain ⟨-, sys, hsys, rfl⟩ := System.step_act hs
    cases hslot : w.sys.client.slot with
    | false =>
      have hstill : sys.client.slot = w.sys.client.slot :=
        (step_slot hsys).slot.elim id fun ⟨hempty, _⟩ => hempty.trans hslot.symm
      refine ⟨fun hfull => ?_, fun _ => ?_⟩
      · rw [hstill, hslot] at hfull
        cases hfull
      · simpa only [taker_same hstill, List.append_nil] using h.empty hslot
    | true =>
      have hnone := h.full hslot
      rcases (step_slot hsys).slot with hstill | ⟨hempty, p, hactor, -⟩
      · refine ⟨fun _ => ?_, fun he => ?_⟩
        · simp only [taker_same hstill, hnone, List.append_nil]
        · rw [hstill, hslot] at he
          cases he
      · have htaker : System.taker w.sys sys a = [p] := by
          rw [System.taker, hslot, hempty, hactor]
          rfl
        refine ⟨fun hfull => ?_, fun _ => ⟨p, ?_, .inl ?_⟩⟩
        · rw [hempty] at hfull
          cases hfull
        · simp only [htaker, hnone, List.nil_append]
        · simp only [htaker]
          exact List.mem_append_right _ (List.mem_singleton_self p)

theorem run_held (hr : run (System.step null) (.new agent) acts = some w) : Held w :=
  preserved (fun _ _ _ h hs => step_held h hs) (held_new agent) hr

theorem holding_startKill {p : Party} (hp : p ∈ w.holding) :
    (∃ w', w.step null (.startKill p) = some w' ∧ p ∈ w'.started ∧ w'.sys = w.sys) ∧
      ∀ a, actor a = some p → w.step null (.act a) = none := by
  constructor
  · exact ⟨_, if_pos hp, List.mem_append_right _ (List.mem_singleton_self p), rfl⟩
  · intro a ha
    have hbusy : w.busy a = true := by
      rw [System.busy, ha]
      exact decide_eq_true hp
    exact if_pos hbusy

end Run

/-- In every run of the tasks, `terminate` and any number of calls of `shutdown`,
which may abort the tasks and may be dropped, the handle is taken at most once.
Where it has been taken, the client is closed, and who took it has called
`start_kill` on it or does so before anything else. A shutdown that has returned
leaves the slot empty. -/
theorem child_taken_once (null : Value) (agent : String) (acts : List (Action Value))
    (w : System Value) (hr : run (System.step null) (.new agent) acts = some w) :
    w.takers.length ≤ 1 ∧
    (w.sys.client.slot = false → w.sys.client.connected = false ∧
      ∃ p, w.takers = [p] ∧ (p ∈ w.started ∨
        (∃ w', w.step null (.startKill p) = some w' ∧ p ∈ w'.started ∧ w'.sys = w.sys) ∧
          ∀ a, actor a = some p → w.step null (.act a) = none)) ∧
    (.returned ∈ w.sys.shutdowns → w.sys.client.slot = false) := by
  have hheld := run_held hr
  have hinv := run_inv (run_sys hr)
  refine ⟨?_, fun he => ⟨hinv.slot he, ?_⟩, fun hret => ?_⟩
  · cases hslot : w.sys.client.slot with
    | true => simp only [hheld.full hslot, List.length_nil, Nat.zero_le]
    | false =>
      obtain ⟨p, htakers, -⟩ := hheld.empty hslot
      simp only [htakers, List.length_singleton, Nat.le_refl]
  · obtain ⟨p, htakers, hp⟩ := hheld.empty he
    exact ⟨p, htakers, hp.symm.imp_right holding_startKill⟩
  · exact hinv.emptied ⟨_, hret, rfl⟩

/-- The reader has taken the handle and is aborted where it waits for the exit. -/
def abortedKill : List (Action String) :=
  [.act .readerStep, .act .readerStep, .act .readerStep, .act .shutdown, .startKill .reader] ++
    List.replicate 9 (.act (.shutdownStep 0)) ++
    [.act (.cancel .wait), .act (.cancel .writer), .act (.cancel .reader),
      .act (.cancel .stderr)] ++
    List.replicate 6 (.act (.shutdownStep 0))

theorem child_taken_once_aborted :
    ∃ w, run (System.step "null") (.new "codex") abortedKill = some w ∧
      w.sys.client.reader = .cancelled ∧ .returned ∈ w.sys.shutdowns ∧
      w.sys.client.slot = false ∧ w.sys.client.connected = false ∧
      w.takers = [.reader] ∧ .reader ∈ w.started := by
  obtain ⟨w, hr, hreader, hret, htakers, hfree⟩ : ∃ w,
      run (System.step "null") (.new "codex") abortedKill = some w ∧
        w.sys.client.reader = .cancelled ∧ .returned ∈ w.sys.shutdowns ∧
        w.takers = [.reader] ∧ w.holding = [] :=
    exists_run _ (by decide)
  obtain ⟨-, hempty, hslot⟩ := child_taken_once "null" "codex" abortedKill w hr
  obtain ⟨hconnected, p, hp, hstarted⟩ := hempty (hslot hret)
  rw [htakers] at hp
  cases hp
  refine ⟨w, hr, hreader, hret, hslot hret, hconnected, htakers, ?_⟩
  rcases hstarted with hstarted | ⟨⟨w', hw', -⟩, -⟩
  · exact hstarted
  · have hholds := (System.step_startKill hw').1
    rw [hfree] at hholds
    cases hholds

end Ccgonext.ChildSlot
