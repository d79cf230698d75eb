import Ccgonext.Correlation

/-!
# Nobody waits for a closed client

`send_request` looks at `connected`, enters the table and looks again. The reader
and `shutdown` store `false` before they fail what is in the table. So once one
of them is through, an entry belongs to a call that has yet to look again, or
has looked, found the client closed and has not taken its entry out, and a call
that waits on its response channel has its answer.
-/

namespace Ccgonext.Teardown
open Lib Lib.Runs Lib.Pool Client Correlation

variable {Value : Type}

def leaving : ReaderPc → Bool
  | .takeChild | .waitChild | .failPending | .done => true
  | .reading | .storeClosed | .cancelled => false

def stored : ShutdownPc → Bool
  | .callbacks | .store | .dropped => false
  | _ => true

def Drained (s : Sys Value) : Prop := s.client.reader = .done ∨ .returned ∈ s.shutdowns

def unsettled : CallPc Value → Bool
  | .recheck _ | .removeClosed | .dropped .removeClosed => true
  | _ => false

theorem unsettled_cases {pc : CallPc Value} (h : unsettled pc = true) :
    (∃ line, pc = .recheck line) ∨ pc = .removeClosed ∨ pc = .dropped .removeClosed := by
  cases pc with
  | recheck line => exact .inl ⟨line, rfl⟩
  | removeClosed => exact .inr (.inl rfl)
  | dropped place =>
    cases place <;> first
      | exact .inr (.inr rfl)
      | cases h
  | _ => cases h

section Steps
variable {null : Value} {s s' : Sys Value} {a : Action Value} {c c' : AcpClient Value}

structure Closing (s s' : Sys Value) : Prop where
  connected : s'.client.connected = true → s.client.connected = true
  leaving : leaving s'.client.reader = true →
    leaving s.client.reader = true ∨ s'.client.connected = false
  done : s'.client.reader = .done → s.client.reader = .done ∨ s'.client.pending.entries = []
  stored : (∃ pc ∈ s'.shutdowns, stored pc = true) →
    (∃ pc ∈ s.shutdowns, stored pc = true) ∨ s'.client.connected = false
  returned : .returned ∈ s'.shutdowns → .returned ∈ s.shutdowns ∨ s'.client.pending.entries = []

theorem Closing.beside (hconnected : s'.client.connected = true → s.client.connected = true)
    (hreader : s'.client.reader = s.client.reader) (hshutdowns : s'.shutdowns = s.shutdowns) :
    Closing s s' := by
  refine ⟨hconnected, ?_, ?_, ?_, ?_⟩
  · rw [hreader]
    exact .inl
  · rw [hreader]
    exact .inl
  · rw [hshutdowns]
    exact .inl
  · rw [hshutdowns]
    exact .inl

theorem Closing.closed (h : Closing s s') (hno : s.client.connected = false) :
    s'.client.connected = false := by
  rw [← Bool.not_eq_true] at hno ⊢
  exact fun hyes => hno (h.connected hyes)

theorem writerStep_beside {written : Bool} (h : c.writerStep written = some c') :
    (c'.connected = true → c.connected = true) ∧ c'.reader = c.reader := by
  simp only [AcpClient.writerStep] at h
  repeat' split at h
  all_goals
    cases h
    try exact ⟨id, rfl⟩
    try exact ⟨by intros; contradiction, rfl⟩

theorem waitStep_beside {exited : Bool} (h : c.waitStep exited = some c') :
    (c'.connected = true → c.connected = true) ∧ c'.reader = c.reader := by
  cases hw : c.wait <;> simp only [AcpClient.waitStep, hw] at h
  case storeClosed =>
    cases h
    exact ⟨by intros; contradiction, rfl⟩
  all_goals
    cases h
    try exact ⟨id, rfl⟩

theorem terminateStep_beside {pc pc' : TerminatePc} (h : terminateStep c pc = some (c', pc')) :
    (c'.connected = true → c.connected = true) ∧ c'.reader = c.reader := by
  cases pc <;> cases h
  · exact ⟨nofun, rfl⟩
  · exact ⟨id, rfl⟩

theorem callStep_beside {i : ℕ} {q q' : RequestCall Value} {line : Except String String}
    (h : callStep i c q line = some (c', q')) :
    c'.connected = c.connected ∧ c'.reader = c.reader := by
  obtain ⟨id, pc⟩ := q
  cases pc <;> cases id <;> simp only [callStep] at h
  case sendLine.none | sendLine.some =>
    split at h
    · obtain ⟨d, hp, hd⟩ := Option.map_eq_some_iff.mp h
      cases hd
      exact (AcpClient.post_quiet hp).2.2
    · cases h
      exact ⟨rfl, rfl⟩
  all_goals
    repeat' split at h
    all_goals
      cases h
      try exact ⟨rfl, rfl⟩

theorem readerStep_closing (h : s.client.readerStep = some c) :
    Closing s { s with client := c } := by
  cases hr : s.client.reader <;> simp only [AcpClient.readerStep, hr] at h
  case reading =>
    cases h
    exact ⟨id, by intros; contradiction, by intros; contradiction, .inl, .inl⟩
  case storeClosed =>
    cases h
    exact ⟨by intros; contradiction, fun _ => .inr rfl, by intros; contradiction, .inl, .inl⟩
  case takeChild =>
    cases h
    refine ⟨id, fun _ => .inl (by rw [hr]; rfl), ?_, .inl, .inl⟩
    simp only
    split <;> (intros; contradiction)
  case waitChild =>
    cases h
    exact ⟨id, fun _ => .inl (by rw [hr]; rfl), by intros; contradiction, .inl, .inl⟩
  case failPending =>
    cases h
    exact ⟨id, fun _ => .inl (by rw [hr]; rfl), fun _ => .inr rfl, .inl, .inl⟩
  all_goals cases h

theorem shutdownStep_beside {pc pc' : ShutdownPc} (h : shutdownStep c pc = some (c', pc')) :
    (c'.connected = true → c.connected = true) ∧ c'.reader = c.reader ∧
      (stored pc' = true → stored pc = true ∨ c'.connected = false) ∧
      (pc' = .returned → c'.pending.entries = []) := by
  cases pc <;> simp only [shutdownStep] at h
  case callbacks =>
    cases h
    exact ⟨id, rfl, by intros; contradiction, by intros; contradiction⟩
  case store =>
    cases h
    exact ⟨by intros; contradiction, rfl, fun _ => .inr rfl, by intros; contradiction⟩
  case trySend =>
    cases h
    have hpost : (c.post .shutdown).getD c = c ∨
        c.post .shutdown = some ((c.post .shutdown).getD c) := by
      cases c.post .shutdown with
      | none => exact .inl rfl
      | some d => exact .inr rfl
    rcases hpost with hsame | hpost
    · rw [hsame]
      exact ⟨id, rfl, fun _ => .inl rfl, by intros; contradiction⟩
    · obtain ⟨-, -, hconnected, hreader⟩ := AcpClient.post_quiet hpost
      exact ⟨fun h => hconnected ▸ h, hreader, fun _ => .inl rfl, by intros; contradiction⟩
  case kill | killAgain =>
    cases h
    refine ⟨id, rfl, fun _ => .inl rfl, ?_⟩
    split <;> (intros; contradiction)
  case takeHandle task taken =>
    cases h
    refine ⟨id, rfl, fun _ => .inl rfl, ?_⟩
    cases task <;> (intros; contradiction)
  case join task taken =>
    split at h <;> cases h
    refine ⟨id, rfl, fun _ => .inl rfl, ?_⟩
    cases task <;> (intros; contradiction)
  case failPending =>
    cases h
    exact ⟨id, rfl, fun _ => .inl rfl, fun _ => rfl⟩
  case returned | dropped => cases h
  all_goals
    cases h
    exact ⟨id, rfl, fun _ => .inl rfl, by intros; contradiction⟩

theorem Closing.shutdown {k : ℕ} {pc pc' : ShutdownPc} (hk : s.shutdowns[k]? = some pc)
    (hconnected : c.connected = true → s.client.connected = true)
    (hreader : c.reader = s.client.reader)
    (hstored : Teardown.stored pc' = true → Teardown.stored pc = true ∨ c.connected = false)
    (hreturned : pc' = .returned → c.pending.entries = []) :
    Closing s { s with client := c, shutdowns := s.shutdowns.set k pc' } := by
  refine ⟨hconnected, ?_, ?_, ?_, fun hr => ?_⟩
  · simp only [hreader]
    exact .inl
  · simp only [hreader]
    exact .inl
  · rintro ⟨q, hq, hst⟩
    rcases List.mem_or_eq_of_mem_set hq with hq | rfl
    · exact .inl ⟨q, hq, hst⟩
    · rcases hstored hst with hst | hclosed
      · exact .inl ⟨pc, List.mem_of_getElem? hk, hst⟩
      · exact .inr hclosed
  · rcases List.mem_or_eq_of_mem_set hr with hr | hr
    · exact .inl hr
    · exact .inr (hreturned hr.symm)

theorem taskStep_closing (h : TaskStep s.client a c) : Closing s { s with client := c } := by
  cases h with
  | post hpost =>
    obtain ⟨-, -, hconnected, hreader⟩ := AcpClient.post_quiet hpost
    exact .beside (fun h => hconnected ▸ h) hreader rfl
  | reader hs => exact readerStep_closing hs
  | writer hs => exact .beside (writerStep_beside hs).1 (writerStep_beside hs).2 rfl
  | wait hs => exact .beside (waitStep_beside hs).1 (waitStep_beside hs).2 rfl
  | stderrEnds => exact .beside id rfl rfl
  | @cancel task =>
    cases task
    case reader => exact ⟨id, by intros; contradiction, by intros; contradiction, .inl, .inl⟩
    all_goals exact .beside id rfl rfl

theorem step_closing (h : s.step null a = some s') : Closing s s' := by
  cases step_takes h with
  | task htask => exact taskStep_closing htask
  | call | dropCall | terminate => exact .beside id rfl rfl
  | callStep _ hs =>
    obtain ⟨hconnected, hreader⟩ := callStep_beside hs
    exact .beside (fun h => hconnected ▸ h) hreader rfl
  | line l =>
    have hsame : (s.handle null l).connected = s.client.connected ∧
        (s.handle null l).reader = s.client.reader := by
      unfold Sys.handle
      split <;> exact ⟨rfl, rfl⟩
    exact .beside (fun h => hsame.1 ▸ h) hsame.2 rfl
  | terminateStep _ hs =>
    exact .beside (terminateStep_beside hs).1 (terminateStep_beside hs).2 rfl
  | shutdown =>
    refine ⟨id, .inl, .inl, ?_, fun hr => ?_⟩
    · rintro ⟨q, hq, hst⟩
      rcases List.mem_append.mp hq with hq | hq
      · exact .inl ⟨q, hq, hst⟩
      · rw [List.mem_singleton.mp hq] at hst
        cases hst
    · rcases List.mem_append.mp hr with hr | hr
      · exact .inl hr
      · cases List.mem_singleton.mp hr
  | shutdownStep hk hs =>
    obtain ⟨hconnected, hreader, hstored, hreturned⟩ := shutdownStep_beside hs
    exact .shutdown hk hconnected hreader hstored hreturned
  | dropShutdown hk =>
    exact .shutdown hk id rfl (by intros; contradiction) (by intros; contradiction)

end Steps

structure Inv (s : Sys Value) : Prop where
  calls : Correlation.Inv s
  leaving : leaving s.client.reader = true → s.client.connected = false
  stored : (∃ pc ∈ s.shutdowns, stored pc = true) → s.client.connected = false
  settled : Drained s → ∀ id i, (id, i) ∈ s.client.pending.entries →
    ∃ c, s.calls[i]? = some c ∧ unsettled c.pc = true

theorem inv_new (agent : String) : Inv (Sys.new agent : Sys Value) := by
  refine ⟨Correlation.inv_new agent, nofun, ?_, fun _ id i hm => absurd hm List.not_mem_nil⟩
  rintro ⟨pc, hpc, -⟩
  exact absurd hpc List.not_mem_nil

section Run
variable {null : Value} {agent : String} {s s' t : Sys Value} {a : Action Value}
  {as : List (Action Value)}

theorem Inv.closed (h : Inv s) (hd : Drained s) : s.client.connected = false := by
  rcases hd with hdone | hreturned
  · exact h.leaving (by rw [hdone]; rfl)
  · exact h.stored ⟨_, hreturned, rfl⟩

theorem step_drained (hc : Closing s s') (hd : Drained s') :
    Drained s ∨ s'.client.pending.entries = [] := by
  rcases hd with hdone | hreturned
  · exact (hc.done hdone).imp_left .inl
  · exact (hc.returned hreturned).imp_left .inr

theorem unsettled_step {i : ℕ} {c : RequestCall Value} {id : ℤ} (h : Correlation.Inv s)
    (hclosed : s.client.connected = false) (hs : s.step null a = some s')
    (hc : s.calls[i]? = some c) (hu : unsettled c.pc = true)
    (hm : (id, i) ∈ s'.client.pending.entries) :
    ∃ c', s'.calls[i]? = some c' ∧ unsettled c'.pc = true := by
  obtain ⟨c', hc', hchange⟩ := step_call hs hc
  refine ⟨c', hc', ?_⟩
  cases hchange with
  | kept => exact hu
  | dropped hat =>
    rcases unsettled_cases hu with ⟨line, hpc⟩ | hpc | hpc <;> rw [hpc] at hat ⊢
    · cases hat
    · rfl
    · cases hat
  | own hstep =>
    obtain ⟨d, client, d', hd, hdstep, rfl⟩ := Sys.step_callStep hs
    rw [hc] at hd
    cases hd
    obtain ⟨q, pc⟩ := c
    rcases unsettled_cases hu with ⟨line, rfl⟩ | rfl | rfl
    · cases q <;> simp only [callStep, hclosed, Bool.false_eq_true, ↓reduceIte] at hstep <;>
        · cases hstep
          rfl
    · cases q with
      | none => cases hstep
      | some k =>
        cases hdstep
        obtain ⟨hm, hne⟩ := Pending.mem_resolve.mp hm
        exact absurd (h.entry_id hc rfl hm) hne
    · cases q <;> cases hstep

theorem step_inv (h : Inv s) (hs : s.step null a = some s') : Inv s' := by
  have hc := step_closing hs
  refine ⟨Correlation.step_inv h.calls hs, fun hl => ?_, fun hst => ?_, fun hd id i hm => ?_⟩
  · exact (hc.leaving hl).elim (fun hl => hc.closed (h.leaving hl)) id
  · exact (hc.stored hst).elim (fun hst => hc.closed (h.stored hst)) id
  · rcases step_drained hc hd with hd | hempty
    · rcases step_entries hs hm with hold | ⟨c, line, -, -, hc'⟩
      · obtain ⟨c, hcall, hu⟩ := h.settled hd id i hold
        exact unsettled_step h.calls (h.closed hd) hs hcall hu hm
      · exact ⟨_, hc', rfl⟩
    · rw [hempty] at hm
      exact absurd hm List.not_mem_nil

theorem run_inv (hr : run (Sys.step null) (.new agent) as = some t) : Inv t :=
  preserved (fun _ _ _ h hs => step_inv h hs) (inv_new agent) hr

end Run

/-- Once the reader is through its exit path, or a shutdown has returned, an entry
belongs to a call that has not made its second check, or has found the client
closed there and has not taken its entry out, and every call that waits on its
response channel has been answered. -/
theorem drained_unsettled (null : Value) (agent : String) (as : List (Action Value))
    (t : Sys Value) (hr : run (Sys.step null) (.new agent) as = some t)
    (hd : t.client.reader = .done ∨ .returned ∈ t.shutdowns) :
    (∀ id i, (id, i) ∈ t.client.pending.entries → ∃ c, t.calls[i]? = some c ∧ c.id = some id ∧
      ((∃ line, c.pc = .recheck line) ∨ c.pc = .removeClosed ∨ c.pc = .dropped .removeClosed)) ∧
    ∀ i c, t.calls[i]? = some c → c.pc = .awaitResponse →
      ∃ r, t.client.pending.poll i = .ready r := by
  have hI := run_inv hr
  constructor
  · intro id i hm
    obtain ⟨c, hc, hu⟩ := hI.settled hd id i hm
    obtain ⟨d, hd, hid⟩ := hI.calls.entry_call hm
    rw [hc] at hd
    cases hd
    exact ⟨c, hc, hid, unsettled_cases hu⟩
  · intro i c hc hpc
    have hat := hI.calls.call i c hc
    obtain ⟨id, hid⟩ := hat.numbered (by rw [hpc]; rfl)
    rcases hat.waiting id hid (by rw [hpc]; rfl) with hm | ⟨r, hr⟩
    · obtain ⟨d, hd, hu⟩ := hI.settled hd id i hm
      rw [hc] at hd
      cases hd
      rw [hpc] at hu
      cases hu
    · exact ⟨r, Pending.poll_ready.mpr hr⟩

/-- A call awaits its response while the client is shut down. -/
def shutDownRun : List (Action String) :=
  .call :: List.replicate 6 (.callStep 0 (.ok "request")) ++
    .shutdown :: List.replicate 10 (.shutdownStep 0) ++
    [.cancel .wait, .cancel .writer, .cancel .reader, .cancel .stderr] ++
    List.replicate 6 (.shutdownStep 0)

theorem drained_unsettled_shutDown :
    ∃ t r, run (Sys.step "null") (.new "codex") shutDownRun = some t ∧
      .returned ∈ t.shutdowns ∧ t.calls[0]? = some ⟨some 1, .awaitResponse⟩ ∧
      t.client.pending.poll 0 = .ready r := by
  obtain ⟨t, hr, hdown, hc⟩ : ∃ t, run (Sys.step "null") (.new "codex") shutDownRun = some t ∧
      .returned ∈ t.shutdowns ∧ t.calls[0]? = some ⟨some 1, .awaitResponse⟩ :=
    exists_run _ (by decide)
  obtain ⟨r, hr'⟩ := (drained_unsettled "null" "codex" shutDownRun t hr (.inr hdown)).2 0 _ hc rfl
  exact ⟨t, r, hr, hdown, hc, hr'⟩

/-- A call enters the table after the reader has gone through its exit path, and
looks again. -/
def enteredLate : List (Action String) :=
  .call :: List.replicate 3 (.callStep 0 (.ok "request")) ++ List.replicate 5 .readerStep ++
    List.replicate 2 (.callStep 0 (.ok ""))

theorem rechecked_in_table :
    ∃ t, run (Sys.step "null") (.new "codex") enteredLate = some t ∧ t.client.reader = .done ∧
      (1, 0) ∈ t.client.pending.entries ∧ t.calls[0]? = some ⟨some 1, .removeClosed⟩ :=
  exists_run _ (by decide)

end Ccgonext.Teardown
