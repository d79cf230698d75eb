import Ccgonext.Turns
import Mathlib.Data.List.Sort

/-!
# What the agent sends for a prompt

A session that has had one client at most, client 0, and the agent behind it. The
agent sends updates only while it works on a prompt, from the call that sends it
until its answer, and each update is for one of the prompts it works on. Its lines
are taken here when the reader reads them, in the order in which they were sent.
An answer that no call waits for any more changes nothing else.

`said` has the updates with the asks whose prompts they were for, and `prompts`
names for each append of the log the prompt of the update that it came from.
-/

namespace Ccgonext.Dialogue
open Lib Lib.Runs Lib.CriticalSection Events EventOrder Session Updates Conversation

structure Talk where
  world : World
  working : List ℕ
  said : List (ℕ × SessionUpdate)
  prompts : List (Option ℕ)

def Talk.new (id agent : String) (maxEntries now : ℕ) : Talk :=
  ⟨.new id agent maxEntries now, [], [], []⟩

inductive Action
  | world (a : Conversation.Action)
  | update (i : ℕ) (update : SessionUpdate)
  | answer (i : ℕ)
  deriving DecidableEq, Repr

def own : Conversation.Action → Bool
  | .update _ _ | .respond _ => false
  | _ => true

def prompted (w : World) : Conversation.Action → List ℕ
  | .session (.askStep i _) =>
    match w.sys.asks[i]? with
    | some (.prompt ..) => [i]
    | _ => []
  | _ => []

def messageText : SessionUpdate → Option String
  | .agentMessageChunk (.text text) => some text
  | _ => none

namespace Talk

def labelled (d : Talk) (w : World) (prompt : Option ℕ) : List (Option ℕ) :=
  d.prompts ++
    List.replicate (w.hist.sys.appends.length - d.world.hist.sys.appends.length) prompt

def step (d : Talk) : Action → Option Talk
  | .world a =>
    match d.world.step a with
    | none => none
    | some w =>
      if own a ∧ w.sys.session.spawned ≤ 1 then
        some ⟨w, prompted d.world a ++ d.working, d.said, d.labelled w none⟩
      else none
  | .update i update =>
    match d.world.step (.update 0 update) with
    | none => none
    | some w =>
      if i ∈ d.working then
        some ⟨w, d.working, d.said ++ [(i, update)], d.labelled w (some i)⟩
      else none
  | .answer i =>
    if i ∈ d.working ∧ d.world.reading 0 then
      some
        { d with
          world := (d.world.step (.respond i)).getD d.world
          working := d.working.filter (· ≠ i) }
    else none

def saidFor (d : Talk) (i : ℕ) : List SessionUpdate :=
  (d.said.filter (·.1 = i)).map Prod.snd

/-- What the agent has said to the prompt of ask `i`: its message chunks with a
text, one after the other. -/
def answerTo (d : Talk) (i : ℕ) : String :=
  String.join (((d.saidFor i).filterMap messageText).filter (· ≠ ""))

def promptOf (d : Talk) (e : SessionEvent) : Option ℕ := d.prompts[e.seq - 1]?.join

def drawn (d : Talk) : List SessionEvent := d.world.hist.sys.appends.map AppendCall.event

def about (d : Talk) (i : ℕ) : List SessionEvent :=
  ((d.prompts.zip d.drawn).filter (·.1 = some i)).map Prod.snd

/-- Fewer than `max_entries` events were pushed between the load of `start_seq`
and the read of the log. -/
def Roomy (d : Talk) (i : ℕ) : Prop :=
  (d.world.turns i).history.length - (d.world.turns i).mark < d.world.hist.log.maxEntries

/-- No chunk that was sent for another prompt had got into the log behind
`start_seq` by the time it was read. -/
def Undisturbed (d : Talk) (i : ℕ) : Prop :=
  ∀ e ∈ (d.world.turns i).history, isChunk d.world.id e = true →
    (d.world.turns i).start ≤ e.seq → d.promptOf e = some i

/-- No ask loads `start_seq` while the agent works on a prompt. -/
def Alone (d : Talk) : Action → Prop
  | .world (.session (.askStep i _)) =>
    d.world.sys.asks[i]? = some .startSeq → d.working = []
  | _ => True

instance (d : Talk) (i : ℕ) : Decidable (d.Roomy i) := inferInstanceAs (Decidable (_ < _))

instance (d : Talk) (a : Action) : Decidable (d.Alone a) := by
  unfold Alone
  split <;> infer_instance

end Talk

section Steps
variable {d d' : Talk} {w w' : World} {a : Conversation.Action} {i : ℕ}
  {update : SessionUpdate}

theorem step_world (h : d.step (.world a) = some d') :
    own a = true ∧ d.world.step a = some d'.world ∧
      d'.working = prompted d.world a ++ d.working ∧ d'.said = d.said ∧
      d'.prompts = d.labelled d'.world none := by
  simp only [Talk.step] at h
  split at h
  · cases h
  · next w hw =>
    split at h
    · next hguard =>
      cases h
      exact ⟨hguard.1, hw, rfl, rfl, rfl⟩
    · cases h

theorem step_update (h : d.step (.update i update) = some d') :
    i ∈ d.working ∧ d.world.step (.update 0 update) = some d'.world ∧
      d'.working = d.working ∧ d'.said = d.said ++ [(i, update)] ∧
      d'.prompts = d.labelled d'.world (some i) := by
  simp only [Talk.step] at h
  split at h
  · cases h
  · next w hw =>
    split at h
    · next hmem =>
      cases h
      exact ⟨hmem, hw, rfl, rfl, rfl⟩
    · cases h

theorem step_answer (h : d.step (.answer i) = some d') :
    i ∈ d.working ∧ d.world.reading 0 = true ∧
      (d'.world = d.world ∨ d.world.step (.respond i) = some d'.world) ∧
      d'.working = d.working.filter (· ≠ i) ∧ d'.said = d.said ∧ d'.prompts = d.prompts := by
  simp only [Talk.step] at h
  split at h
  · next hguard =>
    cases h
    refine ⟨hguard.1, hguard.2, ?_, rfl, rfl, rfl⟩
    cases hw : d.world.step (.respond i) with
    | none => exact .inl rfl
    | some w => exact .inr rfl
  · cases h

theorem draw_writers {writer : Writer} {sessionId agent : String} {payload : EventPayload}
    (h : w.draw writer sessionId agent payload = some w') :
    w'.writers = w.writers ++ [writer] := by
  unfold World.draw at h
  split at h
  · cases h
  · cases h
    rfl

theorem emit_writers {writer : Writer} {payloads : List EventPayload}
    (hwriter : ∀ client, writer ≠ .reader client) (h : w.emit writer payloads = some w') :
    w'.writers = w.writers ∨
      ∃ writer, (∀ client, writer ≠ .reader client) ∧ w'.writers = w.writers ++ [writer] := by
  cases payloads with
  | nil =>
    cases h
    exact .inl rfl
  | cons payload payloads => exact .inr ⟨writer, hwriter, draw_writers h⟩

theorem own_writers (ha : own a = true) (h : w.step a = some w') :
    w'.writers = w.writers ∨
      ∃ writer, (∀ client, writer ≠ .reader client) ∧ w'.writers = w.writers ++ [writer] := by
  cases a with
  | session a =>
    cases a with
    | ask | shutdown =>
      cases h
      exact .inl rfl
    | askStep i o =>
      obtain ⟨pc, session, pc', -, -, -, -, hemit⟩ := askStep_emit h
      have hnew := emit_writers (fun _ hc => by cases hc) hemit
      exact hnew
    | shutdownStep j =>
      obtain ⟨pc, session, pc', -, hemit⟩ := shutdownStep_emit h
      have hnew := emit_writers (fun _ hc => by cases hc) hemit
      exact hnew
    | drop i =>
      obtain ⟨pc, -, -, rfl⟩ := drop_inv h
      exact .inl rfl
  | update | respond => cases ha
  | exit client =>
    obtain rfl := exit_inv h
    exact .inl rfl
  | other sessionId agent payload =>
    obtain ⟨-, hdraw⟩ := other_inv h
    exact .inr ⟨.other, fun _ hc => (by cases hc), draw_writers hdraw⟩
  | push k | send k =>
    obtain ⟨hist, -, rfl⟩ := Option.map_eq_some_iff.mp h
    exact .inl rfl

end Steps

inductive Effect (d d' : Talk) : Prop
  | same (hhist : d'.world.hist = d.world.hist) (hwriters : d'.world.writers = d.world.writers)
      (hprompts : d'.prompts = d.prompts)
      (hsaid : d'.said = d.said ∨
        ∃ i update, handleSessionUpdate update = none ∧ d'.said = d.said ++ [(i, update)])
  | other {writer : Writer} {sessionId agent : String} {payload : EventPayload}
      (hwriter : ∀ client, writer ≠ .reader client)
      (hforeign : sessionId = d.world.id → payload.chunkText = none)
      (hstep : d.world.hist.step (.draw sessionId agent payload) = some d'.world.hist)
      (hwriters : d'.world.writers = d.world.writers ++ [writer])
      (hprompts : d'.prompts = d.prompts ++ [none]) (hsaid : d'.said = d.said)
  | read {i : ℕ} {update : SessionUpdate} {payload : EventPayload} (hi : i ∈ d.working)
      (hidle : d.world.idle (.reader 0) = true)
      (hupdate : handleSessionUpdate update = some payload)
      (hstep : d.world.hist.step (.draw d.world.id d.world.agent payload) = some d'.world.hist)
      (hwriters : d'.world.writers = d.world.writers ++ [.reader 0])
      (hprompts : d'.prompts = d.prompts ++ [some i]) (hsaid : d'.said = d.said ++ [(i, update)])
  | push {k : ℕ} (hstep : d.world.hist.step (.push k) = some d'.world.hist)
      (hwriters : d'.world.writers = d.world.writers) (hprompts : d'.prompts = d.prompts)
      (hsaid : d'.said = d.said)
  | send {k : ℕ} (hstep : d.world.hist.step (.send k) = some d'.world.hist)
      (hwriters : d'.world.writers = d.world.writers) (hprompts : d'.prompts = d.prompts)
      (hsaid : d'.said = d.said)

section Effects
variable {d d' : Talk} {a : Action}

theorem logged_cases {id : String} {hist hist' : History} {writers writers' : List Writer}
    (h : Logged id hist writers hist' writers') :
    hist' = hist ∧ writers' = writers ∨
      (∃ writer sessionId agent payload, hist.step (.draw sessionId agent payload) = some hist' ∧
        writers' = writers ++ [writer] ∧ (sessionId = id → payload.chunkText.isSome →
          ∃ client, writer = .reader client)) ∨
      (∃ k, hist.step (.push k) = some hist' ∧ writers' = writers) ∨
      ∃ k, hist.step (.send k) = some hist' ∧ writers' = writers := by
  cases h with
  | same => exact .inl ⟨rfl, rfl⟩
  | draw hown hstep => exact .inr (.inl ⟨_, _, _, _, hstep, rfl, hown⟩)
  | push hstep => exact .inr (.inr (.inl ⟨_, hstep, rfl⟩))
  | send hstep => exact .inr (.inr (.inr ⟨_, hstep, rfl⟩))

theorem draw_appends {h h' : History} {sessionId agent : String} {payload : EventPayload}
    (hs : h.step (.draw sessionId agent payload) = some h') :
    h'.sys.appends = h.sys.appends ++ [⟨h.sys.drawn sessionId agent payload, .push⟩] ∧
      h'.pushed = h.pushed := by
  cases hs
  exact ⟨rfl, List.append_nil _⟩

theorem labelled_same {w : World} {prompt : Option ℕ}
    (h : w.hist.sys.appends.length = d.world.hist.sys.appends.length) :
    d.labelled w prompt = d.prompts := by
  rw [Talk.labelled, h, Nat.sub_self]
  exact List.append_nil _

theorem labelled_draw {w : World} {prompt : Option ℕ}
    (h : w.hist.sys.appends.length = d.world.hist.sys.appends.length + 1) :
    d.labelled w prompt = d.prompts ++ [prompt] := by
  rw [Talk.labelled, h, Nat.add_sub_cancel_left]
  rfl

theorem length_push {h h' : History} {k : ℕ} (hs : h.step (.push k) = some h') :
    h'.sys.appends.length = h.sys.appends.length := by
  obtain ⟨e, -, -, hsys⟩ := History.step_push hs
  rw [hsys, List.length_set]

theorem length_send {h h' : History} {k : ℕ} (hs : h.step (.send k) = some h') :
    h'.sys.appends.length = h.sys.appends.length := by
  obtain ⟨e, -, -, hsys⟩ := History.step_send hs
  rw [hsys, List.length_set]

theorem length_draw {h h' : History} {sessionId agent : String} {payload : EventPayload}
    (hs : h.step (.draw sessionId agent payload) = some h') :
    h'.sys.appends.length = h.sys.appends.length + 1 := by
  rw [(draw_appends hs).1, List.length_append, List.length_singleton]

theorem step_effect (h : d.step a = some d') :
    d'.world.id = d.world.id ∧ Effect d d' := by
  cases a with
  | world a =>
    obtain ⟨hown, hw, -, hsaid, hprompts⟩ := step_world h
    obtain ⟨hlog, hid, -⟩ := step_stepped hw
    refine ⟨hid, ?_⟩
    rcases logged_cases hlog with ⟨hhist, hwriters⟩ | ⟨writer, sessionId, agent, payload, hstep,
      hwriters, hreader⟩ | ⟨k, hstep, hwriters⟩ | ⟨k, hstep, hwriters⟩
    · exact .same hhist hwriters (hprompts.trans (labelled_same (by rw [hhist]))) (.inl hsaid)
    · have hwriter : ∀ client, writer ≠ .reader client := by
        rcases own_writers hown hw with hsame | ⟨writer', hne, hnew⟩
        · rw [hwriters] at hsame
          exact absurd hsame (by simp)
        · rw [hwriters, List.append_cancel_left_eq, List.cons.injEq] at hnew
          rw [hnew.1]
          exact hne
      refine .other hwriter (fun hsid => ?_) hstep hwriters
        (hprompts.trans (labelled_draw (length_draw hstep))) hsaid
      rw [← Option.not_isSome_iff_eq_none]
      intro hchunk
      obtain ⟨client, hc⟩ := hreader hsid hchunk
      exact hwriter client hc
    · exact .push hstep hwriters (hprompts.trans (labelled_same (length_push hstep))) hsaid
    · exact .send hstep hwriters (hprompts.trans (labelled_same (length_send hstep))) hsaid
  | update i update =>
    obtain ⟨hi, hw, -, hsaid, hprompts⟩ := step_update h
    obtain ⟨hreading, hnone | ⟨payload, hist, hupdate, hstep, hworld⟩⟩ := update_inv hw
    · obtain ⟨hupdate, hworld⟩ := hnone
      rw [hworld] at hprompts ⊢
      refine ⟨rfl, .same (by rw [hworld]) (by rw [hworld]) (hprompts.trans (labelled_same rfl))
        (.inr ⟨i, update, hupdate, hsaid⟩)⟩
    · have hdraw : d.world.hist.step (.draw d.world.id d.world.agent payload) =
          some d'.world.hist := by rw [hworld, hstep]
      simp only [World.reading, Bool.decide_and, Bool.and_eq_true, decide_eq_true_eq] at hreading
      exact ⟨by rw [hworld], .read hi hreading.2.2 hupdate hdraw (by rw [hworld])
        (hprompts.trans (labelled_draw (length_draw hdraw))) hsaid⟩
  | answer i =>
    obtain ⟨-, -, hworld, -, hsaid, hprompts⟩ := step_answer h
    rcases hworld with hsame | hw
    · rw [hsame]
      exact ⟨rfl, .same (by rw [hsame]) (by rw [hsame]) hprompts (.inl hsaid)⟩
    · obtain ⟨start, client, -, hworld⟩ := respond_inv hw
      rw [hworld]
      exact ⟨rfl, .same (by rw [hworld]) (by rw [hworld]) hprompts (.inl hsaid)⟩

end Effects

structure Labelled (d : Talk) : Prop where
  writers : d.world.writers.length = d.drawn.length
  prompts : d.prompts.length = d.drawn.length
  reader : ∀ (k i : ℕ), d.prompts[k]? = some (some i) → d.world.writers[k]? = some (.reader 0)
  mine : ∀ (k i : ℕ) (e : SessionEvent), d.prompts[k]? = some (some i) → d.drawn[k]? = some e →
    e.sessionId = d.world.id
  chunk : ∀ (k : ℕ) (e : SessionEvent), d.drawn[k]? = some e → isChunk d.world.id e = true →
    (∃ i, d.prompts[k]? = some (some i)) ∧ e.payload.chunkText ≠ some ""
  said : ∀ i, (d.about i).map SessionEvent.payload =
    (d.saidFor i).filterMap handleSessionUpdate

section Labels
variable {d d' : Talk} {i : ℕ}

theorem drawn_draw {sessionId agent : String} {payload : EventPayload}
    (hstep : d.world.hist.step (.draw sessionId agent payload) = some d'.world.hist) :
    d'.drawn = d.drawn ++ [d.world.hist.sys.drawn sessionId agent payload] := by
  rw [Talk.drawn, (draw_appends hstep).1, List.map_append]
  rfl

theorem drawn_push {k : ℕ} (hstep : d.world.hist.step (.push k) = some d'.world.hist) :
    d'.drawn = d.drawn := by
  obtain ⟨e, hk, -, hsys⟩ := History.step_push hstep
  rw [Talk.drawn, hsys]
  exact History.map_event_set hk

theorem drawn_send {k : ℕ} (hstep : d.world.hist.step (.send k) = some d'.world.hist) :
    d'.drawn = d.drawn := by
  obtain ⟨e, hk, -, hsys⟩ := History.step_send hstep
  rw [Talk.drawn, hsys]
  exact History.map_event_set hk

theorem about_concat {label : Option ℕ} {e : SessionEvent}
    (hlen : d.prompts.length = d.drawn.length) (hprompts : d'.prompts = d.prompts ++ [label])
    (hdrawn : d'.drawn = d.drawn ++ [e]) :
    d'.about i = d.about i ++ if label = some i then [e] else [] := by
  rw [Talk.about, hprompts, hdrawn, List.zip_append hlen, List.filter_append, List.map_append]
  refine congrArg (_ ++ ·) ?_
  by_cases hlabel : label = some i <;> simp [hlabel]

theorem saidFor_concat {j : ℕ} {update : SessionUpdate}
    (hsaid : d'.said = d.said ++ [(j, update)]) :
    d'.saidFor i = d.saidFor i ++ if j = i then [update] else [] := by
  rw [Talk.saidFor, hsaid, List.filter_append, List.map_append]
  refine congrArg (_ ++ ·) ?_
  by_cases hj : j = i <;> simp [hj]

theorem labelled_new (id agent : String) (maxEntries now : ℕ) :
    Labelled (.new id agent maxEntries now) := by
  refine ⟨rfl, rfl, ?_, ?_, ?_, fun _ => rfl⟩
  · intro k i hk
    cases hk
  · intro k i e hk
    cases hk
  · intro k e hk
    cases hk

theorem Labelled.keep (h : Labelled d) (hid : d'.world.id = d.world.id)
    (hdrawn : d'.drawn = d.drawn) (hwriters : d'.world.writers = d.world.writers)
    (hprompts : d'.prompts = d.prompts)
    (hsaid : ∀ i, (d'.saidFor i).filterMap handleSessionUpdate =
      (d.saidFor i).filterMap handleSessionUpdate) : Labelled d' where
  writers := by rw [hwriters, hdrawn, h.writers]
  prompts := by rw [hprompts, hdrawn, h.prompts]
  reader := by
    rw [hwriters, hprompts]
    exact h.reader
  mine := by
    rw [hid, hdrawn, hprompts]
    exact h.mine
  chunk := by
    rw [hid, hdrawn, hprompts]
    exact h.chunk
  said i := by
    rw [hsaid, ← h.said, Talk.about, hprompts, hdrawn]
    rfl

theorem Labelled.append {writer : Writer} {label : Option ℕ} {e : SessionEvent} (h : Labelled d)
    (hid : d'.world.id = d.world.id) (hdrawn : d'.drawn = d.drawn ++ [e])
    (hwriters : d'.world.writers = d.world.writers ++ [writer])
    (hprompts : d'.prompts = d.prompts ++ [label])
    (hlabel : ∀ i, label = some i → writer = .reader 0 ∧ e.sessionId = d.world.id)
    (hchunk : isChunk d.world.id e = true →
      (∃ i, label = some i) ∧ e.payload.chunkText ≠ some "")
    (hsaid : ∀ i, (d'.saidFor i).filterMap handleSessionUpdate =
      (d.saidFor i).filterMap handleSessionUpdate ++ if label = some i then [e.payload] else []) :
    Labelled d' where
  writers := by rw [hwriters, hdrawn, List.length_append, List.length_append, h.writers]; rfl
  prompts := by rw [hprompts, hdrawn, List.length_append, List.length_append, h.prompts]; rfl
  reader k i hk := by
    have hlen : d.world.writers.length = d.prompts.length := h.writers.trans h.prompts.symm
    rw [hprompts] at hk
    rw [hwriters]
    rcases Pool.spawn_cases hk with hold | ⟨rfl, hnew⟩
    · rw [List.getElem?_append_left]
      · exact h.reader k i hold
      · rw [hlen]
        exact (List.getElem?_eq_some_iff.mp hold).1
    · rw [← hlen, List.getElem?_concat_length, (hlabel i hnew.symm).1]
  mine k i e' hk he := by
    rw [hprompts] at hk
    rw [hdrawn] at he
    rw [hid]
    rcases Pool.spawn_cases hk with hold | ⟨hlast, hnew⟩
    · rcases Pool.spawn_cases he with he | ⟨hlast', -⟩
      · exact h.mine k i e' hold he
      · have hlt := (List.getElem?_eq_some_iff.mp hold).1
        rw [h.prompts] at hlt
        omega
    · rcases Pool.spawn_cases he with he | ⟨-, rfl⟩
      · have hlt := (List.getElem?_eq_some_iff.mp he).1
        rw [h.prompts] at hlast
        omega
      · exact (hlabel i hnew.symm).2
  chunk k e' he hc := by
    rw [hdrawn] at he
    rw [hid] at hc
    rw [hprompts]
    rcases Pool.spawn_cases he with he | ⟨rfl, rfl⟩
    · obtain ⟨⟨i, hi⟩, htext⟩ := h.chunk k e' he hc
      exact ⟨⟨i, by rw [List.getElem?_append_left (List.getElem?_eq_some_iff.mp hi).1, hi]⟩, htext⟩
    · obtain ⟨⟨i, rfl⟩, htext⟩ := hchunk hc
      exact ⟨⟨i, by rw [← h.prompts, List.getElem?_concat_length]⟩, htext⟩
  said i := by
    rw [hsaid, ← h.said, about_concat h.prompts hprompts hdrawn, List.map_append]
    refine congrArg (_ ++ ·) ?_
    split <;> rfl

theorem Labelled.step (h : Labelled d) (hid : d'.world.id = d.world.id) (heffect : Effect d d') :
    Labelled d' := by
  have hsame : d'.said = d.said → ∀ i, (d'.saidFor i).filterMap handleSessionUpdate =
      (d.saidFor i).filterMap handleSessionUpdate := fun hsaid i => by
    rw [Talk.saidFor, hsaid, Talk.saidFor]
  cases heffect with
  | same hhist hwriters hprompts hsaid =>
    refine h.keep hid (by rw [Talk.drawn, hhist]; rfl) hwriters hprompts fun i => ?_
    rcases hsaid with hsaid | ⟨j, update, hupdate, hsaid⟩
    · exact hsame hsaid i
    · rw [saidFor_concat hsaid, List.filterMap_append]
      split <;> simp [hupdate]
  | other hwriter hforeign hstep hwriters hprompts hsaid =>
    refine h.append hid (drawn_draw hstep) hwriters hprompts (fun i hi => by cases hi)
      (fun hchunk => ?_) fun i => ?_
    · obtain ⟨hsid, hsome⟩ := isChunk_iff.mp hchunk
      exact absurd (hforeign hsid) (Option.isSome_iff_ne_none.mp hsome)
    · rw [if_neg (by simp), List.append_nil]
      exact hsame hsaid i
  | @read i update payload hi hidle hupdate hstep hwriters hprompts hsaid =>
    refine h.append hid (drawn_draw hstep) hwriters hprompts (fun _ _ => ⟨rfl, rfl⟩)
      (fun hchunk => ⟨⟨i, rfl⟩, fun htext => ?_⟩) fun j => ?_
    · exact (handleSessionUpdate_chunkText hupdate htext).2 rfl
    · rw [saidFor_concat hsaid, List.filterMap_append]
      by_cases hij : i = j
      · simp [hij, hupdate, LogSys.drawn]
      · simp [hij]
  | push hstep hwriters hprompts hsaid =>
    exact h.keep hid (drawn_push hstep) hwriters hprompts (hsame hsaid)
  | send hstep hwriters hprompts hsaid =>
    exact h.keep hid (drawn_send hstep) hwriters hprompts (hsame hsaid)

end Labels

/-- The reader makes its appends one after the other, so it pushes in the order
of the numbers. -/
structure InOrder (d : Talk) : Prop where
  pushed : ∀ a ∈ d.world.hist.sys.appends, a.stage ≠ .push → a.event ∈ d.world.hist.pushed
  inTurn : ∀ (j k : ℕ) (a : AppendCall), j < k → d.world.writers[j]? = some (.reader 0) →
    d.world.writers[k]? = some (.reader 0) → d.world.hist.sys.appends[j]? = some a →
    a.stage = .done
  rising : Increasing (d.world.hist.pushed.filter fun e =>
    d.world.writers[e.seq - 1]? = some (.reader 0))

section Order
variable {d d' : Talk} {k : ℕ} {e : SessionEvent}

theorem idle_iff {w : World} {writer : Writer} : w.idle writer = true ↔ ∀ (k : ℕ) (a : AppendCall),
    w.writers[k]? = some writer → w.hist.sys.appends[k]? = some a → a.stage = .done := by
  rw [World.idle, List.all_eq_true]
  constructor
  · intro h k a hk ha
    have hmem : (writer, a) ∈ w.writers.zip w.hist.sys.appends :=
      List.mem_of_getElem? (List.getElem?_zip_eq_some.mpr ⟨hk, ha⟩)
    have hor := of_decide_eq_true (h _ hmem)
    exact hor.resolve_left fun hne => hne rfl
  · rintro h ⟨author, a⟩ hmem
    obtain ⟨k, hk⟩ := List.mem_iff_getElem?.mp hmem
    obtain ⟨hauthor, ha⟩ := List.getElem?_zip_eq_some.mp hk
    refine decide_eq_true ?_
    by_cases hne : author = writer
    · subst hne
      exact .inr (h k a hauthor ha)
    · exact .inl hne

theorem inOrder_new (id agent : String) (maxEntries now : ℕ) :
    InOrder (.new id agent maxEntries now) := by
  refine ⟨fun a ha => ?_, fun j k a _ hj => ?_, List.Pairwise.nil⟩
  · cases ha
  · cases hj

theorem inTurn_set {st st' : Stage} (h : InOrder d) (hst : st ≠ .done)
    (hk : d.world.hist.sys.appends[k]? = some ⟨e, st⟩) :
    ∀ (i j : ℕ) (a : AppendCall), i < j → d.world.writers[i]? = some (.reader 0) →
      d.world.writers[j]? = some (.reader 0) →
      (d.world.hist.sys.appends.set k ⟨e, st'⟩)[i]? = some a → a.stage = .done := by
  intro i j a hij hi hj ha
  by_cases hik : k = i
  · subst hik
    exact absurd (h.inTurn k j _ hij hi hj hk) hst
  · rw [List.getElem?_set_ne hik] at ha
    exact h.inTurn i j a hij hi hj ha

theorem InOrder.draw {writer : Writer} {sessionId agent : String} {payload : EventPayload}
    (h : InOrder d) (hkept : d.world.hist.Kept)
    (hlen : d.world.writers.length = d.world.hist.sys.appends.length)
    (hstep : d.world.hist.step (.draw sessionId agent payload) = some d'.world.hist)
    (hwriters : d'.world.writers = d.world.writers ++ [writer])
    (hidle : writer = .reader 0 → d.world.idle (.reader 0) = true) : InOrder d' := by
  obtain ⟨happends, hpushed⟩ := draw_appends hstep
  refine ⟨fun a ha hst => ?_, fun j k a hjk hj hk ha => ?_, ?_⟩
  · rw [happends] at ha
    rw [hpushed]
    rcases List.mem_append.mp ha with ha | ha
    · exact h.pushed a ha hst
    · rw [List.mem_singleton.mp ha] at hst
      exact absurd rfl hst
  · rw [hwriters] at hj hk
    rw [happends] at ha
    have hlt : j < d.world.writers.length := by
      have hk' := (List.getElem?_eq_some_iff.mp hk).1
      rw [List.length_append, List.length_singleton] at hk'
      omega
    rw [List.getElem?_append_left hlt] at hj
    rw [List.getElem?_append_left (by omega)] at ha
    rcases Pool.spawn_cases hk with hk | ⟨-, hlast⟩
    · exact h.inTurn j k a hjk hj hk ha
    · exact idle_iff.mp (hidle hlast.symm) j a hj ha
  · rw [hpushed]
    refine (List.filter_congr fun e he => ?_) ▸ h.rising
    obtain ⟨a, ha, -⟩ := hkept.append_eq he
    have hlt := (List.getElem?_eq_some_iff.mp ha).1
    rw [hwriters, List.getElem?_append_left (by omega)]

theorem InOrder.push (h : InOrder d) (hkept : d.world.hist.Kept)
    (hstep : d.world.hist.step (.push k) = some d'.world.hist)
    (hwriters : d'.world.writers = d.world.writers) : InOrder d' := by
  obtain ⟨e, hk, hpushed, hsys⟩ := History.step_push hstep
  refine ⟨fun a ha hst => ?_, ?_, ?_⟩
  · rw [hsys] at ha
    rw [hpushed]
    rcases List.mem_or_eq_of_mem_set ha with ha | rfl
    · exact List.mem_append_left _ (h.pushed a ha hst)
    · exact List.mem_append_right _ List.mem_cons_self
  · rw [hwriters, hsys]
    exact inTurn_set h (by simp) hk
  · have hseq : e.seq = k + 1 := hkept.numbered.seqs k _ hk
    rw [hwriters, hpushed, List.filter_append, Increasing, List.pairwise_append]
    refine ⟨h.rising, (List.pairwise_singleton _ e).filter _, fun old hold new hnew => ?_⟩
    obtain ⟨hnew, hmine⟩ := List.mem_filter.mp hnew
    obtain ⟨hold, holdmine⟩ := List.mem_filter.mp hold
    cases List.mem_singleton.mp hnew
    obtain ⟨a, ha, rfl, hst, -⟩ := hkept.append_eq hold
    by_contra hlt
    have hne : a.event.seq - 1 ≠ k := by
      intro heq
      rw [heq, hk] at ha
      cases ha
      exact hst rfl
    have hlate : k < a.event.seq - 1 := by omega
    rw [hseq, Nat.add_sub_cancel] at hmine
    have hdone := h.inTurn k _ _ hlate (of_decide_eq_true hmine) (of_decide_eq_true holdmine) hk
    cases hdone

theorem InOrder.send (h : InOrder d) (hstep : d.world.hist.step (.send k) = some d'.world.hist)
    (hwriters : d'.world.writers = d.world.writers) : InOrder d' := by
  obtain ⟨e, hk, hpushed, hsys⟩ := History.step_send hstep
  refine ⟨fun a ha hst => ?_, ?_, ?_⟩
  · rw [hsys] at ha
    rw [hpushed]
    rcases List.mem_or_eq_of_mem_set ha with ha | rfl
    · exact h.pushed a ha hst
    · exact h.pushed ⟨e, .send⟩ (List.mem_of_getElem? hk) (by simp)
  · rw [hwriters, hsys]
    exact inTurn_set h (by simp) hk
  · rw [hwriters, hpushed]
    exact h.rising

theorem InOrder.step (h : InOrder d) (hkept : d.world.hist.Kept)
    (hlen : d.world.writers.length = d.world.hist.sys.appends.length) (heffect : Effect d d') :
    InOrder d' := by
  cases heffect with
  | same hhist hwriters =>
    refine ⟨?_, ?_, ?_⟩
    · rw [hhist]
      exact h.pushed
    · rw [hhist, hwriters]
      exact h.inTurn
    · rw [hhist, hwriters]
      exact h.rising
  | other hwriter hforeign hstep hwriters =>
    exact h.draw hkept hlen hstep hwriters fun hw => absurd hw (hwriter 0)
  | read hi hidle hupdate hstep hwriters =>
    exact h.draw hkept hlen hstep hwriters fun _ => hidle
  | push hstep hwriters => exact h.push hkept hstep hwriters
  | send hstep hwriters => exact h.send hstep hwriters

end Order

end Ccgonext.Dialogue
