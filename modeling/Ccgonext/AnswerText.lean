import Ccgonext.Answer
import Ccgonext.Prompts

/-!
# The text of an answer

Where the log has room for what is appended during a turn, the text that `ask`
returns is what the agent has said to its prompt exactly if no chunk for another
prompt is in the log behind `start_seq`. That is so wherever no ask comes to
`start_seq` while the agent still works on a prompt. It can: an ask whose future is
dropped leaves its prompt behind, and a `shutdown` that has found no client before
can set the turn back to `IDLE` after that.
-/

namespace Ccgonext.Dialogue
open Lib Lib.Runs Lib.CriticalSection Events EventOrder Session Updates Conversation

section Text
variable {events : List SessionEvent} {e : SessionEvent}

theorem textOf_cons : textOf (e :: events) = e.payload.chunkText.getD "" ++ textOf events := by
  rw [textOf, List.filterMap_cons]
  cases e.payload.chunkText with
  | none =>
    rw [Option.getD_none, String.empty_append]
    rfl
  | some text => exact String.join_cons

theorem length_textOf_filter_le (p : SessionEvent → Bool) :
    (textOf (events.filter p)).length ≤ (textOf events).length := by
  induction events with
  | nil => exact le_rfl
  | cons e events ih =>
    rw [List.filter_cons, textOf_cons, String.length_append]
    split
    · rw [textOf_cons, String.length_append]
      omega
    · omega

/-- A chunk with a text that is left out is missed in the whole. -/
theorem textOf_filter_eq_iff {p : SessionEvent → Bool}
    (hchunks : ∀ e ∈ events, e.payload.chunkText.getD "" ≠ "") :
    textOf (events.filter p) = textOf events ↔ ∀ e ∈ events, p e = true := by
  constructor
  · intro heq
    induction events with
    | nil => simp
    | cons e events ih =>
      rw [List.filter_cons, textOf_cons] at heq
      split at heq
      · next hp =>
        rw [textOf_cons, String.append_right_inj] at heq
        have htail := ih (fun e' he' => hchunks e' (List.mem_cons_of_mem e he')) heq
        exact List.forall_mem_cons.mpr ⟨hp, htail⟩
      · have hle := @length_textOf_filter_le events p
        have hne := hchunks e List.mem_cons_self
        rw [Ne, ← String.length_eq_zero_iff] at hne
        rw [heq, String.length_append] at hle
        omega
  · intro hall
    rw [List.filter_eq_self.mpr hall]

theorem chunkText_handleSessionUpdate (update : SessionUpdate) :
    (handleSessionUpdate update).bind EventPayload.chunkText =
      (messageText update).filter (· ≠ "") := by
  cases update with
  | agentMessageChunk content =>
    cases content with
    | text text =>
      by_cases hempty : text = ""
      · simp [handleSessionUpdate, messageText, Option.filter, hempty]
      · simp [handleSessionUpdate, messageText, Option.filter, hempty, EventPayload.chunkText]
    | other json => rfl
  | agentThoughtChunk content =>
    cases content with
    | text text =>
      by_cases hempty : text = ""
      · simp [handleSessionUpdate, messageText, hempty]
      · simp [handleSessionUpdate, messageText, hempty, EventPayload.chunkText]
    | other json => rfl
  | toolCall | toolCallUpdate | plan | other => rfl

end Text

section Answers
variable {id : String} {maxEntries : ℕ} {d : Talk} {i : ℕ} {text : String}

theorem Told.event (h : Told id maxEntries d) {k : ℕ} {e : SessionEvent}
    (he : d.drawn[k]? = some e) : e.seq = k + 1 := by
  rw [Talk.drawn, List.getElem?_map, Option.map_eq_some_iff] at he
  obtain ⟨a, ha, rfl⟩ := he
  exact h.inv.recorded.kept.numbered.seqs k a ha

theorem Told.drawn_of_pushed (h : Told id maxEntries d) {e : SessionEvent}
    (he : e ∈ d.world.hist.pushed) : d.drawn[e.seq - 1]? = some e ∧ 0 < e.seq := by
  obtain ⟨a, ha, hae, -, hpos⟩ := h.inv.recorded.kept.append_eq he
  refine ⟨?_, hpos⟩
  rw [Talk.drawn, List.getElem?_map, ha, Option.map_some, hae]

theorem mem_about {e : SessionEvent} : e ∈ d.about i ↔
    ∃ k : ℕ, d.prompts[k]? = some (some i) ∧ d.drawn[k]? = some e := by
  rw [Talk.about, List.mem_map]
  constructor
  · rintro ⟨⟨label, e⟩, hmem, rfl⟩
    obtain ⟨hzip, hlabel⟩ := List.mem_filter.mp hmem
    obtain ⟨k, hk⟩ := List.mem_iff_getElem?.mp hzip
    obtain ⟨hprompt, he⟩ := List.getElem?_zip_eq_some.mp hk
    refine ⟨k, ?_, he⟩
    rw [hprompt, of_decide_eq_true hlabel]
  · rintro ⟨k, hprompt, he⟩
    have hzip : (some i, e) ∈ d.prompts.zip d.drawn :=
      List.mem_of_getElem? (List.getElem?_zip_eq_some.mpr ⟨hprompt, he⟩)
    exact ⟨_, List.mem_filter.mpr ⟨hzip, decide_eq_true rfl⟩, rfl⟩

theorem promptOf_iff {e : SessionEvent} :
    d.promptOf e = some i ↔ d.prompts[e.seq - 1]? = some (some i) := by
  rw [Talk.promptOf, Option.join_eq_some_iff]

theorem Told.about_increasing (h : Told id maxEntries d) : Increasing (d.about i) := by
  have hdrawn : Increasing d.drawn := by
    rw [Increasing, List.pairwise_iff_getElem]
    intro j k hj hk hjk
    have hjseq := h.event (List.getElem?_eq_getElem hj)
    have hkseq := h.event (List.getElem?_eq_getElem hk)
    omega
  have hsub : (d.about i).Sublist d.drawn := by
    have hzip : ((d.prompts.zip d.drawn).map Prod.snd).Sublist d.drawn := by
      rw [List.map_snd_zip (h.labelled.prompts.ge)]
    exact (List.filter_sublist.map Prod.snd).trans hzip
  exact hdrawn.sublist hsub

theorem Told.textOf_about (h : Told id maxEntries d) : textOf (d.about i) = d.answerTo i := by
  have hpayload : (d.about i).filterMap (·.payload.chunkText) =
      ((d.about i).map SessionEvent.payload).filterMap EventPayload.chunkText := by
    rw [List.filterMap_map]
    rfl
  have htexts : ∀ updates : List SessionUpdate,
      (updates.filterMap handleSessionUpdate).filterMap EventPayload.chunkText =
        (updates.filterMap messageText).filter (· ≠ "") := by
    intro updates
    rw [List.filterMap_filterMap, List.filter_filterMap]
    exact List.filterMap_congr fun update _ => chunkText_handleSessionUpdate update
  rw [textOf, hpayload, h.labelled.said, htexts, Talk.answerTo]

theorem Told.collected_eq (h : Told id maxEntries d)
    (hok : d.world.sys.asks[i]? = some (.returned (.ok text))) (hroom : d.Roomy i) :
    (d.world.turns i).collected = (d.world.turns i).history.filter fun e =>
      isChunk d.world.id e ∧ (d.world.turns i).start ≤ e.seq := by
  have hans := (h.inv.turns i _ hok).answered text rfl
  have hmark := h.noted.mark i _ hok (.inr rfl)
  rw [Talk.Roomy] at hroom
  have hfront : ¬ (d.world.turns i).start < (d.world.turns i).min := by
    intro hlt
    have hgone := hans.front hlt
    omega
  have hkept : (d.world.turns i).history.length - d.world.hist.log.maxEntries ≤
      (d.world.turns i).mark := by omega
  have hold : ((d.world.turns i).history.take
      ((d.world.turns i).history.length - d.world.hist.log.maxEntries)).filter
        (fun e => isChunk d.world.id e ∧ (d.world.turns i).start ≤ e.seq) = [] := by
    refine List.filter_eq_nil_iff.mpr fun e he hlate => ?_
    have hlt := hans.before e ((List.take_prefix_take_left hkept).subset he)
    have hle := (of_decide_eq_true hlate).2
    omega
  nth_rewrite 1 [← List.take_append_drop
    ((d.world.turns i).history.length - d.world.hist.log.maxEntries) (d.world.turns i).history]
  rw [List.filter_append, hold, List.nil_append, hans.collected, List.rtake]
  refine List.filter_congr fun e _ => ?_
  simp only [Turn.takes, hfront, false_or]

theorem Told.mem_collected (h : Told id maxEntries d)
    (hok : d.world.sys.asks[i]? = some (.returned (.ok text))) (hroom : d.Roomy i)
    {e : SessionEvent} : e ∈ (d.world.turns i).collected ↔ e ∈ (d.world.turns i).history ∧
      isChunk d.world.id e = true ∧ (d.world.turns i).start ≤ e.seq := by
  rw [h.collected_eq hok hroom, List.mem_filter, decide_eq_true_eq]

theorem Told.collected_about (h : Told id maxEntries d)
    (hok : d.world.sys.asks[i]? = some (.returned (.ok text))) (hroom : d.Roomy i) :
    (d.world.turns i).collected.filter (fun e => d.promptOf e = some i) =
      (d.about i).filter (isChunk d.world.id) := by
  have hans := (h.inv.turns i _ hok).answered text rfl
  have hsub : ((d.world.turns i).collected.filter (fun e => d.promptOf e = some i)).Sublist
      (d.world.hist.pushed.filter fun e => d.world.writers[e.seq - 1]? = some (.reader 0)) := by
    rw [h.collected_eq hok hroom, List.filter_filter]
    refine List.Sublist.trans (List.monotone_filter_right _ fun e he => ?_)
      (hans.history.sublist.filter _)
    simp only [Bool.and_eq_true, decide_eq_true_eq] at he
    exact decide_eq_true (h.labelled.reader _ i (promptOf_iff.mp he.1))
  have hirrefl : Std.Irrefl fun a b : SessionEvent => a.seq < b.seq := ⟨fun _ => lt_irrefl _⟩
  have hantisymm : Std.Antisymm fun a b : SessionEvent => a.seq < b.seq :=
    ⟨fun _ _ hab hba => absurd hab (lt_asymm hba)⟩
  refine (h.order.rising.sublist hsub).eq_of_mem_iff (h.about_increasing.filter _) fun e => ?_
  rw [List.mem_filter, List.mem_filter, h.mem_collected hok hroom, decide_eq_true_eq, mem_about]
  constructor
  · rintro ⟨⟨hin, hchunk, hlate⟩, hprompt⟩
    obtain ⟨hdrawn, -⟩ := h.drawn_of_pushed (hans.history.subset hin)
    exact ⟨⟨_, promptOf_iff.mp hprompt, hdrawn⟩, hchunk⟩
  · rintro ⟨⟨k, hprompt, hdrawn⟩, hchunk⟩
    have hseq := h.event hdrawn
    have hstart := (h.sending.label k i hprompt).2
    refine ⟨⟨h.hearing.complete i _ text hok rfl k e hprompt hdrawn, hchunk, by omega⟩, ?_⟩
    rw [promptOf_iff, hseq, Nat.add_sub_cancel, hprompt]

theorem Told.answer_iff (h : Told id maxEntries d)
    (hok : d.world.sys.asks[i]? = some (.returned (.ok text))) (hroom : d.Roomy i) :
    text = d.answerTo i ↔ d.Undisturbed i := by
  have hans := (h.inv.turns i _ hok).answered text rfl
  have hmine : textOf ((d.about i).filter (isChunk d.world.id)) = textOf (d.about i) := by
    rw [textOf, textOf, List.filterMap_filter]
    refine congrArg String.join (List.filterMap_congr fun e he => ?_)
    obtain ⟨k, hprompt, hdrawn⟩ := mem_about.mp he
    have hid := h.labelled.mine k i e hprompt hdrawn
    cases htext : e.payload.chunkText <;> simp [isChunk, hid, htext]
  have hchunks : ∀ e ∈ (d.world.turns i).collected, e.payload.chunkText.getD "" ≠ "" := by
    intro e he
    obtain ⟨hin, hchunk, -⟩ := (h.mem_collected hok hroom).mp he
    obtain ⟨hdrawn, -⟩ := h.drawn_of_pushed (hans.history.subset hin)
    obtain ⟨-, htext⟩ := h.labelled.chunk _ e hdrawn hchunk
    obtain ⟨text, hsome⟩ := Option.isSome_iff_exists.mp (isChunk_iff.mp hchunk).2
    rw [hsome] at htext ⊢
    exact fun hempty => htext (congrArg some hempty)
  rw [hans.text, ← h.textOf_about, ← hmine, ← h.collected_about hok hroom, eq_comm,
    textOf_filter_eq_iff hchunks]
  constructor
  · intro hall e hin hchunk hlate
    exact of_decide_eq_true (hall e ((h.mem_collected hok hroom).mpr ⟨hin, hchunk, hlate⟩))
  · intro hquiet e he
    obtain ⟨hin, hchunk, hlate⟩ := (h.mem_collected hok hroom).mp he
    exact decide_eq_true (hquiet e hin hchunk hlate)

end Answers

/-- The ask that has the turn after its `start_seq` is the only one that the agent
works for, and the only one it has sent updates for since. -/
structure Window (d : Talk) : Prop where
  guard : Exclusive AcpSession.turnGuard AskPc.inside d.world.sys.session d.world.sys.asks
  working : ∀ (i : ℕ) (pc : AskPc), d.world.sys.asks[i]? = some pc →
    (startOf pc).isSome = true → ∀ j ∈ d.working, j = i
  label : ∀ (i : ℕ) (pc : AskPc), d.world.sys.asks[i]? = some pc →
    (startOf pc).isSome = true → ∀ k j : ℕ, d.prompts[k]? = some (some j) →
      (d.world.turns i).start ≤ k + 1 → j = i
  answered : ∀ (i : ℕ) (pc : AskPc), d.world.sys.asks[i]? = some pc →
    (answerOf pc).isSome = true → ∀ e ∈ (d.world.turns i).history, ∀ j : ℕ,
      d.promptOf e = some j → (d.world.turns i).start ≤ e.seq → j = i

section Window
variable {id agent : String} {maxEntries now : ℕ} {acts : List Action} {d d' : Talk} {a : Action}
  {i : ℕ} {text : String}

theorem inside_of_startOf {pc : AskPc} (h : (startOf pc).isSome = true) : pc.inside = true := by
  cases pc <;> first | rfl | cases h

theorem window_new : Window (.new id agent maxEntries now) := by
  refine ⟨Exclusive.nil rfl, fun i pc hpc => ?_, fun i pc hpc => ?_, fun i pc hpc => ?_⟩ <;>
    cases hpc

theorem Moves.guard (hmoves : Moves d a d')
    (h : Exclusive AcpSession.turnGuard AskPc.inside d.world.sys.session d.world.sys.asks) :
    Exclusive AcpSession.turnGuard AskPc.inside d'.world.sys.session d'.world.sys.asks := by
  cases hmoves with
  | ask hpc hidle hagrees hstep hasks =>
    rw [hasks]
    exact h.step askStep_disciplined hpc hstep
  | drop hpc hsession hasks =>
    rw [hasks, hsession]
    exact exclusive_release h hpc
  | call hsession hasks =>
    rw [hasks, hsession]
    exact h.spawn rfl
  | aside hasks hguard =>
    intro i
    rw [hasks, hguard]
    exact h i
  | answer hidle hsys =>
    rw [hsys]
    exact h

theorem Moves.started (hmoves : Moves d a d') (halone : d.Alone a) {pc' : AskPc}
    (hpc' : d'.world.sys.asks[i]? = some pc') (hstart : (startOf pc').isSome = true) :
    (∃ pc, d.world.sys.asks[i]? = some pc ∧ (startOf pc).isSome = true ∧
        (d'.world.turns i).start = (d.world.turns i).start) ∨
      d.working = [] ∧ (d'.world.turns i).start = d.world.hist.log.nextSeq := by
  rcases hmoves.cases hpc' with ⟨hpc, ⟨responded, hturn⟩, -⟩ | rfl | rfl |
    ⟨pc, s', o, rfl, hpc, -, -, hstep, hturn, -⟩
  · exact .inl ⟨pc', hpc, hstart, by rw [hturn]⟩
  · cases hstart
  · cases hstart
  · have hmove := askStep_move hstep
    rw [hturn]
    cases hmove with
    | away hnone =>
      rw [hnone] at hstart
      cases hstart
    | startSeq => exact .inr ⟨halone hpc, rfl⟩
    | on hpc₀ =>
      refine .inl ⟨pc, hpc, by rw [hpc₀]; rfl, ?_⟩
      rcases @nextTurn_start d.world (d.world.turns i) pc with hsame | ⟨rfl, -⟩
      · exact hsame
      · cases hpc₀
    | loadMin => exact .inl ⟨_, hpc, rfl, rfl⟩
    | collect | returning => cases hstart

theorem Told.promptOf_step (h : Told id maxEntries d) (heffect : Effect d d') {e : SessionEvent}
    (he : e ∈ d.world.hist.pushed) : d'.promptOf e = d.promptOf e := by
  obtain ⟨hdrawn, -⟩ := h.drawn_of_pushed he
  have hlt : e.seq - 1 < d.prompts.length :=
    h.labelled.prompts ▸ (List.getElem?_eq_some_iff.mp hdrawn).1
  have hlabel := List.getElem?_eq_getElem hlt
  rw [Talk.promptOf, Talk.promptOf, heffect.prompt hlabel, hlabel]

theorem Window.step (h : Window d) (htold : Told id maxEntries d) (halone : d.Alone a)
    (heffect : Effect d d') (hmoves : Moves d a d') : Window d' where
  guard := hmoves.guard h.guard
  working i pc' hpc' hstart j hj := by
    rcases hmoves.working hj with hold | ⟨⟨start, client, hprompted⟩, -⟩
    · rcases hmoves.started halone hpc' hstart with ⟨pc, hpc, hstart, -⟩ | ⟨hnone, -⟩
      · exact h.working i pc hpc hstart j hold
      · rw [hnone] at hold
        cases hold
    · have hguard := hmoves.guard h.guard
      have hj := (hguard.inside_iff hprompted).mp rfl
      rw [(hguard.inside_iff hpc').mp (inside_of_startOf hstart)] at hj
      exact (Option.some.inj hj).symm
  label i pc' hpc' hstart k j hk hlate := by
    rcases hmoves.started halone hpc' hstart with ⟨pc, hpc, hstart, hsame⟩ | ⟨hnone, hload⟩
    · rcases heffect.label htold.labelled hk with ⟨hold, -⟩ | ⟨hj, -⟩
      · exact h.label i pc hpc hstart k j hold (hsame ▸ hlate)
      · exact h.working i pc hpc hstart j hj
    · rcases heffect.label htold.labelled hk with ⟨hold, -⟩ | ⟨hj, -⟩
      · have hlt := (List.getElem?_eq_some_iff.mp hold).1
        have hnext : d.world.hist.log.nextSeq = d.world.hist.sys.appends.length + 1 :=
          htold.inv.recorded.kept.numbered.next
        rw [htold.labelled.prompts, length_drawn] at hlt
        omega
      · rw [hnone] at hj
        cases hj
  answered i pc' hpc' hsome e he j hprompt hlate := by
    rcases hmoves.cases hpc' with ⟨hpc, ⟨responded, hturn⟩, -⟩ | rfl | rfl |
      ⟨pc, s', o, -, hpc, -, -, hstep, hturn, -⟩
    · obtain ⟨text, htext⟩ := Option.isSome_iff_exists.mp hsome
      have hans := (htold.inv.turns i pc' hpc).answered text htext
      rw [hturn] at he hlate
      rw [htold.promptOf_step heffect (hans.history.subset he)] at hprompt
      exact h.answered i pc' hpc hsome e he j hprompt hlate
    · cases hsome
    · cases hsome
    · have hmove := askStep_move hstep
      rw [hturn] at he hlate
      cases hmove with
      | away hstart hanswer =>
        rw [hanswer] at hsome
        cases hsome
      | startSeq | loadMin => cases hsome
      | on hpc₀ hstart hanswer =>
        rw [hanswer] at hsome
        cases hsome
      | collect =>
        rw [htold.promptOf_step heffect he] at hprompt
        obtain ⟨-, hpos⟩ := htold.drawn_of_pushed he
        have hle : (d.world.turns i).start ≤ e.seq := hlate
        exact h.label i _ hpc rfl _ j (promptOf_iff.mp hprompt) (by omega)
      | returning =>
        have hans := (htold.inv.turns i _ hpc).answered _ rfl
        rw [htold.promptOf_step heffect (hans.history.subset he)] at hprompt
        exact h.answered i _ hpc rfl e he j hprompt hlate

theorem step_window (d : Talk) (a : Action) (d' : Talk)
    (h : Told id maxEntries d ∧ Window d) (halone : d.Alone a) (hstep : d.step a = some d') :
    Told id maxEntries d' ∧ Window d' :=
  ⟨step_told d a d' h.1 hstep,
    h.2.step h.1 halone (step_effect hstep).2 (step_moves hstep)⟩

theorem Window.undisturbed (h : Window d) (htold : Told id maxEntries d)
    (hok : d.world.sys.asks[i]? = some (.returned (.ok text))) : d.Undisturbed i := by
  intro e he hchunk hlate
  have hans := (htold.inv.turns i _ hok).answered text rfl
  obtain ⟨hdrawn, -⟩ := htold.drawn_of_pushed (hans.history.subset he)
  obtain ⟨⟨j, hlabel⟩, -⟩ := htold.labelled.chunk _ e hdrawn hchunk
  have hprompt : d.promptOf e = some j := promptOf_iff.mpr hlabel
  rw [hprompt, h.answered i _ hok rfl e he j hprompt hlate]

/-- With room in the log, an answer is what the agent has said to its prompt exactly
if no chunk for another prompt is behind its `start_seq`; and it always is where no
ask loads `start_seq` while the agent works on a prompt. -/
theorem returned_answerTo
    (hrun : run Talk.step (.new id agent maxEntries now) acts = some d) :
    (∀ (i : ℕ) (text : String), d.world.sys.asks[i]? = some (.returned (.ok text)) →
      d.Roomy i → (text = d.answerTo i ↔ d.Undisturbed i)) ∧
    (Along Talk.step Talk.Alone (.new id agent maxEntries now) acts →
      ∀ (i : ℕ) (text : String), d.world.sys.asks[i]? = some (.returned (.ok text)) →
        d.Roomy i → text = d.answerTo i) := by
  have htold := run_told hrun
  refine ⟨fun i text hok hroom => htold.answer_iff hok hroom, fun halone i text hok hroom => ?_⟩
  have hwindow : Told id maxEntries d ∧ Window d :=
    invariant step_window ⟨told_new id agent maxEntries now, window_new⟩ halone hrun
  exact (htold.answer_iff hok hroom).mpr (hwindow.2.undisturbed htold hok)

end Window

def aside (acts : List Conversation.Action) : List Action := acts.map .world

def saying (i k : ℕ) (text : String) : List Action :=
  [.update i (.agentMessageChunk (.text text))] ++ aside (Answer.appended k)

def told : List Action :=
  aside (Answer.toPrompt 0 0) ++ saying 0 3 "hel" ++
    aside (.other "t" "codex" (.messageChunk "elsewhere") :: Answer.appended 4) ++
    [.update 0 (.agentThoughtChunk (.text "hm"))] ++ aside (Answer.appended 5) ++
    saying 0 6 "lo" ++ [.answer 0] ++ aside (Answer.toReturn 0 7 1 "hello")

theorem returned_answerTo_told :
    ∃ d, run Talk.step (.new "s" "codex" 100 0) told = some d ∧ "hello" = d.answerTo 0 := by
  have halone : Along Talk.step Talk.Alone (.new "s" "codex" 100 0) told := by decide
  obtain ⟨d, hrun, hok, hroom⟩ := exists_run (s := Talk.new "s" "codex" 100 0)
    (fun d => d.world.sys.asks[0]? = some (.returned (.ok "hello")) ∧ d.Roomy 0)
    (by decide : (run Talk.step (.new "s" "codex" 100 0) told).any _ = true)
  exact ⟨d, hrun, (returned_answerTo hrun).2 halone 0 "hello" hok hroom⟩

/-- A `shutdown` that has found no client is slow; the first ask starts the agent,
prompts it and is dropped; the `shutdown` sets the turn back to `IDLE`. -/
def leftBehind : List Conversation.Action :=
  [.session .shutdown] ++ List.replicate 5 (.session (.shutdownStep 0)) ++
    Answer.toPrompt 0 0 ++ [.session (.drop 0)] ++
    List.replicate 2 (.session (.shutdownStep 0)) ++ Answer.appended 3

def overlap : List Action :=
  aside leftBehind ++ aside ([.session .ask] ++
    Answer.steps 1 [.go, .go, .now 3, .go, .go, .go, .go, .go] ++ Answer.appended 4 ++
    Answer.steps 1 [.loaded 6, .go, .go, .go]) ++
    saying 0 5 "stale" ++ saying 1 6 "new" ++ [.answer 1] ++
    aside (Answer.toReturn 1 7 1 "stalenew")

theorem overlap_not_answerTo :
    ∃ d, run Talk.step (.new "s" "codex" 100 0) overlap = some d ∧
      d.world.sys.asks[1]? = some (.returned (.ok "stalenew")) ∧ d.Roomy 1 ∧
      d.answerTo 1 = "new" :=
  exists_run _ (by decide)

end Ccgonext.Dialogue
