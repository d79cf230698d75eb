import Ccgonext.Dialogue

/-!
# The prompts of a session with one client

An ask sends its prompt after it has loaded `start_seq`, and the agent sends no
update for the prompt before and none after the answer. So what the log has for
an ask that has its answer was appended behind its `start_seq` and was pushed
before the answer.
-/

namespace Ccgonext.Dialogue
open Lib Lib.Runs Lib.CriticalSection Events EventOrder Session Updates Conversation

def afterPrompt : Next → Bool
  | .touch .. | .touchFailed _ | .terminate .. => true
  | .spawn | .fail _ | .prompting | .startSeq => false

def sent : AskPc → Bool
  | .setProcess next | .setTurn next | .emit next => afterPrompt next
  | .awaitPrompt .. | .checkConnected _ | .takeClient _ | .clearSessionId .. | .clearPid ..
  | .terminate .. | .detach .. | .touch .. | .storeTouch .. | .turnComplete .. | .loadMin _
  | .collect .. | .touchFailed _ | .storeFailed .. | .returning _ | .returned _ | .dropped => true
  | _ => false

def heard : AskPc → Bool
  | .setProcess (.touch ..) | .setTurn (.touch ..) | .emit (.touch ..) | .touch .. | .storeTouch ..
  | .turnComplete .. | .loadMin _ | .collect .. | .returning (.ok _) | .returned (.ok _) => true
  | _ => false

inductive Leg (o : Outcome) : AskPc → AskPc → Prop
  | begins : Leg o (.emit .startSeq) .startSeq
  | prompts {start : ℕ} {client : ClientId} {sessionId : String} :
      Leg o (.prompt start client sessionId) (.awaitPrompt start client)
  | answered {start : ℕ} {client : ClientId} {stopReason : String} {pc' : AskPc}
      (ho : o = .answered stopReason) (hsent : sent pc' = true)
      (hawaits : ∀ start client, pc' ≠ .awaitPrompt start client) (hstart : pc' ≠ .startSeq) :
      Leg o (.awaitPrompt start client) pc'
  | other {pc pc' : AskPc} (hsent : sent pc = true → sent pc' = true)
      (hheard : heard pc' = true → heard pc = true)
      (hawaits : ∀ start client, pc' ≠ .awaitPrompt start client) (hstart : pc' ≠ .startSeq) :
      Leg o pc pc'

section Steps
variable {i : ℕ} {s s' : AcpSession} {pc pc' : AskPc} {o : Outcome}

theorem heard_of_answerOf {text : String} (h : answerOf pc = some text) : heard pc = true := by
  cases pc
  case returning result | returned result =>
    cases result with
    | ok text => rfl
    | err error => cases h
  all_goals cases h

theorem emit_leg (next : Next) : Leg o (.emit next) next.pc := by
  cases next
  case startSeq => exact .begins
  all_goals
    refine .other (fun h => ?_) (fun h => ?_) (by simp [Next.pc]) (by simp [Next.pc])
    all_goals first | rfl | cases h

theorem askStep_leg (h : askStep i s pc o = some (s', pc')) : Leg o pc pc' := by
  cases pc
  case emit next =>
    cases h
    exact emit_leg next
  case prompt =>
    cases h
    exact .prompts
  case setProcess next | setTurn next =>
    cases h
    refine .other id (fun hheard => ?_) (by simp) (by simp)
    cases next <;> first | rfl | cases hheard
  case returning result =>
    cases h
    refine .other (fun _ => rfl) (fun hheard => ?_) (by simp) (by simp)
    cases result with
    | ok text => rfl
    | err error => cases hheard
  case awaitPrompt =>
    delta askStep at h
    dsimp only at h
    split at h
    · cases h
      exact .answered rfl rfl (by simp) (by simp)
    all_goals
      cases h
      try exact .other (fun _ => rfl) (fun hheard => by cases hheard) (by simp) (by simp)
  all_goals
    delta askStep at h
    dsimp only at h
    repeat' split at h
    all_goals
      cases h
      try
        refine .other (fun hsent => ?_) (fun hheard => ?_) (by simp) (by simp)
        · first | rfl | cases hsent
        · first | rfl | cases hheard

theorem Leg.sent (h : Leg o pc pc') (hsent : Dialogue.sent pc = true) :
    Dialogue.sent pc' = true := by
  cases h with
  | begins => cases hsent
  | prompts => rfl
  | answered ho hsent' => exact hsent'
  | other hkeep => exact hkeep hsent

theorem Leg.heard (h : Leg o pc pc') (hheard : Dialogue.heard pc' = true) :
    Dialogue.heard pc = true ∨ (∃ start client, pc = .awaitPrompt start client) ∧
      ∃ stopReason, o = .answered stopReason := by
  cases h with
  | begins | prompts => cases hheard
  | answered ho => exact .inr ⟨⟨_, _, rfl⟩, _, ho⟩
  | other hsent hback => exact .inl (hback hheard)

theorem Leg.awaits {start : ℕ} {client : ClientId} (h : Leg o pc (.awaitPrompt start client)) :
    ∃ sessionId, pc = .prompt start client sessionId := by
  cases h with
  | prompts => exact ⟨_, rfl⟩
  | answered ho hsent hawaits => exact absurd rfl (hawaits start client)
  | other hsent hheard hawaits => exact absurd rfl (hawaits start client)

theorem Leg.startSeq (h : Leg o pc .startSeq) : pc = .emit .startSeq := by
  cases h with
  | begins => rfl
  | answered ho hsent hawaits hstart => exact absurd rfl hstart
  | other hsent hheard hawaits hstart => exact absurd rfl hstart

end Steps

inductive Moves (d : Talk) : Action → Talk → Prop
  | ask {i : ℕ} {o : Outcome} {pc pc' : AskPc} {d' : Talk}
      (hpc : d.world.sys.asks[i]? = some pc) (hidle : d.world.idle (.ask i) = true)
      (hagrees : d.world.agrees i pc o = true)
      (hstep : Session.askStep i d.world.sys.session pc o = some (d'.world.sys.session, pc'))
      (hasks : d'.world.sys.asks = d.world.sys.asks.set i pc')
      (hturns : d'.world.turns =
        Function.update d.world.turns i (d.world.nextTurn (d.world.turns i) pc))
      (hworking : ∀ j ∈ d'.working, j ∈ d.working ∨
        j = i ∧ ∃ start client sessionId, pc = .prompt start client sessionId)
      (hkeep : ∀ j ∈ d.working, j ∈ d'.working)
      (hwrote : ∀ next, pc = .emit next → ∃ k : ℕ, d'.world.writers[k]? = some (.ask i)) :
      Moves d (.world (.session (.askStep i o))) d'
  | drop {i : ℕ} {pc : AskPc} {d' : Talk} (hpc : d.world.sys.asks[i]? = some pc)
      (hsession : d'.world.sys.session = d.world.sys.session.release i)
      (hasks : d'.world.sys.asks = d.world.sys.asks.set i .dropped)
      (hturns : d'.world.turns = d.world.turns) (hworking : d'.working = d.working) :
      Moves d (.world (.session (.drop i))) d'
  | call {d' : Talk} (hsession : d'.world.sys.session = d.world.sys.session)
      (hasks : d'.world.sys.asks = d.world.sys.asks ++ [.tryLock])
      (hturns : d'.world.turns = d.world.turns) (hworking : d'.working = d.working) :
      Moves d (.world (.session .ask)) d'
  | aside {a : Action} {d' : Talk} (hasks : d'.world.sys.asks = d.world.sys.asks)
      (hguard : d'.world.sys.session.turnGuard = d.world.sys.session.turnGuard)
      (hturns : d'.world.turns = d.world.turns) (hworking : d'.working = d.working) : Moves d a d'
  | answer {i : ℕ} {d' : Talk} (hidle : d.world.idle (.reader 0) = true)
      (hsys : d'.world.sys = d.world.sys) (hhist : d'.world.hist = d.world.hist)
      (hturns : d'.world.turns = d.world.turns ∨ d'.world.turns = Function.update d.world.turns i
        { d.world.turns i with responded := some d.world.hist.pushed.length })
      (hworking : d'.working = d.working.filter (· ≠ i)) : Moves d (.answer i) d'

section Moves
variable {d d' : Talk} {a : Action} {i : ℕ}

theorem prompted_askStep {w : World} {o : Outcome} {pc : AskPc} (hpc : w.sys.asks[i]? = some pc) :
    ∀ j ∈ prompted w (.session (.askStep i o)),
      j = i ∧ ∃ start client sessionId, pc = .prompt start client sessionId := by
  intro j hj
  simp only [prompted, hpc] at hj
  split at hj
  · next start client sessionId heq =>
    exact ⟨List.mem_singleton.mp hj, start, client, sessionId, Option.some.inj heq⟩
  · cases hj

theorem prompted_other {w : World} {b : Conversation.Action}
    (h : ∀ i o, b ≠ .session (.askStep i o)) : prompted w b = [] := by
  unfold prompted
  split
  · exact absurd rfl (h _ _)
  · rfl

theorem askStep_wrote {w w' : World} {o : Outcome} {next : Next}
    (hpc : w.sys.asks[i]? = some (.emit next)) (h : w.askStep i o = some w') :
    w'.writers = w.writers ++ [.ask i] := by
  obtain ⟨pc, session, pc', hpc', -, -, hstep, hemit⟩ := askStep_emit h
  rw [hpc] at hpc'
  cases hpc'
  cases hstep
  simp only [World.appended, AcpSession.append, List.drop_left, World.emit] at hemit
  have hnew := draw_writers hemit
  exact hnew

theorem step_moves (h : d.step a = some d') : Moves d a d' := by
  cases a with
  | world a =>
    obtain ⟨hown, hw, hworking, -, -⟩ := step_world h
    obtain ⟨-, -, hstepped⟩ := step_stepped hw
    cases hstepped with
    | ask hpc hidle hagrees hstep hasks hturns =>
      refine .ask hpc hidle hagrees hstep hasks hturns (fun j hj => ?_) (fun j hj => ?_)
        fun next hnext => ?_
      · rw [hworking] at hj
        rcases List.mem_append.mp hj with hj | hj
        · exact .inr (prompted_askStep hpc j hj)
        · exact .inl hj
      · rw [hworking]
        exact List.mem_append_right _ hj
      · rw [hnext] at hpc
        exact ⟨_, by rw [askStep_wrote hpc hw, List.getElem?_concat_length]⟩
    | drop hpc hsession hasks hturns => exact .drop hpc hsession hasks hturns hworking
    | call hsession hasks hturns => exact .call hsession hasks hturns hworking
    | respond => cases hown
    | aside hother hasks hguard hturns =>
      refine .aside hasks hguard hturns (hworking.trans ?_)
      rw [prompted_other hother, List.nil_append]
  | update i update =>
    obtain ⟨-, hw, hworking, -, -⟩ := step_update h
    obtain ⟨-, ⟨-, hworld⟩ | ⟨payload, hist, -, -, hworld⟩⟩ := update_inv hw
    · exact .aside (by rw [hworld]) (by rw [hworld]) (by rw [hworld]) hworking
    · exact .aside (by rw [hworld]) (by rw [hworld]) (by rw [hworld]) hworking
  | answer i =>
    obtain ⟨-, hreading, hworld, hworking, -, -⟩ := step_answer h
    simp only [World.reading, Bool.decide_and, Bool.and_eq_true, decide_eq_true_eq] at hreading
    rcases hworld with hsame | hw
    · exact .answer hreading.2.2 (by rw [hsame]) (by rw [hsame]) (.inl (by rw [hsame])) hworking
    · obtain ⟨start, client, -, hworld⟩ := respond_inv hw
      exact .answer hreading.2.2 (by rw [hworld]) (by rw [hworld]) (.inr (by rw [hworld])) hworking

theorem Moves.cases (h : Moves d a d') {pc' : AskPc} (hpc' : d'.world.sys.asks[i]? = some pc') :
    (d.world.sys.asks[i]? = some pc' ∧
        (∃ responded, d'.world.turns i = { d.world.turns i with responded := responded }) ∧
        (i ∈ d'.working → d'.world.turns i = d.world.turns i)) ∨
      pc' = .tryLock ∨ pc' = .dropped ∨
      ∃ pc s' o, a = .world (.session (.askStep i o)) ∧ d.world.sys.asks[i]? = some pc ∧
        d.world.idle (.ask i) = true ∧ d.world.agrees i pc o = true ∧
        Session.askStep i d.world.sys.session pc o = some (s', pc') ∧
        d'.world.turns i = d.world.nextTurn (d.world.turns i) pc ∧
        ∀ next, pc = .emit next → ∃ k : ℕ, d'.world.writers[k]? = some (.ask i) := by
  cases h with
  | @ask j o pc pc₁ _ hpc hidle hagrees hstep hasks hturns _ _ hwrote =>
    rw [hasks] at hpc'
    rcases Pool.set_cases hpc' with ⟨rfl, rfl⟩ | ⟨hij, hpc'⟩
    · exact .inr (.inr (.inr ⟨pc, _, o, rfl, hpc, hidle, hagrees, hstep,
        by rw [hturns, Function.update_self], hwrote⟩))
    · have hsame : d'.world.turns i = d.world.turns i := by
        rw [hturns, Function.update_of_ne (Ne.symm hij)]
      exact .inl ⟨hpc', ⟨_, hsame⟩, fun _ => hsame⟩
  | drop hpc hsession hasks hturns =>
    rw [hasks] at hpc'
    rcases Pool.set_cases hpc' with ⟨-, rfl⟩ | ⟨-, hpc'⟩
    · exact .inr (.inr (.inl rfl))
    · exact .inl ⟨hpc', ⟨_, by rw [hturns]⟩, fun _ => by rw [hturns]⟩
  | call hsession hasks hturns =>
    rw [hasks] at hpc'
    rcases Pool.spawn_cases hpc' with hold | ⟨-, hnew⟩
    · exact .inl ⟨hold, ⟨_, by rw [hturns]⟩, fun _ => by rw [hturns]⟩
    · exact .inr (.inl hnew)
  | aside hasks hguard hturns =>
    rw [hasks] at hpc'
    exact .inl ⟨hpc', ⟨_, by rw [hturns]⟩, fun _ => by rw [hturns]⟩
  | @answer j _ hidle hsys hhist hturns hworking =>
    rw [hsys] at hpc'
    rcases hturns with hturns | hturns
    · exact .inl ⟨hpc', ⟨_, by rw [hturns]⟩, fun _ => by rw [hturns]⟩
    · by_cases hij : i = j
      · subst hij
        refine .inl ⟨hpc', ⟨_, by rw [hturns, Function.update_self]⟩, fun hi => ?_⟩
        rw [hworking] at hi
        exact absurd rfl (of_decide_eq_true (List.mem_filter.mp hi).2)
      · have hsame : d'.world.turns i = d.world.turns i := by
          rw [hturns, Function.update_of_ne hij]
        exact .inl ⟨hpc', ⟨_, hsame⟩, fun _ => hsame⟩

theorem Moves.sent (h : Moves d a d')
    (hsent : ∃ pc, d.world.sys.asks[i]? = some pc ∧ sent pc = true) :
    ∃ pc, d'.world.sys.asks[i]? = some pc ∧ sent pc = true := by
  obtain ⟨pc, hpc, hsent⟩ := hsent
  have hlt : i < d.world.sys.asks.length := (List.getElem?_eq_some_iff.mp hpc).1
  cases h with
  | @ask j o pc₀ pc₁ _ hpc₀ hidle hagrees hstep hasks =>
    rw [hasks]
    by_cases hij : j = i
    · subst hij
      rw [hpc₀] at hpc
      cases hpc
      exact ⟨pc₁, List.getElem?_set_self hlt, (askStep_leg hstep).sent hsent⟩
    · exact ⟨pc, by rw [List.getElem?_set_ne hij, hpc], hsent⟩
  | @drop j pc₀ _ hpc₀ hsession hasks =>
    rw [hasks]
    by_cases hij : j = i
    · subst hij
      exact ⟨.dropped, List.getElem?_set_self hlt, rfl⟩
    · exact ⟨pc, by rw [List.getElem?_set_ne hij, hpc], hsent⟩
  | call hsession hasks =>
    rw [hasks]
    exact ⟨pc, by rw [List.getElem?_append_left hlt, hpc], hsent⟩
  | aside hasks =>
    rw [hasks]
    exact ⟨pc, hpc, hsent⟩
  | answer hidle hsys =>
    rw [hsys]
    exact ⟨pc, hpc, hsent⟩

theorem nextTurn_start {w : World} {turn : Turn} {pc : AskPc} :
    (w.nextTurn turn pc).start = turn.start ∨
      pc = .startSeq ∧ (w.nextTurn turn pc).start = w.hist.log.nextSeq := by
  cases pc
  case startSeq => exact .inr ⟨rfl, rfl⟩
  all_goals exact .inl rfl

theorem Moves.start (h : Moves d a d') (i : ℕ) :
    (d'.world.turns i).start = (d.world.turns i).start ∨
      d.world.sys.asks[i]? = some .startSeq ∧
        (d'.world.turns i).start = d.world.hist.log.nextSeq := by
  cases h with
  | @ask j o pc pc₁ _ hpc hidle hagrees hstep hasks hturns =>
    rw [hturns]
    by_cases hij : i = j
    · subst hij
      rw [Function.update_self]
      rcases @nextTurn_start d.world (d.world.turns i) pc with hsame | ⟨rfl, hload⟩
      · exact .inl hsame
      · exact .inr ⟨hpc, hload⟩
    · exact .inl (by rw [Function.update_of_ne hij])
  | drop hpc hsession hasks hturns | call hsession hasks hturns | aside hasks hguard hturns =>
    exact .inl (by rw [hturns])
  | @answer j _ hidle hsys hhist hturns =>
    refine .inl ?_
    rcases hturns with hturns | hturns
    · rw [hturns]
    · rw [hturns]
      by_cases hij : i = j
      · subst hij
        rw [Function.update_self]
      · rw [Function.update_of_ne hij]

theorem Moves.start_of_sent (h : Moves d a d')
    (hsent : ∃ pc, d.world.sys.asks[i]? = some pc ∧ Dialogue.sent pc = true) :
    (d'.world.turns i).start = (d.world.turns i).start := by
  rcases h.start i with hsame | ⟨hload, -⟩
  · exact hsame
  · obtain ⟨pc, hpc, hsent⟩ := hsent
    rw [hload] at hpc
    cases hpc
    cases hsent

end Moves

section Labels
variable {d d' : Talk} {i k : ℕ}

theorem Effect.label (heffect : Effect d d') (hlab : Labelled d)
    (hk : d'.prompts[k]? = some (some i)) :
    (d.prompts[k]? = some (some i) ∧ d'.drawn[k]? = d.drawn[k]?) ∨
      i ∈ d.working ∧ k = d.drawn.length := by
  have hdrawn : ∀ {e : SessionEvent}, d'.drawn = d.drawn ++ [e] → k < d.prompts.length →
      d'.drawn[k]? = d.drawn[k]? := fun he hlt => by
    rw [he, List.getElem?_append_left (hlab.prompts ▸ hlt)]
  cases heffect with
  | same hhist hwriters hprompts =>
    rw [hprompts] at hk
    exact .inl ⟨hk, by rw [Talk.drawn, hhist]; rfl⟩
  | other hwriter hforeign hstep hwriters hprompts =>
    rw [hprompts] at hk
    rcases Pool.spawn_cases hk with hold | ⟨-, hnew⟩
    · exact .inl ⟨hold, hdrawn (drawn_draw hstep) (List.getElem?_eq_some_iff.mp hold).1⟩
    · cases hnew
  | read hi hidle hupdate hstep hwriters hprompts =>
    rw [hprompts] at hk
    rcases Pool.spawn_cases hk with hold | ⟨hlast, hnew⟩
    · exact .inl ⟨hold, hdrawn (drawn_draw hstep) (List.getElem?_eq_some_iff.mp hold).1⟩
    · cases hnew
      exact .inr ⟨hi, hlast.trans hlab.prompts⟩
  | push hstep hwriters hprompts =>
    rw [hprompts] at hk
    exact .inl ⟨hk, by rw [drawn_push hstep]⟩
  | send hstep hwriters hprompts =>
    rw [hprompts] at hk
    exact .inl ⟨hk, by rw [drawn_send hstep]⟩

theorem Effect.grows (heffect : Effect d d') : d.drawn.length ≤ d'.drawn.length := by
  cases heffect with
  | same hhist => rw [Talk.drawn, Talk.drawn, hhist]
  | other hwriter hforeign hstep | read hi hidle hupdate hstep =>
    rw [drawn_draw hstep, List.length_append]
    exact Nat.le_add_right _ _
  | push hstep => rw [drawn_push hstep]
  | send hstep => rw [drawn_send hstep]

theorem Effect.writer {writer : Writer} (heffect : Effect d d')
    (hk : d.world.writers[k]? = some writer) : d'.world.writers[k]? = some writer := by
  have hlt := (List.getElem?_eq_some_iff.mp hk).1
  cases heffect with
  | same hhist hwriters => rw [hwriters, hk]
  | other hwriter hforeign hstep hwriters | read hi hidle hupdate hstep hwriters =>
    rw [hwriters, List.getElem?_append_left hlt, hk]
  | push hstep hwriters | send hstep hwriters => rw [hwriters, hk]

theorem Effect.prompt {label : Option ℕ} (heffect : Effect d d')
    (hk : d.prompts[k]? = some label) : d'.prompts[k]? = some label := by
  have hlt := (List.getElem?_eq_some_iff.mp hk).1
  cases heffect with
  | same hhist hwriters hprompts => rw [hprompts, hk]
  | other hwriter hforeign hstep hwriters hprompts
    | read hi hidle hupdate hstep hwriters hprompts =>
    rw [hprompts, List.getElem?_append_left hlt, hk]
  | push hstep hwriters hprompts | send hstep hwriters hprompts => rw [hprompts, hk]

end Labels

structure Sending (d : Talk) : Prop where
  sent : ∀ i ∈ d.working, ∃ pc, d.world.sys.asks[i]? = some pc ∧ sent pc = true
  label : ∀ (k i : ℕ), d.prompts[k]? = some (some i) →
    (∃ pc, d.world.sys.asks[i]? = some pc ∧ Dialogue.sent pc = true) ∧
      (d.world.turns i).start ≤ k + 1
  start : ∀ i, (d.world.turns i).start ≤ d.drawn.length + 1
  done : ∀ (k i : ℕ) (a : AppendCall), d.prompts[k]? = some (some i) →
    d.world.hist.sys.appends[k]? = some a → a.stage ≠ .done → i ∈ d.working

structure Hearing (d : Talk) : Prop where
  heard : ∀ (i : ℕ) (pc : AskPc), d.world.sys.asks[i]? = some pc → heard pc = true →
    i ∉ d.working
  responded : ∀ (i start : ℕ) (client : ClientId),
    d.world.sys.asks[i]? = some (.awaitPrompt start client) →
      (d.world.turns i).responded.isSome = true → i ∉ d.working
  complete : ∀ (i : ℕ) (pc : AskPc) (text : String), d.world.sys.asks[i]? = some pc →
    answerOf pc = some text → ∀ (k : ℕ) (e : SessionEvent), d.prompts[k]? = some (some i) →
      d.drawn[k]? = some e → e ∈ (d.world.turns i).history

structure Noted (d : Talk) : Prop where
  wrote : ∀ i : ℕ, d.world.sys.asks[i]? = some .startSeq →
    ∃ k : ℕ, d.world.writers[k]? = some (.ask i)
  mark : ∀ (i : ℕ) (pc : AskPc), d.world.sys.asks[i]? = some pc →
    (startOf pc).isSome = true ∨ (answerOf pc).isSome = true → 0 < (d.world.turns i).mark

section Asks
variable {d d' : Talk} {a : Action} {i : ℕ}

theorem Moves.working (h : Moves d a d') (hi : i ∈ d'.working) :
    i ∈ d.working ∨ (∃ start client, d'.world.sys.asks[i]? = some (.awaitPrompt start client)) ∧
      (d'.world.turns i).responded = none := by
  cases h with
  | @ask j o pc pc' _ hpc hidle hagrees hstep hasks hturns hworking =>
    rcases hworking i hi with hold | ⟨rfl, start, client, sessionId, rfl⟩
    · exact .inl hold
    · have hpc' : pc' = .awaitPrompt start client :=
        (congrArg Prod.snd (Option.some.inj hstep)).symm
      refine .inr ⟨⟨start, client, ?_⟩, ?_⟩
      · rw [hasks, List.getElem?_set_self (List.getElem?_eq_some_iff.mp hpc).1, hpc']
      · rw [hturns, Function.update_self]
        rfl
  | drop hpc hsession hasks hturns hworking | call hsession hasks hturns hworking
    | aside hasks hguard hturns hworking =>
    rw [hworking] at hi
    exact .inl hi
  | answer hidle hsys hhist hturns hworking =>
    rw [hworking] at hi
    exact .inl (List.mem_filter.mp hi).1

theorem Moves.answered (h : Moves d a d') (hi : i ∈ d.working) (hno : i ∉ d'.working) :
    d.world.idle (.reader 0) = true ∧ d'.world.hist = d.world.hist := by
  cases h with
  | ask hpc hidle hagrees hstep hasks hturns hworking hkeep => exact absurd (hkeep i hi) hno
  | drop hpc hsession hasks hturns hworking | call hsession hasks hturns hworking
    | aside hasks hguard hturns hworking =>
    rw [hworking] at hno
    exact absurd hi hno
  | answer hidle hsys hhist => exact ⟨hidle, hhist⟩

theorem length_drawn : d.drawn.length = d.world.hist.sys.appends.length := List.length_map _

theorem Effect.stage {k : ℕ} {c : AppendCall} (h : Effect d d') (hlt : k < d.drawn.length)
    (hc : d'.world.hist.sys.appends[k]? = some c) (hst : c.stage ≠ .done) :
    ∃ b, d.world.hist.sys.appends[k]? = some b ∧ b.stage ≠ .done := by
  rw [length_drawn] at hlt
  cases h with
  | same hhist =>
    rw [hhist] at hc
    exact ⟨c, hc, hst⟩
  | other hwriter hforeign hstep | read hi hidle hupdate hstep =>
    rw [(draw_appends hstep).1, List.getElem?_append_left hlt] at hc
    exact ⟨c, hc, hst⟩
  | @push j hstep =>
    obtain ⟨e, hj, -, hsys⟩ := History.step_push hstep
    by_cases hjk : j = k
    · subst hjk
      exact ⟨_, hj, by simp⟩
    · rw [hsys, List.getElem?_set_ne hjk] at hc
      exact ⟨c, hc, hst⟩
  | @send j hstep =>
    obtain ⟨e, hj, -, hsys⟩ := History.step_send hstep
    by_cases hjk : j = k
    · subst hjk
      rw [hsys, List.getElem?_set_self hlt] at hc
      cases hc
      exact absurd rfl hst
    · rw [hsys, List.getElem?_set_ne hjk] at hc
      exact ⟨c, hc, hst⟩

theorem Sending.step (h : Sending d) (hlab : Labelled d) (hkept : d.world.hist.Kept)
    (heffect : Effect d d') (hmoves : Moves d a d') : Sending d' where
  sent i hi := by
    rcases hmoves.working hi with hold | ⟨⟨start, client, hpc⟩, -⟩
    · exact hmoves.sent (h.sent i hold)
    · exact ⟨_, hpc, rfl⟩
  label k i hk := by
    rcases heffect.label hlab hk with ⟨hold, -⟩ | ⟨hi, rfl⟩
    · obtain ⟨hsent, hstart⟩ := h.label k i hold
      exact ⟨hmoves.sent hsent, (hmoves.start_of_sent hsent).le.trans hstart⟩
    · have hsent := h.sent i hi
      exact ⟨hmoves.sent hsent, (hmoves.start_of_sent hsent).le.trans (h.start i)⟩
  start i := by
    have hgrows := heffect.grows
    rcases hmoves.start i with hsame | ⟨-, hload⟩
    · have hold := h.start i
      omega
    · have hnext : d.world.hist.log.nextSeq = d.world.hist.sys.appends.length + 1 :=
        hkept.numbered.next
      rw [hload, hnext, ← length_drawn]
      omega
  done k i c hk hc hst := by
    by_contra hno
    rcases heffect.label hlab hk with ⟨hold, hsame⟩ | ⟨hi, rfl⟩
    · have hlt : k < d.drawn.length := hlab.prompts ▸ (List.getElem?_eq_some_iff.mp hold).1
      obtain ⟨b, hb, hbst⟩ := heffect.stage hlt hc hst
      have hdone := idle_iff.mp (hmoves.answered (h.done k i b hold hb hbst) hno).1 k b
        (hlab.reader k i hold) hb
      exact hbst hdone
    · rw [(hmoves.answered hi hno).2, length_drawn] at hc
      have hlt := (List.getElem?_eq_some_iff.mp hc).1
      exact absurd hlt (lt_irrefl _)

theorem Sending.pushed (h : Sending d) (horder : InOrder d) (hno : i ∉ d.working) {k : ℕ}
    {e : SessionEvent} (hk : d.prompts[k]? = some (some i)) (he : d.drawn[k]? = some e) :
    e ∈ d.world.hist.pushed := by
  rw [Talk.drawn, List.getElem?_map, Option.map_eq_some_iff] at he
  obtain ⟨c, hc, rfl⟩ := he
  have hdone : c.stage = .done := by
    by_contra hst
    exact hno (h.done k i c hk hc hst)
  exact horder.pushed c (List.mem_of_getElem? hc) (by rw [hdone]; simp)

theorem Hearing.step (h : Hearing d) (hsend : Sending d) (hlab : Labelled d) (horder : InOrder d)
    (heffect : Effect d d') (hmoves : Moves d a d') : Hearing d' where
  heard i pc' hpc' hheard := by
    intro hi
    rcases hmoves.working hi with hold | ⟨⟨start, client, hnew⟩, -⟩
    · rcases hmoves.cases hpc' with ⟨hpc, -, -⟩ | rfl | rfl |
        ⟨pc, s', o, -, hpc, -, hagrees, hstep, -⟩
      · exact h.heard i pc' hpc hheard hold
      · cases hheard
      · cases hheard
      · rcases (askStep_leg hstep).heard hheard with
          hheard | ⟨⟨start, client, rfl⟩, stopReason, rfl⟩
        · exact h.heard i pc hpc hheard hold
        · exact h.responded i start client hpc hagrees hold
    · rw [hpc'] at hnew
      cases hnew
      cases hheard
  responded i start client hpc' hsome := by
    intro hi
    rcases hmoves.working hi with hold | ⟨-, hnone⟩
    · rcases hmoves.cases hpc' with ⟨hpc, -, hturn⟩ | hlock | hdrop |
        ⟨pc, s', o, -, hpc, -, -, hstep, hturn, -⟩
      · rw [hturn hi] at hsome
        exact h.responded i start client hpc hsome hold
      · cases hlock
      · cases hdrop
      · obtain ⟨sessionId, rfl⟩ := (askStep_leg hstep).awaits
        rw [hturn] at hsome
        cases hsome
    · rw [hnone] at hsome
      cases hsome
  complete i pc' text hpc' htext k e hk he := by
    have hold : i ∉ d.working → d.prompts[k]? = some (some i) ∧ d.drawn[k]? = some e := by
      intro hno
      rcases heffect.label hlab hk with ⟨hk, hsame⟩ | ⟨hi, -⟩
      · exact ⟨hk, by rw [← hsame, he]⟩
      · exact absurd hi hno
    rcases hmoves.cases hpc' with ⟨hpc, ⟨responded, hturn⟩, -⟩ | rfl | rfl |
      ⟨pc, s', o, -, hpc, -, -, hstep, hturn, -⟩
    · obtain ⟨hk, he⟩ := hold (h.heard i pc' hpc (heard_of_answerOf htext))
      rw [hturn]
      exact h.complete i pc' text hpc htext k e hk he
    · cases htext
    · cases htext
    · have hmove := askStep_move hstep
      rw [hturn]
      cases hmove with
      | away hstart hanswer =>
        rw [hanswer] at htext
        cases htext
      | startSeq => cases htext
      | on hpc hstart hanswer =>
        rw [hanswer] at htext
        cases htext
      | loadMin => cases htext
      | collect =>
        have hno := h.heard i _ hpc rfl
        obtain ⟨hk, he⟩ := hold hno
        exact hsend.pushed horder hno hk he
      | returning =>
        obtain ⟨hk, he⟩ := hold (h.heard i _ hpc rfl)
        exact h.complete i _ text hpc htext k e hk he

theorem Noted.step (h : Noted d) (hlab : Labelled d) (horder : InOrder d)
    (heffect : Effect d d') (hmoves : Moves d a d') : Noted d' where
  wrote i hpc' := by
    rcases hmoves.cases hpc' with ⟨hpc, -, -⟩ | hlock | hdrop |
      ⟨pc, s', o, -, -, -, -, hstep, -, hwrote⟩
    · obtain ⟨k, hk⟩ := h.wrote i hpc
      exact ⟨k, heffect.writer hk⟩
    · cases hlock
    · cases hdrop
    · exact hwrote .startSeq ((askStep_leg hstep).startSeq)
  mark i pc' hpc' hsome := by
    rcases hmoves.cases hpc' with ⟨hpc, ⟨responded, hturn⟩, -⟩ | rfl | rfl |
      ⟨pc, s', o, -, hpc, hidle, -, hstep, hturn, -⟩
    · rw [hturn]
      exact h.mark i pc' hpc hsome
    · rcases hsome with hstart | hanswer
      · cases hstart
      · cases hanswer
    · rcases hsome with hstart | hanswer
      · cases hstart
      · cases hanswer
    · have hmove := askStep_move hstep
      rw [hturn]
      cases hmove with
      | away hstart hanswer =>
        rw [hstart, hanswer] at hsome
        rcases hsome with hstart | hanswer
        · cases hstart
        · cases hanswer
      | startSeq =>
        obtain ⟨k, hk⟩ := h.wrote i hpc
        have hlt : k < d.world.hist.sys.appends.length := by
          rw [← length_drawn, ← hlab.writers]
          exact (List.getElem?_eq_some_iff.mp hk).1
        have hget := List.getElem?_eq_getElem hlt
        have hdone := idle_iff.mp hidle k _ hk hget
        exact List.length_pos_of_mem
          (horder.pushed _ (List.mem_of_getElem? hget) (by rw [hdone]; simp))
      | on hpc₀ =>
        have hmark := h.mark i pc hpc (.inl (by rw [hpc₀]; rfl))
        cases pc
        case startSeq => cases hpc₀
        all_goals exact hmark
      | loadMin | collect | returning => exact h.mark i _ hpc (by simp [startOf, answerOf])

theorem sending_new (id agent : String) (maxEntries now : ℕ) :
    Sending (.new id agent maxEntries now) := by
  refine ⟨fun i hi => ?_, fun k i hk => ?_, fun i => Nat.zero_le _, fun k i a hk => ?_⟩
  · cases hi
  · cases hk
  · cases hk

theorem hearing_new (id agent : String) (maxEntries now : ℕ) :
    Hearing (.new id agent maxEntries now) := by
  refine ⟨fun i pc hpc => ?_, fun i start client hpc => ?_, fun i pc text hpc => ?_⟩ <;> cases hpc

theorem noted_new (id agent : String) (maxEntries now : ℕ) :
    Noted (.new id agent maxEntries now) := by
  refine ⟨fun i hpc => ?_, fun i pc hpc => ?_⟩ <;> cases hpc

/-- What holds of every session with one client and an agent that sends updates
for its prompts only. -/
structure Told (id : String) (maxEntries : ℕ) (d : Talk) : Prop where
  inv : Conversation.Inv id maxEntries d.world
  labelled : Labelled d
  order : InOrder d
  sending : Sending d
  hearing : Hearing d
  noted : Noted d

theorem told_new (id agent : String) (maxEntries now : ℕ) :
    Told id maxEntries (.new id agent maxEntries now) :=
  ⟨Conversation.inv_new id agent maxEntries now, labelled_new id agent maxEntries now,
    inOrder_new id agent maxEntries now, sending_new id agent maxEntries now,
    hearing_new id agent maxEntries now, noted_new id agent maxEntries now⟩

theorem step_world_inv {id : String} {maxEntries : ℕ}
    (hinv : Conversation.Inv id maxEntries d.world) (h : d.step a = some d') :
    Conversation.Inv id maxEntries d'.world := by
  cases a with
  | world a =>
    obtain ⟨-, hw, -⟩ := step_world h
    exact step_inv d.world a d'.world hinv hw
  | update i update =>
    obtain ⟨-, hw, -⟩ := step_update h
    exact step_inv d.world _ d'.world hinv hw
  | answer i =>
    obtain ⟨-, -, hworld, -⟩ := step_answer h
    rcases hworld with hsame | hw
    · rw [hsame]
      exact hinv
    · exact step_inv d.world _ d'.world hinv hw

theorem step_told {id : String} {maxEntries : ℕ} (d : Talk) (a : Action) (d' : Talk)
    (h : Told id maxEntries d) (hstep : d.step a = some d') :
    Told id maxEntries d' := by
  obtain ⟨hid, heffect⟩ := step_effect hstep
  have hmoves := step_moves hstep
  have hkept := h.inv.recorded.kept
  have hlen := h.inv.recorded.length
  exact ⟨step_world_inv h.inv hstep, h.labelled.step hid heffect,
    h.order.step hkept hlen heffect, h.sending.step h.labelled hkept heffect hmoves,
    h.hearing.step h.sending h.labelled h.order heffect hmoves,
    h.noted.step h.labelled h.order heffect hmoves⟩

theorem run_told {id agent : String} {maxEntries now : ℕ} {acts : List Action}
    (hrun : run Talk.step (.new id agent maxEntries now) acts = some d) : Told id maxEntries d :=
  preserved step_told (told_new id agent maxEntries now) hrun

end Asks

end Ccgonext.Dialogue
