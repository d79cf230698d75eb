import Ccgonext.Conversation
import Ccgonext.Lib.Runs

/-!
# What the turns of a session read

A step of the world makes at most one step on the log and moves at most one
call. From that come two invariants: every chunk of the session in the log was
appended by one of its readers, and what a turn has read of the log fits what
had been pushed when it read it.
-/

namespace Ccgonext.Conversation
open Lib Lib.Runs Events Session Updates

inductive Logged (id : String) (hist : History) (writers : List Writer) :
    History → List Writer → Prop
  | same : Logged id hist writers hist writers
  | draw {writer : Writer} {sessionId agent : String} {payload : EventPayload} {hist' : History}
      (hown : sessionId = id → payload.chunkText.isSome → ∃ client, writer = .reader client)
      (hstep : hist.step (.draw sessionId agent payload) = some hist') :
      Logged id hist writers hist' (writers ++ [writer])
  | push {k : ℕ} {hist' : History} (hstep : hist.step (.push k) = some hist') :
      Logged id hist writers hist' writers
  | send {k : ℕ} {hist' : History} (hstep : hist.step (.send k) = some hist') :
      Logged id hist writers hist' writers

def World.logged (w w' : World) : Prop := Logged w.id w.hist w.writers w'.hist w'.writers

structure Framed (w w' : World) : Prop where
  id : w'.id = w.id
  sys : w'.sys = w.sys
  turns : w'.turns = w.turns

theorem draw_logged {w w' : World} {writer : Writer} {sessionId agent : String}
    {payload : EventPayload}
    (hown : sessionId = w.id → payload.chunkText.isSome → ∃ client, writer = .reader client)
    (h : w.draw writer sessionId agent payload = some w') : w.logged w' ∧ Framed w w' := by
  unfold World.draw at h
  split at h
  · cases h
  · next hist hstep =>
    cases h
    exact ⟨Logged.draw hown hstep, rfl, rfl, rfl⟩

theorem emit_logged {w w' : World} {writer : Writer} {payloads : List EventPayload}
    (hown : ∀ payload ∈ payloads, payload.chunkText.isSome → ∃ client, writer = .reader client)
    (h : w.emit writer payloads = some w') : w.logged w' ∧ Framed w w' := by
  cases payloads with
  | nil =>
    cases h
    exact ⟨Logged.same, rfl, rfl, rfl⟩
  | cons payload payloads =>
    exact draw_logged (fun _ hp => hown payload List.mem_cons_self hp) h

theorem appended_chunkless {w : World} {sys : Sys} {writer : Writer}
    (h : sys.session.events = w.sys.session.events ∨
      ∃ payload, sys.session.events = w.sys.session.events ++ [payload] ∧
        payload.chunkText = none) :
    ∀ payload ∈ w.appended sys, payload.chunkText.isSome → ∃ client, writer = .reader client := by
  intro payload hmem hchunk
  unfold World.appended at hmem
  rcases h with h | ⟨p, h, hp⟩
  · simp [h] at hmem
  · simp only [h, List.drop_left, List.mem_singleton] at hmem
    simp [hmem, hp] at hchunk

theorem askStep_emit {w w' : World} {i : ℕ} {o : Outcome} (h : w.askStep i o = some w') :
    ∃ pc session pc', w.sys.asks[i]? = some pc ∧ w.idle (.ask i) = true ∧
      w.agrees i pc o = true ∧ Session.askStep i w.sys.session pc o = some (session, pc') ∧
      World.emit
        { w with
          sys := { w.sys with session := session, asks := w.sys.asks.set i pc' }
          turns := Function.update w.turns i (w.nextTurn (w.turns i) pc) }
        (.ask i)
        (w.appended { w.sys with session := session, asks := w.sys.asks.set i pc' }) =
          some w' := by
  unfold World.askStep at h
  split at h
  · next pc sys hpc hsys =>
    split at h
    · next hguard =>
      obtain ⟨pc₁, session, pc', hpc₁, hstep, rfl⟩ := Sys.step_askStep hsys
      have heq : pc₁ = pc := Option.some.inj (hpc₁.symm.trans hpc)
      subst heq
      exact ⟨pc₁, session, pc', hpc, hguard.1, hguard.2, hstep, h⟩
    · cases h
  · cases h

theorem shutdownStep_emit {w w' : World} {j : ℕ} (h : w.shutdownStep j = some w') :
    ∃ pc session pc', Session.shutdownStep w.sys.session pc = some (session, pc') ∧
      World.emit
        { w with
          sys := { w.sys with session := session, shutdowns := w.sys.shutdowns.set j pc' } }
        (.shutdown j)
        (w.appended { w.sys with session := session, shutdowns := w.sys.shutdowns.set j pc' }) =
          some w' := by
  unfold World.shutdownStep at h
  split at h
  · next pc sys hpc hsys =>
    split at h
    · obtain ⟨pc₁, session, pc', -, hstep, rfl⟩ := Sys.step_shutdownStep hsys
      exact ⟨pc₁, session, pc', hstep, h⟩
    · cases h
  · cases h

section Inversion
variable {w w' : World} {i : ℕ}

theorem drop_inv (h : w.step (.session (.drop i)) = some w') :
    ∃ pc, w.sys.asks[i]? = some pc ∧ pc.atAwait = true ∧
      w' = { w with
        sys := { w.sys with
          session := w.sys.session.release i
          asks := w.sys.asks.set i .dropped } } := by
  simp only [World.step] at h
  split at h
  · obtain ⟨sys, hsys, rfl⟩ := Option.map_eq_some_iff.mp h
    obtain ⟨pc, hpc, hat, rfl⟩ := Sys.step_drop hsys
    exact ⟨pc, hpc, hat, rfl⟩
  · cases h

theorem update_inv {client : ClientId} {update : SessionUpdate}
    (h : w.step (.update client update) = some w') : w.reading client = true ∧
      (handleSessionUpdate update = none ∧ w' = w ∨
        ∃ payload hist, handleSessionUpdate update = some payload ∧
          w.hist.step (.draw w.id w.agent payload) = some hist ∧
          w' = { w with hist := hist, writers := w.writers ++ [.reader client] }) := by
  simp only [World.step] at h
  split at h
  · next hreading =>
    refine ⟨hreading, ?_⟩
    cases hu : handleSessionUpdate update with
    | none =>
      rw [hu] at h
      exact .inl ⟨rfl, (Option.some.inj h).symm⟩
    | some payload =>
      rw [hu] at h
      simp only [Option.toList, World.emit, World.draw] at h
      split at h
      · cases h
      · next hist hstep => exact .inr ⟨payload, hist, rfl, hstep, (Option.some.inj h).symm⟩
  · cases h

theorem respond_inv (h : w.step (.respond i) = some w') :
    ∃ start client, w.sys.asks[i]? = some (.awaitPrompt start client) ∧
      w' = { w with
        turns := Function.update w.turns i
          { w.turns i with responded := some w.hist.pushed.length } } := by
  simp only [World.step] at h
  split at h
  · next start client hpc =>
    split at h
    · exact ⟨start, client, hpc, (Option.some.inj h).symm⟩
    · cases h
  · cases h

theorem exit_inv {client : ClientId} (h : w.step (.exit client) = some w') :
    w' = { w with exited := client :: w.exited } := by
  simp only [World.step] at h
  split at h
  · exact (Option.some.inj h).symm
  · cases h

theorem other_inv {sessionId agent : String} {payload : EventPayload}
    (h : w.step (.other sessionId agent payload) = some w') :
    ¬ (sessionId = w.id ∧ payload.chunkText.isSome = true) ∧
      w.draw .other sessionId agent payload = some w' := by
  simp only [World.step] at h
  split at h
  · cases h
  · next hforeign => exact ⟨hforeign, h⟩

end Inversion

theorem step_askStep {w w' : World} {i : ℕ} {o : Outcome} (h : w.askStep i o = some w') :
    ∃ pc session pc', w.sys.asks[i]? = some pc ∧ w.idle (.ask i) = true ∧
      w.agrees i pc o = true ∧ Session.askStep i w.sys.session pc o = some (session, pc') ∧
      w.logged w' ∧ w'.id = w.id ∧
      w'.sys = { w.sys with session := session, asks := w.sys.asks.set i pc' } ∧
      w'.turns = Function.update w.turns i (w.nextTurn (w.turns i) pc) := by
  obtain ⟨pc, session, pc', hpc, hidle, hagrees, hstep, hemit⟩ := askStep_emit h
  obtain ⟨hlog, hframe⟩ := emit_logged (appended_chunkless (askStep_events hstep)) hemit
  exact ⟨pc, session, pc', hpc, hidle, hagrees, hstep, hlog, hframe.id, hframe.sys,
    hframe.turns⟩

theorem step_shutdownStep {w w' : World} {j : ℕ} (h : w.shutdownStep j = some w') :
    w.logged w' ∧ w'.id = w.id ∧ w'.sys.asks = w.sys.asks ∧
      w'.sys.session.turnGuard = w.sys.session.turnGuard ∧ w'.turns = w.turns := by
  obtain ⟨pc, session, pc', hstep, hemit⟩ := shutdownStep_emit h
  obtain ⟨hlog, hframe⟩ := emit_logged (appended_chunkless (shutdownStep_events hstep)) hemit
  exact ⟨hlog, hframe.id, by rw [hframe.sys],
    by rw [hframe.sys]; exact shutdownStep_turnGuard hstep, hframe.turns⟩

structure Recorded (id : String) (hist : History) (writers : List Writer) : Prop where
  kept : hist.Kept
  length : writers.length = hist.sys.appends.length
  own : ∀ (k : ℕ) (a : AppendCall), hist.sys.appends[k]? = some a → isChunk id a.event = true →
    ∃ client, writers[k]? = some (.reader client)

theorem recorded_new (id : String) (maxEntries : ℕ) : Recorded id (.new maxEntries) [] := by
  refine ⟨History.new_kept maxEntries, rfl, ?_⟩
  intro k a hk
  simp [History.new, LogSys.new] at hk

theorem Recorded.set {id : String} {hist : History} {writers : List Writer}
    (h : Recorded id hist writers) {hist' : History} (hkept : hist'.Kept) {k : ℕ}
    {e : SessionEvent} {st st' : Stage} (hk : hist.sys.appends[k]? = some ⟨e, st⟩)
    (happends : hist'.sys.appends = hist.sys.appends.set k ⟨e, st'⟩) :
    Recorded id hist' writers := by
  refine ⟨hkept, by rw [happends, List.length_set, h.length], ?_⟩
  intro j a hj hchunk
  rw [happends] at hj
  rcases Pool.set_cases hj with ⟨rfl, rfl⟩ | ⟨-, hj⟩
  · exact h.own k _ hk hchunk
  · exact h.own j a hj hchunk

theorem Recorded.step {id : String} {hist hist' : History} {writers writers' : List Writer}
    (h : Recorded id hist writers) (hlog : Logged id hist writers hist' writers') :
    Recorded id hist' writers' := by
  cases hlog with
  | same => exact h
  | @draw writer sessionId agent payload _ hown hstep =>
    refine ⟨History.step_kept h.kept hstep, ?_, ?_⟩
    · cases hstep
      simp [h.length]
    · intro k a hk hchunk
      cases hstep
      rcases Pool.spawn_cases hk with hk | ⟨rfl, rfl⟩
      · obtain ⟨client, hc⟩ := h.own k a hk hchunk
        have hlt := (List.getElem?_eq_some_iff.mp hc).1
        exact ⟨client, by rw [List.getElem?_append_left hlt, hc]⟩
      · obtain ⟨hid, htext⟩ := isChunk_iff.mp hchunk
        obtain ⟨client, rfl⟩ := hown hid htext
        exact ⟨client, by rw [← h.length, List.getElem?_concat_length]⟩
  | push hstep =>
    have hkept := History.step_kept h.kept hstep
    obtain ⟨e, hk, -, hsys⟩ := History.step_push hstep
    exact h.set hkept hk (by rw [hsys])
  | send hstep =>
    have hkept := History.step_kept h.kept hstep
    obtain ⟨e, hk, -, hsys⟩ := History.step_send hstep
    exact h.set hkept hk (by rw [hsys])

structure Grows (hist hist' : History) : Prop where
  pushed : hist.pushed <+: hist'.pushed
  maxEntries : hist'.log.maxEntries = hist.log.maxEntries

theorem Logged.grows {id : String} {hist hist' : History} {writers writers' : List Writer}
    (hlog : Logged id hist writers hist' writers') : Grows hist hist' := by
  cases hlog with
  | same => exact ⟨List.prefix_refl _, rfl⟩
  | draw _ hstep | push hstep | send hstep =>
    exact ⟨History.step_pushed hstep, History.step_maxEntries hstep⟩

def nextStart : Next → Option ℕ
  | .touch start _ => some start
  | _ => none

def startOf : AskPc → Option ℕ
  | .readClient start | .readSessionId start _ | .prompt start _ _ | .awaitPrompt start _ =>
    some start
  | .setProcess next | .setTurn next | .emit next => nextStart next
  | .touch start _ | .storeTouch start _ _ | .turnComplete start _ | .loadMin start
  | .collect start _ => some start
  | _ => none

def answerOf : AskPc → Option String
  | .returning (.ok text) | .returned (.ok text) => some text
  | _ => none

def minOf : AskPc → Option ℕ
  | .collect _ min => some min
  | _ => none

inductive Move (o : Outcome) : AskPc → AskPc → Prop
  | away {pc pc' : AskPc} (hstart : startOf pc' = none) (hanswer : answerOf pc' = none) :
      Move o pc pc'
  | startSeq {seq : ℕ} (ho : o = .loaded seq) : Move o .startSeq (.readClient seq)
  | on {pc pc' : AskPc} {start : ℕ} (hpc : startOf pc = some start)
      (hstart : startOf pc' = some start) (hanswer : answerOf pc' = none)
      (hmin : minOf pc' = none) : Move o pc pc'
  | loadMin {start min : ℕ} (ho : o = .loaded min) : Move o (.loadMin start) (.collect start min)
  | collect {start min : ℕ} {text : String} (ho : o = .collected text) :
      Move o (.collect start min) (.returning (.ok text))
  | returning {text : String} : Move o (.returning (.ok text)) (.returned (.ok text))

theorem askStep_move {i : ℕ} {s s' : AcpSession} {pc pc' : AskPc} {o : Outcome}
    (h : askStep i s pc o = some (s', pc')) : Move o pc pc' := by
  cases pc
  case returning result =>
    cases h
    cases result with
    | ok text => exact .returning
    | err error => exact .away rfl rfl
  case emit next =>
    cases h
    cases next with
    | touch start stopReason => exact .on rfl rfl rfl rfl
    | _ => exact .away rfl rfl
  case setProcess next | setTurn next =>
    cases h
    cases next with
    | touch start stopReason => exact .on rfl rfl rfl rfl
    | _ => exact .away rfl rfl
  all_goals
    simp only [askStep] at h
    repeat' split at h
    all_goals
      cases h
      try first
        | exact .away rfl rfl
        | exact .startSeq rfl
        | exact .loadMin rfl
        | exact .collect rfl
        | exact .on rfl rfl rfl rfl

structure Marked (hist : History) (turn : Turn) (start : ℕ) : Prop where
  load : turn.start = start
  pos : 0 < start
  mark : turn.mark ≤ hist.pushed.length
  before : ∀ e ∈ hist.pushed.take turn.mark, e.seq < start

def Turn.takes (id : String) (turn : Turn) (e : SessionEvent) : Bool :=
  isChunk id e ∧ (turn.start < turn.min ∨ turn.start ≤ e.seq)

theorem takes_iff {id : String} {turn : Turn} {e : SessionEvent} : turn.takes id e = true ↔
    isChunk id e = true ∧ (turn.start < turn.min ∨ turn.start ≤ e.seq) := by
  simp only [Turn.takes, decide_eq_true_eq]

structure Answered (id : String) (hist : History) (turn : Turn) (text : String) : Prop where
  text : text = textOf turn.collected
  collected : turn.collected =
    (turn.history.rtake hist.log.maxEntries).filter (turn.takes id)
  history : turn.history <+: hist.pushed
  before : ∀ e ∈ turn.history.take turn.mark, e.seq < turn.start
  front : turn.start < turn.min →
    turn.mark ≤ turn.history.length - hist.log.maxEntries

theorem Answered.mem_collected {id text : String} {hist : History} {turn : Turn}
    {e : SessionEvent} (hans : Answered id hist turn text) : e ∈ turn.collected ↔
      e ∈ turn.history.rtake hist.log.maxEntries ∧ turn.takes id e = true := by
  rw [hans.collected, List.mem_filter]

/-- What the answer takes was pushed after `start_seq` was loaded: the replay is
the whole deque only if that no longer holds anything older. -/
theorem Answered.pushed_late {id text : String} {hist : History} {turn : Turn}
    {e : SessionEvent} (hans : Answered id hist turn text) (he : e ∈ turn.collected) :
    e ∈ turn.history.drop turn.mark := by
  obtain ⟨hkept, htakes⟩ := hans.mem_collected.mp he
  rcases (takes_iff.mp htakes).2 with hmin | hseq
  · have hfront := hans.front hmin
    have hsplit : turn.history.rtake hist.log.maxEntries <:+ turn.history.drop turn.mark := by
      rw [List.rtake, ← Nat.add_sub_of_le hfront, ← List.drop_drop]
      exact List.drop_suffix _ _
    exact hsplit.subset hkept
  · have hin : e ∈ turn.history := (BoundedQueue.rtake_suffix _ _).subset hkept
    rw [← List.take_append_drop turn.mark turn.history] at hin
    rcases List.mem_append.mp hin with hold | hnew
    · have hlt := hans.before e hold
      omega
    · exact hnew

structure TurnInv (id : String) (hist : History) (turn : Turn) (pc : AskPc) : Prop where
  marked : ∀ start, startOf pc = some start → Marked hist turn start
  front : ∀ start min, pc = .collect start min → start < min →
    turn.mark ≤ hist.pushed.length - hist.log.maxEntries
  answered : ∀ text, answerOf pc = some text → Answered id hist turn text

theorem TurnInv.away {id : String} {hist : History} {turn : Turn} {pc : AskPc}
    (hstart : startOf pc = none) (hanswer : answerOf pc = none) : TurnInv id hist turn pc := by
  constructor
  · intro start h
    rw [hstart] at h
    cases h
  · rintro start min rfl
    cases hstart
  · intro text h
    rw [hanswer] at h
    cases h

theorem Marked.grow {hist hist' : History} {turn : Turn} {start : ℕ}
    (h : Marked hist turn start) (hg : Grows hist hist') : Marked hist' turn start := by
  obtain ⟨l, hl⟩ := hg.pushed
  refine ⟨h.load, h.pos, h.mark.trans hg.pushed.length_le, ?_⟩
  rw [← hl, List.take_append_of_le_length h.mark]
  exact h.before

theorem TurnInv.grow {id : String} {hist hist' : History} {turn : Turn} {pc : AskPc}
    (h : TurnInv id hist turn pc) (hg : Grows hist hist') : TurnInv id hist' turn pc := by
  constructor
  · intro start hpc
    exact (h.marked start hpc).grow hg
  · intro start min hpc hlt
    have hold := h.front start min hpc hlt
    have hlen := hg.pushed.length_le
    rw [hg.maxEntries]
    omega
  · intro text hpc
    obtain ⟨htext, hcoll, hhist, hbefore, hfront⟩ := h.answered text hpc
    exact ⟨htext, by rw [hg.maxEntries]; exact hcoll, hhist.trans hg.pushed, hbefore,
      by rw [hg.maxEntries]; exact hfront⟩

theorem TurnInv.respond {id : String} {hist : History} {turn : Turn} {pc : AskPc}
    (h : TurnInv id hist turn pc) (responded : Option ℕ) :
    TurnInv id hist { turn with responded := responded } pc := by
  constructor
  · intro start hpc
    obtain ⟨hstart, hpos, hmark, hbefore⟩ := h.marked start hpc
    exact ⟨hstart, hpos, hmark, hbefore⟩
  · exact h.front
  · intro text hpc
    obtain ⟨htext, hcoll, hhist, hbefore, hfront⟩ := h.answered text hpc
    exact ⟨htext, hcoll, hhist, hbefore, hfront⟩

/-- The first retained event has a number after `start_seq` only if everything
pushed before the load is gone. -/
theorem mark_le_of_lt_min {hist : History} (hk : hist.Kept) {turn : Turn} {start : ℕ}
    (hm : Marked hist turn start) (hlt : start < hist.log.minSeq) :
    turn.mark ≤ hist.pushed.length - hist.log.maxEntries := by
  by_contra hcon
  rw [hk.min, hk.events] at hlt
  cases hq : hist.pushed.rtake hist.log.maxEntries with
  | nil =>
    rw [hq] at hlt
    cases hlt
  | cons first rest =>
    rw [hq] at hlt
    have hfirst : hist.pushed[hist.pushed.length - hist.log.maxEntries]? = some first := by
      have h0 := congrArg (·[0]?) hq
      simpa [List.rtake] using h0
    have hmem : first ∈ hist.pushed.take turn.mark := by
      apply List.mem_of_getElem? (i := hist.pushed.length - hist.log.maxEntries)
      rw [List.getElem?_take_of_lt (by omega)]
      exact hfirst
    have hseq := hm.before first hmem
    simp only [History.firstSeq] at hlt
    omega

theorem replayed_chunks {hist : History} (hk : hist.Kept) {id : String} {turn : Turn}
    {start min : ℕ} (hm : Marked hist turn start) (hmin : turn.min = min) :
    (hist.log.replayFrom min start).events.filter (isChunk id) =
      (hist.pushed.rtake hist.log.maxEntries).filter (turn.takes id) := by
  rw [← hk.events]
  unfold EventLog.replayFrom
  have hpos := hm.pos
  split
  · next hpart =>
    apply List.filter_congr
    intro e _
    simp only [Turn.takes, hm.load, hmin, hpart.2.1, true_or, and_true, Bool.decide_eq_true]
  · next hwhole =>
    have hge : ¬ start < min := by omega
    simp only [ReplayResult.events, List.filter_filter]
    apply List.filter_congr
    intro e _
    simp only [Turn.takes, hm.load, hmin, hge, false_or, Bool.decide_and, Bool.decide_eq_true]

inductive Moved (w w' : World) (i : ℕ) (pc' : AskPc) : Prop
  | away (hstart : startOf pc' = none) (hanswer : answerOf pc' = none) : Moved w w' i pc'
  | stay (responded : Option ℕ) (hpc : w.sys.asks[i]? = some pc')
      (hturn : w'.turns i = { w.turns i with responded := responded }) : Moved w w' i pc'
  | step {pc : AskPc} {o : Outcome} {s s' : AcpSession} (hpc : w.sys.asks[i]? = some pc)
      (hagrees : w.agrees i pc o = true) (hstep : Session.askStep i s pc o = some (s', pc'))
      (hturn : w'.turns i = w.nextTurn (w.turns i) pc) : Moved w w' i pc'

theorem Moved.keep {w w' : World} {i : ℕ} {pc' : AskPc} (hpc : w.sys.asks[i]? = some pc')
    (hturn : w'.turns i = w.turns i) : Moved w w' i pc' :=
  .stay (w.turns i).responded hpc hturn

theorem Moved.same {w w' : World} {i : ℕ} {pc' : AskPc} (hasks : w'.sys.asks = w.sys.asks)
    (hturns : w'.turns = w.turns) (hpc : w'.sys.asks[i]? = some pc') : Moved w w' i pc' :=
  .keep (by rw [← hasks]; exact hpc) (by rw [hturns])

inductive Stepped (w : World) : Action → World → Prop
  | ask {i : ℕ} {o : Outcome} {pc pc' : AskPc} {w' : World} (hpc : w.sys.asks[i]? = some pc)
      (hidle : w.idle (.ask i) = true) (hagrees : w.agrees i pc o = true)
      (hstep : Session.askStep i w.sys.session pc o = some (w'.sys.session, pc'))
      (hasks : w'.sys.asks = w.sys.asks.set i pc')
      (hturns : w'.turns = Function.update w.turns i (w.nextTurn (w.turns i) pc)) :
      Stepped w (.session (.askStep i o)) w'
  | drop {i : ℕ} {pc : AskPc} {w' : World} (hpc : w.sys.asks[i]? = some pc)
      (hsession : w'.sys.session = w.sys.session.release i)
      (hasks : w'.sys.asks = w.sys.asks.set i .dropped) (hturns : w'.turns = w.turns) :
      Stepped w (.session (.drop i)) w'
  | call {w' : World} (hsession : w'.sys.session = w.sys.session)
      (hasks : w'.sys.asks = w.sys.asks ++ [.tryLock]) (hturns : w'.turns = w.turns) :
      Stepped w (.session .ask) w'
  | respond {i start : ℕ} {client : ClientId} {w' : World}
      (hpc : w.sys.asks[i]? = some (.awaitPrompt start client)) (hsys : w'.sys = w.sys)
      (hturns : w'.turns = Function.update w.turns i
        { w.turns i with responded := some w.hist.pushed.length }) :
      Stepped w (.respond i) w'
  | aside {a : Action} {w' : World} (hother : ∀ i o, a ≠ .session (.askStep i o))
      (hasks : w'.sys.asks = w.sys.asks)
      (hguard : w'.sys.session.turnGuard = w.sys.session.turnGuard)
      (hturns : w'.turns = w.turns) : Stepped w a w'

theorem step_stepped {w w' : World} {a : Action} (h : w.step a = some w') :
    w.logged w' ∧ w'.id = w.id ∧ Stepped w a w' := by
  cases a with
  | session a =>
    cases a with
    | ask =>
      cases h
      exact ⟨Logged.same, rfl, .call rfl rfl rfl⟩
    | askStep i o =>
      obtain ⟨pc, session, pc', hpc, hidle, hagrees, hstep, hlog, hid, hsys, hturns⟩ :=
        step_askStep h
      exact ⟨hlog, hid, .ask hpc hidle hagrees (by rw [hsys]; exact hstep) (by rw [hsys]) hturns⟩
    | drop i =>
      obtain ⟨pc, hpc, -, rfl⟩ := drop_inv h
      exact ⟨Logged.same, rfl, .drop hpc rfl rfl rfl⟩
    | shutdown =>
      cases h
      exact ⟨Logged.same, rfl, .aside (by simp) rfl rfl rfl⟩
    | shutdownStep j =>
      obtain ⟨hlog, hid, hasks, hguard, hturns⟩ := step_shutdownStep h
      exact ⟨hlog, hid, .aside (by simp) hasks hguard hturns⟩
  | update client update =>
    obtain ⟨-, ⟨-, rfl⟩ | ⟨payload, hist, -, hstep, rfl⟩⟩ := update_inv h
    · exact ⟨Logged.same, rfl, .aside (by simp) rfl rfl rfl⟩
    · exact ⟨Logged.draw (fun _ _ => ⟨client, rfl⟩) hstep, rfl, .aside (by simp) rfl rfl rfl⟩
  | respond i =>
    obtain ⟨start, client, hpc, rfl⟩ := respond_inv h
    exact ⟨Logged.same, rfl, .respond hpc rfl rfl⟩
  | exit client =>
    obtain rfl := exit_inv h
    exact ⟨Logged.same, rfl, .aside (by simp) rfl rfl rfl⟩
  | other sessionId agent payload =>
    obtain ⟨hforeign, hdraw⟩ := other_inv h
    obtain ⟨hlog, hframe⟩ := draw_logged (fun hid hp => absurd ⟨hid, hp⟩ hforeign) hdraw
    exact ⟨hlog, hframe.id,
      .aside (by simp) (by rw [hframe.sys]) (by rw [hframe.sys]) hframe.turns⟩
  | push k =>
    obtain ⟨hist, hstep, rfl⟩ := Option.map_eq_some_iff.mp h
    exact ⟨Logged.push hstep, rfl, .aside (by simp) rfl rfl rfl⟩
  | send k =>
    obtain ⟨hist, hstep, rfl⟩ := Option.map_eq_some_iff.mp h
    exact ⟨Logged.send hstep, rfl, .aside (by simp) rfl rfl rfl⟩

theorem Stepped.moved {w w' : World} {a : Action} (h : Stepped w a w') {j : ℕ} {pc₁ : AskPc}
    (hj : w'.sys.asks[j]? = some pc₁) : Moved w w' j pc₁ := by
  cases h with
  | @ask i o pc pc' _ hpc _ hagrees hstep hasks hturns =>
    rw [hasks] at hj
    rcases Pool.set_cases hj with ⟨rfl, rfl⟩ | ⟨hij, hj⟩
    · exact .step hpc hagrees hstep (by rw [hturns, Function.update_self])
    · exact .keep hj (by rw [hturns, Function.update_of_ne (Ne.symm hij)])
  | drop hpc hsession hasks hturns =>
    rw [hasks] at hj
    rcases Pool.set_cases hj with ⟨-, rfl⟩ | ⟨-, hj⟩
    · exact .away rfl rfl
    · exact .keep hj (by rw [hturns])
  | call hsession hasks hturns =>
    rw [hasks] at hj
    rcases Pool.spawn_cases hj with hj | ⟨-, rfl⟩
    · exact .keep hj (by rw [hturns])
    · exact .away rfl rfl
  | @respond i _ _ _ hpc hsys hturns =>
    rw [hsys] at hj
    by_cases hij : j = i
    · subst hij
      exact .stay _ hj (by rw [hturns, Function.update_self])
    · exact .keep hj (by rw [hturns, Function.update_of_ne hij])
  | aside hother hasks hguard hturns => exact .same hasks hturns hj

theorem step_frame {w w' : World} {a : Action} (h : w.step a = some w') :
    w.logged w' ∧ w'.id = w.id ∧
      ∀ (i : ℕ) (pc : AskPc), w'.sys.asks[i]? = some pc → Moved w w' i pc := by
  obtain ⟨hlog, hid, hstepped⟩ := step_stepped h
  exact ⟨hlog, hid, fun i pc hpc => hstepped.moved hpc⟩

structure Inv (id : String) (maxEntries : ℕ) (w : World) : Prop where
  id : w.id = id
  maxEntries : w.hist.log.maxEntries = maxEntries
  recorded : Recorded w.id w.hist w.writers
  turns : ∀ (i : ℕ) (pc : AskPc), w.sys.asks[i]? = some pc →
    TurnInv w.id w.hist (w.turns i) pc

theorem inv_new (id agent : String) (maxEntries now : ℕ) :
    Inv id maxEntries (.new id agent maxEntries now) := by
  refine ⟨rfl, rfl, recorded_new id maxEntries, ?_⟩
  intro i pc hpc
  simp [World.new, Sys.new] at hpc

theorem TurnInv.move {w : World} {i : ℕ} {pc pc' : AskPc} {o : Outcome} {s s' : AcpSession}
    (hk : w.hist.Kept) (h : TurnInv w.id w.hist (w.turns i) pc)
    (hagrees : w.agrees i pc o = true) (hstep : Session.askStep i s pc o = some (s', pc')) :
    TurnInv w.id w.hist (w.nextTurn (w.turns i) pc) pc' := by
  have hmove := askStep_move hstep
  cases hmove with
  | away hstart hanswer => exact .away hstart hanswer
  | @startSeq seq ho =>
    subst ho
    have hseq : seq = w.hist.log.nextSeq := of_decide_eq_true hagrees
    refine ⟨?_, nofun, nofun⟩
    intro start hs
    cases hs
    refine ⟨hseq.symm, ?_, le_rfl, ?_⟩
    · have hnext : w.hist.log.nextSeq = w.hist.sys.appends.length + 1 := hk.numbered.next
      omega
    · intro e he
      rw [hseq]
      exact hk.seq_lt (List.mem_of_mem_take he)
  | on hpc hstart hanswer hmin =>
    have hkeep : (w.nextTurn (w.turns i) pc).start = (w.turns i).start ∧
        (w.nextTurn (w.turns i) pc).mark = (w.turns i).mark := by
      cases pc
      case startSeq => cases hpc
      all_goals exact ⟨rfl, rfl⟩
    refine ⟨?_, ?_, ?_⟩
    · intro start hs
      rw [hstart] at hs
      cases hs
      obtain ⟨hload, hpos, hmark, hbefore⟩ := h.marked _ hpc
      exact ⟨hkeep.1.trans hload, hpos, by rw [hkeep.2]; exact hmark,
        by rw [hkeep.2]; exact hbefore⟩
    · intro start min hs
      rw [hs] at hmin
      cases hmin
    · intro text ht
      rw [hanswer] at ht
      cases ht
  | @loadMin start min ho =>
    subst ho
    have hmin : min = w.hist.log.minSeq := of_decide_eq_true hagrees
    have hm := h.marked start rfl
    refine ⟨?_, ?_, nofun⟩
    · intro start hs
      cases hs
      exact hm
    · intro start min hs hlt
      cases hs
      exact mark_le_of_lt_min hk hm (hmin ▸ hlt)
  | @collect start min text ho =>
    subst ho
    have htext : text = collectMessageText w.id (w.hist.log.replayFrom min start) :=
      of_decide_eq_true hagrees
    have hm := h.marked start rfl
    refine ⟨nofun, nofun, ?_⟩
    intro text' ht
    cases ht
    refine ⟨htext.trans (collectMessageText_eq _ _), ?_, List.prefix_refl _, ?_, ?_⟩
    · have hm' : Marked w.hist (w.nextTurn (w.turns i) (.collect start min)) start :=
        ⟨hm.load, hm.pos, hm.mark, hm.before⟩
      exact replayed_chunks hk hm' rfl
    · intro e he
      exact hm.load.symm ▸ hm.before e he
    · intro hlt
      exact h.front start min rfl (hm.load ▸ hlt)
  | returning =>
    refine ⟨nofun, nofun, ?_⟩
    intro text ht
    exact h.answered text ht

theorem step_inv {id : String} {maxEntries : ℕ} (w : World) (a : Action) (w' : World)
    (h : Inv id maxEntries w) (hs : w.step a = some w') : Inv id maxEntries w' := by
  obtain ⟨hlog, hid, hmoved⟩ := step_frame hs
  have hgrows := Logged.grows hlog
  refine ⟨hid.trans h.id, hgrows.maxEntries.trans h.maxEntries, ?_, ?_⟩
  · rw [hid]
    exact h.recorded.step hlog
  · intro i pc' hpc'
    rw [hid]
    cases hmoved i pc' hpc' with
    | away hstart hanswer => exact .away hstart hanswer
    | stay responded hpc hturn =>
      rw [hturn]
      exact ((h.turns i pc' hpc).grow hgrows).respond responded
    | step hpc hagrees hstep hturn =>
      rw [hturn]
      exact ((h.turns i _ hpc).move h.recorded.kept hagrees hstep).grow hgrows

theorem run_inv {id agent : String} {maxEntries now : ℕ} {acts : List Action} {w : World}
    (hrun : run World.step (.new id agent maxEntries now) acts = some w) :
    Inv id maxEntries w :=
  preserved step_inv (inv_new id agent maxEntries now) hrun

end Ccgonext.Conversation
