import Ccgonext.ClientGone

/-!
# What goes over the wire

The action task keeps the socket from the first message of a replay to the last,
so what the client is sent is a sequence of blocks: single live events, and whole
replays with their notice before them, one for each `Subscribe` and in the order
of the commands. Only a send that fails cuts a replay short, and then there is no
replay behind it.
-/

namespace Ccgonext.HandleSocket
open Lib Lib.Runs Lib.Broadcast Mpsc Events EventOrder WebSocket Handover JsonRpc

/-- A part of what was sent: a live event, or the first `n` events of a replay, with
or without the notice that events are missing. -/
inductive Block
  | live (event : SessionEvent)
  | replay (r : Replay) (announced : Bool) (n : ℕ)
  deriving DecidableEq, Repr

def Replay.notice (r : Replay) (announced : Bool) : List Message :=
  match r.result with
  | .complete _ => []
  | .partly _ oldest => if announced then [.replayGap oldest r.fromSeq] else []

def Block.messages : Block → List Message
  | .live event => [.event event]
  | .replay r announced n => r.notice announced ++ (r.result.events.take n).map Message.event

def lives : List Block → List SessionEvent
  | [] => []
  | .live event :: blocks => event :: lives blocks
  | .replay .. :: blocks => lives blocks

def replaysOf : List Block → List Replay
  | [] => []
  | .live _ :: blocks => replaysOf blocks
  | .replay r _ _ :: blocks => r :: replaysOf blocks

theorem lives_append (l l' : List Block) : lives (l ++ l') = lives l ++ lives l' := by
  induction l with
  | nil => rfl
  | cons b l ih => cases b <;> simp only [List.cons_append, lives, ih]

theorem replaysOf_append (l l' : List Block) :
    replaysOf (l ++ l') = replaysOf l ++ replaysOf l' := by
  induction l with
  | nil => rfl
  | cons b l ih => cases b <;> simp only [List.cons_append, replaysOf, ih]

def Replay.Told (r : Replay) (announced : Bool) : Prop :=
  ∀ events oldest, r.result = .partly events oldest → announced = true

/-- All of the replay was sent, and the notice as well where sends work. -/
def Block.Whole (works : Prop) : Block → Prop
  | .live _ => True
  | .replay r announced n => r.result.events.length ≤ n ∧ (works → r.Told announced)

def AllWhole (works : Prop) (blocks : List Block) : Prop := ∀ b ∈ blocks, b.Whole works

/-- No replay but the last is cut short. -/
def CutLast (works : Prop) (blocks : List Block) : Prop :=
  AllWhole works blocks ∨ ∃ before r announced n, ∃ events : List SessionEvent,
    blocks = before ++ .replay r announced n :: events.map .live ∧ AllWhole works before

def Writing (works : Prop) (fromSeq : ℕ) (replays : List Replay) (blocks : List Block) :
    ActionPc → Prop
  | .lock result => ∃ r, replays = replaysOf blocks ++ [r] ∧ r.fromSeq = fromSeq ∧
    r.result = result ∧ AllWhole works blocks
  | .gap oldest events => ∃ before r, blocks = before ++ [.replay r false 0] ∧
    replays = replaysOf blocks ∧ r.fromSeq = fromSeq ∧ r.result = .partly events oldest ∧
    AllWhole works before
  | .send events _ => ∃ before r announced n, blocks = before ++ [.replay r announced n] ∧
    replays = replaysOf blocks ∧ events = r.result.events.drop n ∧
    (works → r.Told announced) ∧ AllWhole works before
  | .ended => replays = replaysOf blocks ∧ CutLast works blocks ∧
    (works → AllWhole works blocks)
  | .recv | .loadMin | .read _ | .storeSeq _ | .storeStarted | .notify | .unlock | .done =>
    replays = replaysOf blocks ∧ AllWhole works blocks

def loaded (min : ℕ) (c : Connection) : Action → ℕ
  | .actionTask .. => if c.socket.actionPc = .loadMin then c.socket.hist.log.minSeq else min
  | _ => min

def readBy (min : ℕ) (c : Connection) : Action → List Replay
  | .actionTask .. =>
    match c.socket.actionPc with
    | .read _ => [⟨c.socket.fromSeq, min, c.socket.hist.log⟩]
    | _ => []
  | _ => []

/-- The reads of the log that a run makes, each with the log as it was then. -/
def readsOf (parse : List Char → Option Json) : ℕ → Connection → List Action → List Replay
  | _, _, [] => []
  | min, c, a :: acts =>
    match c.step parse a with
    | none => []
    | some c' => readBy min c a ++ readsOf parse (loaded min c a) c' acts

def held : SendPc → List SessionEvent
  | .load event | .store event | .lock event | .send event => [event]
  | .notified | .check _ | .await _ | .recv | .ended => []

structure Wired (works : Prop) (c : Connection) (blocks : List Block) : Prop where
  messages : c.socket.messages = blocks.flatMap Block.messages
  live : ∃ r, c.socket.hist.receiver c.socket.rx = some r ∧
    (lives blocks ++ held c.socket.sendPc).Sublist r.taken
  writing : Writing works c.socket.fromSeq c.replays blocks c.socket.actionPc

section Blocks
variable {works : Prop} {blocks : List Block} {r : Replay} {n : ℕ}

theorem AllWhole.concat (h : AllWhole works blocks) {b : Block} (hb : b.Whole works) :
    AllWhole works (blocks ++ [b]) := by
  intro d hd
  rcases List.mem_append.mp hd with hd | hd
  · exact h d hd
  · rw [List.mem_singleton.mp hd]
    exact hb

theorem CutLast.live (h : CutLast works blocks) (event : SessionEvent) :
    CutLast works (blocks ++ [.live event]) := by
  rcases h with hall | ⟨before, r, announced, n, events, rfl, hbefore⟩
  · exact .inl (hall.concat trivial)
  · refine .inr ⟨before, r, announced, n, events ++ [event], ?_, hbefore⟩
    rw [List.map_append, List.append_assoc, List.cons_append]
    rfl

theorem notice_false (r : Replay) : r.notice false = [] := by
  unfold Replay.notice
  split <;> rfl

theorem notice_true {events : List SessionEvent} {oldest : ℕ}
    (h : r.result = .partly events oldest) : r.notice true = [.replayGap oldest r.fromSeq] := by
  simp only [Replay.notice, h, if_true]

theorem messages_notice (r : Replay) (announced : Bool) :
    (Block.replay r announced 0).messages = r.notice announced := by
  simp only [Block.messages, List.take_zero, List.map_nil, List.append_nil]

theorem messages_new (r : Replay) : (Block.replay r false 0).messages = [] := by
  rw [messages_notice, notice_false]

theorem messages_succ (announced : Bool) {e : SessionEvent} {events : List SessionEvent}
    (h : e :: events = r.result.events.drop n) :
    (Block.replay r announced (n + 1)).messages =
      (Block.replay r announced n).messages ++ [.event e] ∧
      events = r.result.events.drop (n + 1) := by
  have hlt : n < r.result.events.length := by
    by_contra hle
    rw [List.drop_eq_nil_of_le (Nat.not_lt.mp hle)] at h
    cases h
  rw [List.drop_eq_getElem_cons hlt, List.cons.injEq] at h
  obtain ⟨he, hevents⟩ := h
  refine ⟨?_, hevents⟩
  simp only [Block.messages]
  rw [List.take_succ_eq_append_getElem hlt, List.map_append, List.append_assoc, ← he]
  rfl

theorem flatMap_concat (blocks : List Block) (b : Block) :
    (blocks ++ [b]).flatMap Block.messages = blocks.flatMap Block.messages ++ b.messages := by
  simp only [List.flatMap_append, List.flatMap_cons, List.flatMap_nil, List.append_nil]

theorem replaysOf_concat (blocks : List Block) (r : Replay) (announced : Bool) (n : ℕ) :
    replaysOf (blocks ++ [.replay r announced n]) = replaysOf blocks ++ [r] :=
  replaysOf_append blocks _

theorem lives_concat (blocks : List Block) (r : Replay) (announced : Bool) (n : ℕ) :
    lives (blocks ++ [.replay r announced n]) = lives blocks := by
  rw [lives_append]
  exact List.append_nil _

end Blocks

section Steps
variable {works : Prop} {parse : List Char → Option Json} {c c' : Connection} {a : Action}
  {blocks : List Block}

theorem connect_wired (works : Prop) (h : History) : Wired works (connect h) [] where
  messages := rfl
  live := ⟨Receiver.new, connect_receiver h 0, List.Sublist.refl _⟩
  writing := ⟨rfl, fun _ hb => absurd hb List.not_mem_nil⟩

theorem Writing.idle {fromSeq : ℕ} {replays : List Replay} {pc : ActionPc}
    (h : Writing works fromSeq replays blocks pc) (hidle : Idle pc) :
    replays = replaysOf blocks ∧ AllWhole works blocks := by
  rcases hidle with rfl | rfl <;> exact h

theorem Writing.live {fromSeq : ℕ} {replays : List Replay} {pc : ActionPc}
    (h : Writing works fromSeq replays blocks pc) (hfree : ¬ Holding pc) (event : SessionEvent) :
    Writing works fromSeq replays (blocks ++ [.live event]) pc := by
  have hsame : replaysOf (blocks ++ [.live event]) = replaysOf blocks := by
    rw [replaysOf_append]
    exact List.append_nil _
  cases pc with
  | gap oldest events => exact absurd trivial hfree
  | send events seq => exact absurd trivial hfree
  | lock result =>
    obtain ⟨r, hreplays, hfrom, hresult, hall⟩ := h
    exact ⟨r, by rw [hreplays, hsame], hfrom, hresult, hall.concat trivial⟩
  | ended =>
    obtain ⟨hreplays, hcut, hall⟩ := h
    exact ⟨by rw [hreplays, hsame], hcut.live event, fun hw => (hall hw).concat trivial⟩
  | recv | loadMin | done => exact ⟨by rw [h.1, hsame], h.2.concat trivial⟩
  | read min => exact ⟨by rw [h.1, hsame], h.2.concat trivial⟩
  | storeSeq seq | storeStarted | notify | unlock => exact absurd trivial hfree

theorem actionStep_writing {w : Socket} {sent : Bool}
    (hm : c.socket.messages = blocks.flatMap Block.messages)
    (h : Writing works c.socket.fromSeq c.replays blocks c.socket.actionPc)
    (hw : works → sent = true) (hbusy : ¬ Idle c.socket.actionPc)
    (hs : c.socket.actionStep sent = some w) :
    ∃ blocks' : List Block, w.messages = blocks'.flatMap Block.messages ∧
      lives blocks' = lives blocks ∧
      Writing works w.fromSeq (c.replays ++ c.reads) blocks' w.actionPc := by
  have hno : (∀ min, c.socket.actionPc ≠ .read min) → c.replays ++ c.reads = c.replays := by
    intro hpc
    unfold Connection.reads
    split
    · next min hread => exact absurd hread (hpc min)
    · exact List.append_nil _
  cases hpc : c.socket.actionPc <;>
    simp only [Socket.actionStep, hpc, Option.some.injEq] at hs <;> rw [hpc] at h
  case recv => exact absurd (.inl hpc) hbusy
  case loadMin =>
    subst hs
    rw [hno (by simp [hpc])]
    exact ⟨blocks, hm, rfl, h⟩
  case read min =>
    subst hs
    obtain ⟨hreplays, hall⟩ := h
    refine ⟨blocks, hm, rfl, ⟨c.socket.fromSeq, min, c.socket.hist.log⟩, ?_, rfl, rfl, hall⟩
    simp only [Connection.reads, hpc, hreplays]
  case lock result =>
    rw [hno (by simp [hpc])]
    obtain ⟨r, hreplays, hfrom, rfl, hall⟩ := h
    split at hs <;> cases hs
    refine ⟨blocks ++ [.replay r false 0], ?_, lives_concat .., ?_⟩
    · rw [flatMap_concat, messages_new, List.append_nil]
      exact hm
    · have hreplays' : c.replays = replaysOf (blocks ++ [.replay r false 0]) := by
        rw [hreplays, replaysOf_concat]
      dsimp only
      cases hresult : r.result with
      | complete events =>
        refine ⟨blocks, r, false, 0, rfl, hreplays', by rw [hresult]; rfl, fun _ => ?_, hall⟩
        intro d oldest hpartly
        rw [hresult] at hpartly
        cases hpartly
      | partly events oldest => exact ⟨blocks, r, rfl, hreplays', hfrom, hresult, hall⟩
  case gap oldest events =>
    rw [hno (by simp [hpc])]
    subst hs
    obtain ⟨before, r, rfl, hreplays, hfrom, hresult, hall⟩ := h
    refine ⟨before ++ [.replay r sent 0], ?_, ?_, before, r, sent, 0, rfl, ?_, ?_, ?_, hall⟩
    · have hbefore : c.socket.messages = before.flatMap Block.messages := by
        rw [hm, flatMap_concat, messages_new, List.append_nil]
      rw [flatMap_concat, ← hbefore, messages_notice, ← hfrom]
      cases sent with
      | true => rw [notice_true hresult, if_pos rfl]
      | false => rw [notice_false, if_neg Bool.false_ne_true]
    · rw [lives_concat, lives_concat]
    · rw [hreplays, replaysOf_concat, replaysOf_concat]
    · rw [hresult]
      rfl
    · exact fun hworks _ _ _ => hw hworks
  case send events seq =>
    rw [hno (by simp [hpc])]
    obtain ⟨before, r, announced, n, rfl, hreplays, hevents, htold, hall⟩ := h
    cases events with
    | nil =>
      cases hs
      refine ⟨_, hm, rfl, hreplays, hall.concat ⟨?_, htold⟩⟩
      exact List.drop_eq_nil_iff.mp hevents.symm
    | cons e events =>
      obtain ⟨hmessages, hrest⟩ := messages_succ announced hevents
      cases hsent : sent with
      | true =>
        simp only [hsent, if_true, Option.some.injEq] at hs
        subst hs
        refine ⟨before ++ [.replay r announced (n + 1)], ?_, ?_, before, r, announced, n + 1, rfl,
          ?_, hrest, htold, hall⟩
        · rw [flatMap_concat, hmessages, ← List.append_assoc, ← flatMap_concat, hm]
        · rw [lives_concat, lives_concat]
        · rw [hreplays, replaysOf_concat, replaysOf_concat]
      | false =>
        simp only [hsent, Bool.false_eq_true, if_false, Option.some.injEq] at hs
        subst hs
        refine ⟨_, hm, rfl, hreplays, .inr ⟨before, r, announced, n, [], rfl, hall⟩, ?_⟩
        intro hworks
        rw [hw hworks] at hsent
        cases hsent
  case done => exact absurd (.inr hpc) hbusy
  case ended => cases hs
  all_goals
    subst hs
    rw [hno (by simp [hpc])]
    exact ⟨blocks, hm, rfl, h⟩

def Sends : Action → Prop
  | .sendTask sent => sent = true
  | .actionTask sent _ => sent = true
  | _ => True

instance (a : Action) : Decidable (Sends a) := by
  rcases a <;> dsimp only [Sends] <;> infer_instance

theorem Wired.log (h : Wired works c blocks) {a : LogAction} {w : Socket}
    (hs : c.socket.step (.log a) = some w) : Wired works { c with socket := w } blocks := by
  obtain ⟨hne, hist, hstep, rfl⟩ := Handover.step_log hs
  obtain ⟨r, hr, hsub⟩ := h.live
  refine ⟨h.messages, ?_, h.writing⟩
  rcases History.receiver_step hr hne hstep with ⟨-, hsame⟩ | ⟨k, e, -, -, hoffer⟩
  · exact ⟨r, hsame, hsub⟩
  · exact ⟨_, hoffer, hsub⟩

theorem Wired.recv (h : Wired works c blocks) (hpc : c.socket.sendPc = .recv) {w : Socket}
    (hs : c.socket.recvStep = some w) : Wired works { c with socket := w } blocks := by
  obtain ⟨r, hr, hsub⟩ := h.live
  rw [hpc] at hsub
  have hlives : (lives blocks).Sublist r.taken := by
    rw [held, List.append_nil] at hsub
    exact hsub
  obtain ⟨hist, hstep, hr', hcases⟩ := recvStep_cases hr hs
  rcases hcases with ⟨rfl, htaken⟩ | ⟨e, rfl, htaken⟩
  · refine ⟨h.messages, ⟨_, hr', ?_⟩, h.writing⟩
    rw [htaken]
    dsimp only
    rw [hpc, held, List.append_nil]
    exact hlives
  · refine ⟨h.messages, ⟨_, hr', ?_⟩, h.writing⟩
    rw [htaken]
    exact hlives.append (List.Sublist.refl _)

theorem Wired.moved (h : Wired works c blocks) {w : Socket} (hist : w.hist = c.socket.hist)
    (hrx : w.rx = c.socket.rx) (hmessages : w.messages = c.socket.messages)
    (hheld : (held w.sendPc).Sublist (held c.socket.sendPc))
    (hfrom : w.fromSeq = c.socket.fromSeq) (haction : w.actionPc = c.socket.actionPc) :
    Wired works { c with socket := w } blocks := by
  obtain ⟨r, hr, hsub⟩ := h.live
  refine ⟨hmessages.trans h.messages, ⟨r, ?_, ?_⟩, ?_⟩
  · dsimp only
    rw [hist, hrx]
    exact hr
  · exact ((List.Sublist.refl _).append hheld).trans hsub
  · dsimp only
    rw [hfrom, haction]
    exact h.writing

theorem Wired.sendTask (h : Wired works c blocks) (hg : Guarded c.socket) {sent : Bool}
    {w : Socket} (hs : c.socket.sendStep sent = some w) :
    ∃ blocks', Wired works { c with socket := w } blocks' := by
  cases hpc : c.socket.sendPc <;> simp only [Socket.sendStep, hpc, Option.some.injEq] at hs
  case recv => exact ⟨blocks, h.recv hpc hs⟩
  case send e =>
    have hfree : ¬ Holding c.socket.actionPc := by
      intro hhold
      have htaken := hg.actionTask.mpr hhold
      rw [hg.sendTask.mpr ⟨e, hpc⟩] at htaken
      cases htaken
    cases hsent : sent with
    | true =>
      simp only [hsent, if_true, Option.some.injEq] at hs
      subst hs
      obtain ⟨r, hr, hsub⟩ := h.live
      rw [hpc] at hsub
      refine ⟨blocks ++ [.live e], ?_, ⟨r, hr, ?_⟩, h.writing.live hfree e⟩
      · rw [flatMap_concat, ← h.messages]
        rfl
      · rw [lives_append]
        dsimp only
        rw [held, List.append_nil]
        exact hsub
    | false =>
      simp only [hsent, Bool.false_eq_true, if_false, Option.some.injEq] at hs
      subst hs
      exact ⟨blocks, h.moved rfl rfl rfl (List.nil_sublist _) rfl rfl⟩
  case ended => cases hs
  case await seen =>
    split at hs <;> cases hs
    exact ⟨blocks, h.moved rfl rfl rfl (List.nil_sublist _) rfl rfl⟩
  case lock e =>
    split at hs <;> cases hs
    refine ⟨blocks, h.moved rfl rfl rfl ?_ rfl rfl⟩
    rw [hpc]
    exact List.Sublist.refl _
  case check seen =>
    subst hs
    refine ⟨blocks, h.moved rfl rfl rfl ?_ rfl rfl⟩
    dsimp only
    split <;> exact List.nil_sublist _
  case load e =>
    subst hs
    refine ⟨blocks, h.moved rfl rfl rfl ?_ rfl rfl⟩
    dsimp only
    rw [hpc]
    split
    · exact List.nil_sublist _
    · exact List.Sublist.refl _
  case notified =>
    subst hs
    exact ⟨blocks, h.moved rfl rfl rfl (List.nil_sublist _) rfl rfl⟩
  case store e =>
    subst hs
    refine ⟨blocks, h.moved rfl rfl rfl ?_ rfl rfl⟩
    rw [hpc]
    exact List.Sublist.refl _

theorem actionStep_keeps {w w' : Socket} {sent : Bool} (hs : w.actionStep sent = some w') :
    w'.hist = w.hist ∧ w'.rx = w.rx ∧ w'.sendPc = w.sendPc := by
  obtain ⟨hhist, hrx, -, -⟩ := actionStep_frame hs
  refine ⟨hhist, hrx, ?_⟩
  cases hpc : w.actionPc <;> simp only [Socket.actionStep, hpc, Option.some.injEq] at hs
  case lock replay =>
    split at hs <;> cases hs
    rfl
  case send events seq =>
    cases events with
    | nil =>
      cases hs
      rfl
    | cons e events =>
      simp only at hs
      split at hs <;> cases hs <;> rfl
  case done | ended => cases hs
  all_goals
    subst hs
    rfl

theorem Wired.replayed (h : Wired works c blocks) {sent : Bool} {w : Socket}
    (hsends : works → sent = true) (hbusy : ¬ Idle c.socket.actionPc)
    (hs : c.socket.actionStep sent = some w) (hsocket : c'.socket = w)
    (hreplays : c'.replays = c.replays ++ c.reads) : ∃ blocks', Wired works c' blocks' := by
  obtain ⟨blocks', hmessages, hlives, hwriting⟩ :=
    actionStep_writing h.messages h.writing hsends hbusy hs
  obtain ⟨hhist, hrx, hsend⟩ := actionStep_keeps hs
  obtain ⟨r, hr, hsub⟩ := h.live
  refine ⟨blocks', by rwa [hsocket], ⟨r, ?_, ?_⟩, ?_⟩
  · rw [hsocket, hhist, hrx]
    exact hr
  · rw [hsocket, hsend, hlives]
    exact hsub
  · rw [hsocket, hreplays]
    exact hwriting

theorem Wired.same (h : Wired works c blocks) (hsocket : c'.socket = c.socket)
    (hreplays : c'.replays = c.replays) : Wired works c' blocks := by
  refine ⟨?_, ?_, ?_⟩
  · rw [hsocket]
    exact h.messages
  · rw [hsocket]
    exact h.live
  · rw [hsocket, hreplays]
    exact h.writing

theorem Wired.setAction (h : Wired works c blocks) (hidle : Idle c.socket.actionPc)
    (pc : ActionPc) (fromSeq : ℕ)
    (hpc : replaysOf blocks = c.replays → AllWhole works blocks →
      Writing works fromSeq c.replays blocks pc)
    (hsocket : c'.socket = { c.socket with fromSeq := fromSeq, actionPc := pc })
    (hreplays : c'.replays = c.replays) : Wired works c' blocks := by
  obtain ⟨hall, hwhole⟩ := h.writing.idle hidle
  refine ⟨?_, ?_, ?_⟩
  · rw [hsocket]
    exact h.messages
  · rw [hsocket]
    exact h.live
  · rw [hsocket, hreplays]
    exact hpc hall.symm hwhole

theorem step_wired (hw : ∃ blocks, Wired works c blocks) (ha : Awake c)
    (hsends : works → Sends a) (hs : c.step parse a = some c') :
    ∃ blocks, Wired works c' blocks := by
  obtain ⟨blocks, h⟩ := hw
  cases step_moved hs with
  | log a w hw => exact ⟨blocks, h.log hw⟩
  | sent sent w hw => exact h.sendTask ha.guarded hw
  | skipped f hf => exact ⟨blocks, h⟩
  | received f cmd hpc hf => exact ⟨blocks, h.same rfl rfl⟩
  | gone f hpc hf => exact ⟨blocks, h.same rfl rfl⟩
  | queued cmd actions hpc hsend => exact ⟨blocks, h.same rfl rfl⟩
  | refused cmd hpc hsend => exact ⟨blocks, h.same rfl rfl⟩
  | answered sent found answering hans =>
    cases answering <;> exact ⟨blocks, h.same rfl rfl⟩
  | took sent found cmd actions hans hidle hrecv =>
    have hidle := (idle_iff hans).mp hidle
    cases cmd with
    | subscribe fromSeq =>
      exact ⟨blocks, h.setAction hidle .loadMin fromSeq (fun hr hall => ⟨hr.symm, hall⟩) rfl rfl⟩
    | prompt sessionId text | cancel sessionId => exact ⟨blocks, h.same rfl rfl⟩
    | permissionResponse sessionId id granted => exact ⟨blocks, h.same rfl rfl⟩
  | drained sent found hans hidle hrecv =>
    exact ⟨blocks, h.setAction ((idle_iff hans).mp hidle) .ended c.socket.fromSeq
      (fun hr hall => ⟨hr.symm, .inl hall, fun _ => hall⟩) rfl rfl⟩
  | replayed sent found w hans hbusy hw =>
    refine h.replayed hsends ?_ hw rfl rfl
    rw [← idle_iff hans, hbusy]
    exact Bool.false_ne_true
  | finished hend hreturned => exact ⟨blocks, h.same rfl rfl⟩

theorem Writing.cut {fromSeq : ℕ} {replays : List Replay} {pc : ActionPc}
    (h : Writing works fromSeq replays blocks pc) : CutLast works blocks := by
  cases pc with
  | lock result =>
    obtain ⟨r, -, -, -, hall⟩ := h
    exact .inl hall
  | gap oldest events =>
    obtain ⟨before, r, rfl, -, -, -, hall⟩ := h
    exact .inr ⟨before, r, false, 0, [], rfl, hall⟩
  | send events seq =>
    obtain ⟨before, r, announced, n, rfl, -, -, -, hall⟩ := h
    exact .inr ⟨before, r, announced, n, [], rfl, hall⟩
  | ended => exact h.2.1
  | recv | loadMin | done => exact .inl h.2
  | read min => exact .inl h.2
  | storeSeq seq | storeStarted | notify | unlock => exact .inl h.2

theorem Writing.whole {fromSeq : ℕ} {replays : List Replay} {pc : ActionPc}
    (h : Writing works fromSeq replays blocks pc) (hw : works) (hfree : ¬ Holding pc) :
    AllWhole works blocks := by
  cases pc with
  | lock result =>
    obtain ⟨r, -, -, -, hall⟩ := h
    exact hall
  | gap oldest events => exact absurd trivial hfree
  | send events seq => exact absurd trivial hfree
  | ended => exact h.2.2 hw
  | recv | loadMin | done => exact h.2
  | read min => exact h.2
  | storeSeq seq | storeStarted | notify | unlock => exact h.2

theorem Writing.replays {fromSeq : ℕ} {replays : List Replay} {pc : ActionPc}
    (h : Writing works fromSeq replays blocks pc) : replaysOf blocks <+: replays := by
  cases pc with
  | lock result =>
    obtain ⟨r, rfl, -, -, -⟩ := h
    exact ⟨[r], rfl⟩
  | gap oldest events =>
    obtain ⟨before, r, -, rfl, -, -, -⟩ := h
    exact List.prefix_rfl
  | send events seq =>
    obtain ⟨before, r, announced, n, -, rfl, -, -, -⟩ := h
    exact List.prefix_rfl
  | ended => exact ⟨[], by rw [h.1, List.append_nil]⟩
  | recv | loadMin | done => exact ⟨[], by rw [h.1, List.append_nil]⟩
  | read min => exact ⟨[], by rw [h.1, List.append_nil]⟩
  | storeSeq seq | storeStarted | notify | unlock => exact ⟨[], by rw [h.1, List.append_nil]⟩

theorem Writing.replays_eq {fromSeq : ℕ} {replays : List Replay} {pc : ActionPc}
    (h : Writing works fromSeq replays blocks pc) (hpc : ∀ result, pc ≠ .lock result) :
    replays = replaysOf blocks := by
  cases pc with
  | lock result => exact absurd rfl (hpc result)
  | gap oldest events =>
    obtain ⟨before, r, -, heq, -, -, -⟩ := h
    exact heq
  | send events seq =>
    obtain ⟨before, r, announced, n, -, heq, -, -, -⟩ := h
    exact heq
  | ended => exact h.1
  | recv | loadMin | done => exact h.1
  | read min => exact h.1
  | storeSeq seq | storeStarted | notify | unlock => exact h.1

variable {h : History} {acts : List Action}

def Loaded (min : ℕ) (c : Connection) : Prop := ∀ m, c.socket.actionPc = .read m → m = min

theorem readBy_idle (hidle : Idle c.socket.actionPc) (min : ℕ) (a : Action) :
    readBy min c a = [] := by
  cases a with
  | actionTask sent found => rcases hidle with hpc | hpc <;> simp only [readBy, hpc]
  | _ => rfl

theorem actionStep_loaded {w w' : Socket} {sent : Bool} {m : ℕ}
    (hs : w.actionStep sent = some w') (hpc : w'.actionPc = .read m) :
    w.actionPc = .loadMin ∧ m = w.hist.log.minSeq := by
  cases hw : w.actionPc <;> simp only [Socket.actionStep, hw, Option.some.injEq] at hs
  case loadMin =>
    subst hs
    cases hpc
    exact ⟨rfl, rfl⟩
  case lock replay =>
    split at hs <;> cases hs
    cases replay <;> cases hpc
  case send events seq =>
    cases events with
    | nil =>
      cases hs
      cases hpc
    | cons e events =>
      simp only at hs
      split at hs <;> cases hs <;> cases hpc
  case done | ended => cases hs
  all_goals
    subst hs
    cases hpc

theorem step_reads {min : ℕ} (hlane : Lane c) (hl : Loaded min c) (hs : c.step parse a = some c') :
    c'.replays = c.replays ++ readBy min c a ∧ Loaded (loaded min c a) c' := by
  have hidle : ∀ {c' : Connection}, Idle c.socket.actionPc → c'.replays = c.replays →
      (∀ m, c'.socket.actionPc ≠ .read m) →
      c'.replays = c.replays ++ readBy min c a ∧ Loaded (loaded min c a) c' := by
    intro c' hidle hsame hno
    rw [readBy_idle hidle, List.append_nil]
    exact ⟨hsame, fun m hm => absurd hm (hno m)⟩
  cases step_moved hs with
  | log a w hw =>
    obtain ⟨-, hist, -, rfl⟩ := Handover.step_log hw
    exact ⟨(List.append_nil _).symm, hl⟩
  | sent sent w hw =>
    refine ⟨(List.append_nil _).symm, fun m hm => hl m ?_⟩
    rw [← (sendStep_still hw).1]
    exact hm
  | skipped f hf => exact ⟨(List.append_nil _).symm, hl⟩
  | received f cmd hpc hf => exact ⟨(List.append_nil _).symm, hl⟩
  | gone f hpc hf => exact ⟨(List.append_nil _).symm, hl⟩
  | queued cmd actions hpc hsend => exact ⟨(List.append_nil _).symm, hl⟩
  | refused cmd hpc hsend => exact ⟨(List.append_nil _).symm, hl⟩
  | answered sent found answering hans =>
    have hrest := hlane.alone (by rw [hans]; exact Option.some_ne_none _)
    have hno : ∀ m, c.socket.actionPc ≠ .read m := by
      intro m hm
      rcases hrest with hpc | hpc <;> rw [hpc] at hm <;> cases hm
    cases answering <;> exact hidle hrest rfl hno
  | took sent found cmd actions hans hrest hrecv =>
    have hrest := (idle_iff hans).mp hrest
    have hno : ∀ m, c.socket.actionPc ≠ .read m := by
      intro m hm
      rcases hrest with hpc | hpc <;> rw [hpc] at hm <;> cases hm
    refine hidle hrest (handle_frame _ cmd).2.2.2.2.1 ?_
    cases cmd with
    | subscribe fromSeq =>
      intro m hm
      cases hm
    | _ => exact hno
  | drained sent found hans hrest hrecv =>
    refine hidle ((idle_iff hans).mp hrest) rfl fun m hm => ?_
    cases hm
  | replayed sent found w hans hbusy hw =>
    refine ⟨?_, fun m hm => ?_⟩
    · refine congrArg (c.replays ++ ·) ?_
      unfold Connection.reads
      split
      · next m hpc => simp only [readBy, hpc, hl m hpc]
      · next hno =>
        simp only [readBy]
    · obtain ⟨hpc, rfl⟩ := actionStep_loaded hw hm
      simp only [loaded, hpc, if_true]
  | finished hend hreturned => exact ⟨(List.append_nil _).symm, hl⟩

/-- The recorded reads are the ones that the run has made. -/
theorem run_reads {min : ℕ} (hlane : Lane c) (hl : Loaded min c)
    (hrun : run (Connection.step parse) c acts = some c') :
    c'.replays = c.replays ++ readsOf parse min c acts := by
  induction acts generalizing c min with
  | nil =>
    cases hrun
    exact (List.append_nil _).symm
  | cons a acts ih =>
    obtain ⟨d, hs, hrun⟩ := run_cons_inv hrun
    obtain ⟨hreplays, hd⟩ := step_reads hlane hl hs
    rw [ih (step_lane hlane hs) hd hrun, hreplays, List.append_assoc]
    simp only [readsOf, hs]

theorem run_wired (hrun : run (Connection.step parse) (connect h) acts = some c) :
    ∃ blocks, Wired (Along (Connection.step parse) (fun _ a => Sends a) (connect h) acts) c
      blocks := by
  by_cases hsends : Along (Connection.step parse) (fun _ a => Sends a) (connect h) acts
  · rw [eq_true hsends]
    exact (invariant (I := fun c => (∃ blocks, Wired True c blocks) ∧ Awake c)
      (fun _ _ _ hi ha hs => ⟨step_wired hi.1 hi.2 (fun _ => ha) hs, step_awake hi.2 hs⟩)
      ⟨⟨[], connect_wired True h⟩, (connect_whole h).awake⟩ hsends hrun).1
  · rw [eq_false hsends]
    exact (preserved (I := fun c => (∃ blocks, Wired False c blocks) ∧ Awake c)
      (fun _ _ _ hi hs => ⟨step_wired hi.1 hi.2 False.elim hs, step_awake hi.2 hs⟩)
      ⟨⟨[], connect_wired False h⟩, (connect_whole h).awake⟩ hrun).1

/-- What the client is sent is a sequence of blocks: live events as the channel
handed them over, and replays: of the reads of the log that the run has made, each
for its `Subscribe` and all of them in their order, but for a read that still waits
for the socket. Only the last replay is ever cut short, and where all sends work none
is cut and each gap is announced right before the events of its replay. -/
theorem wire_blocks (hrun : run (Connection.step parse) (connect h) acts = some c) :
    ∃ blocks r, c.socket.messages = blocks.flatMap Block.messages ∧
      c.socket.hist.receiver c.socket.rx = some r ∧ (lives blocks).Sublist r.taken ∧
      (replaysOf blocks).map Replay.fromSeq <+: subscribesOf (commands parse acts) ∧
      replaysOf blocks <+: readsOf parse 0 (connect h) acts ∧
      ((∀ result, c.socket.actionPc ≠ .lock result) →
        replaysOf blocks = readsOf parse 0 (connect h) acts) ∧
      CutLast (Along (Connection.step parse) (fun _ a => Sends a) (connect h) acts) blocks ∧
      (Along (Connection.step parse) (fun _ a => Sends a) (connect h) acts →
        ¬ Holding c.socket.actionPc → AllWhole True blocks) := by
  obtain ⟨blocks, hwired⟩ := run_wired hrun
  obtain ⟨r, hr, hsub⟩ := hwired.live
  obtain ⟨htaken, -, -, hreplays, -, -⟩ := commands_in_order hrun
  have hmade : c.replays = readsOf parse 0 (connect h) acts :=
    run_reads (connect_lane h) (fun m hm => by cases hm) hrun
  refine ⟨blocks, r, hwired.messages, hr, (List.sublist_append_left _ _).trans hsub, ?_,
    hmade ▸ hwired.writing.replays, fun hfree => hmade ▸ (hwired.writing.replays_eq hfree).symm,
    hwired.writing.cut, fun hsends hfree => ?_⟩
  · have hread : c.replays.map Replay.fromSeq <+: subscribesOf c.actions.taken := ⟨_, hreplays⟩
    obtain ⟨rest, hrest⟩ := htaken
    rw [← hrest, subscribesOf_append]
    exact ((hwired.writing.replays.map _).trans hread).trans (List.prefix_append _ _)
  · have hall := hwired.writing.whole hsends hfree
    rwa [eq_true hsends] at hall

/-- A log of one event has lost the first; the third comes behind the replay. -/
def gapThenLive : List Action :=
  [.log (.draw "s" "codex" (.messageChunk "a")), .log (.push 0), .log (.send 0),
    .log (.draw "s" "codex" (.messageChunk "b")), .log (.push 1), .log (.send 1),
    .frame (.text ['s']), .recvTask] ++ List.replicate 11 (.actionTask true true) ++
    [.log (.draw "s" "codex" (.messageChunk "c")), .log (.push 2), .log (.send 2)] ++
    List.replicate 11 (.sendTask true)

theorem wire_blocks_gapThenLive :
    ∃ c, run (Connection.step wire) (connect (.new 1)) gapThenLive = some c ∧
      c.socket.messages.length = 3 ∧
      ∃ blocks, c.socket.messages = blocks.flatMap Block.messages ∧
        ((replaysOf blocks).map fun r => (r.fromSeq, r.min, r.log.events.map (·.seq))) =
          [(1, 2, [2])] ∧
        AllWhole True blocks := by
  obtain ⟨c, hrun, hlen, hpc⟩ := exists_run (s := connect (.new 1))
    (fun c : Connection => c.socket.messages.length = 3 ∧ c.socket.actionPc = .done)
    (by decide +kernel : (run (Connection.step wire) (connect (.new 1)) gapThenLive).any _ = true)
  obtain ⟨blocks, r, hmessages, -, -, -, -, hreads, -, hwhole⟩ := wire_blocks hrun
  refine ⟨c, hrun, hlen, blocks, hmessages, ?_, hwhole (by decide +kernel) ?_⟩
  · rw [hreads fun result hlock => by rw [hpc] at hlock; cases hlock]
    decide +kernel
  · rw [hpc]
    exact id

end Steps

end Ccgonext.HandleSocket
