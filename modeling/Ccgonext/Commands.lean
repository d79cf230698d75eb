import Ccgonext.HandleSocket
import Ccgonext.Handover

/-!
# The commands of a client

Whatever the tasks do meanwhile, the action task takes the commands in the order
in which they came, each once, and at most 32 of them wait for it. They still
wait when the client has gone: `handle_socket` returns with its first task, and
the action task goes on until the queue is empty. Only a replay that cannot be
sent ends it before that.
-/

namespace Ccgonext.HandleSocket
open Lib Lib.Runs Mpsc Events WebSocket Handover JsonRpc

def subscribesOf : List ClientMessage → List ℕ
  | [] => []
  | .subscribe fromSeq :: cmds => fromSeq :: subscribesOf cmds
  | _ :: cmds => subscribesOf cmds

def answersOf : List ClientMessage → List PermissionResponse
  | [] => []
  | .permissionResponse sessionId id granted :: cmds => ⟨sessionId, id, granted⟩ :: answersOf cmds
  | _ :: cmds => answersOf cmds

theorem subscribesOf_append (l l' : List ClientMessage) :
    subscribesOf (l ++ l') = subscribesOf l ++ subscribesOf l' := by
  induction l with
  | nil => rfl
  | cons cmd l ih => cases cmd <;> simp only [List.cons_append, subscribesOf, ih]

theorem answersOf_append (l l' : List ClientMessage) :
    answersOf (l ++ l') = answersOf l ++ answersOf l' := by
  induction l with
  | nil => rfl
  | cons cmd l ih => cases cmd <;> simp only [List.cons_append, answersOf, ih]

def inHand : RecvPc → List ClientMessage
  | .send cmd => [cmd]
  | .next | .ended => []

def unread (w : Socket) : List ℕ :=
  match w.actionPc with
  | .loadMin | .read _ => [w.fromSeq]
  | _ => []

def unanswered : Option Answering → List PermissionResponse
  | some (.getById r) | some (.respond r) => [r]
  | none => []

def Idle (pc : ActionPc) : Prop := pc = .recv ∨ pc = .done

def Finds : Action → Prop
  | .actionTask _ found => found = true
  | _ => True

instance (a : Action) : Decidable (Finds a) := by
  rcases a <;> dsimp only [Finds] <;> infer_instance

structure Lane (c : Connection) : Prop where
  sound : c.actions.Sound
  capacity : c.actions.capacity = 32
  senders : c.actions.senders =
    (if c.recvPc = .ended then 0 else 1) + (if c.returned then 0 else 1)
  reading : c.actions.reading = true ↔ c.socket.actionPc ≠ .ended
  received : c.received = c.actions.accepted ++ inHand c.recvPc ∨
    c.recvPc = .ended ∧ c.actions.reading = false ∧ c.actions.accepted <+: c.received
  replays : c.replays.map Replay.fromSeq ++ unread c.socket = subscribesOf c.actions.taken
  answers : (c.answers ++ unanswered c.answering).Sublist (answersOf c.actions.taken)
  alone : c.answering ≠ none → Idle c.socket.actionPc

section Socket
variable {w w' : Socket} {sent : Bool}

theorem recvStep_frame (h : w.recvStep = some w') :
    ∃ hist sendPc, w' = { w with hist := hist, sendPc := sendPc } := by
  unfold Socket.recvStep at h
  split at h
  · split at h
    · cases h
      exact ⟨_, _, rfl⟩
    · cases h
      exact ⟨_, w.sendPc, rfl⟩
    · cases h
  · cases h

theorem sendStep_still (h : w.sendStep sent = some w') :
    w'.actionPc = w.actionPc ∧ w'.fromSeq = w.fromSeq ∧ w'.replayStarted = w.replayStarted := by
  by_cases hpc : w.sendPc = .recv
  · simp only [Socket.sendStep, hpc] at h
    obtain ⟨hist, sendPc, rfl⟩ := recvStep_frame h
    exact ⟨rfl, rfl, rfl⟩
  · obtain ⟨messages, sender, sendPc, replaySeq, rfl⟩ := sendStep_frame hpc h
    exact ⟨rfl, rfl, rfl⟩

theorem unread_idle (h : Idle w.actionPc) : unread w = [] := by
  rcases h with h | h <;> rw [unread, h]

theorem reads_unread {c : Connection} (hne : ¬ Idle c.socket.actionPc)
    (h : c.socket.actionStep sent = some w) :
    c.reads.map Replay.fromSeq ++ unread w = unread c.socket := by
  cases hpc : c.socket.actionPc <;>
    simp only [Socket.actionStep, hpc, Option.some.injEq] at h
  case recv => exact absurd (.inl hpc) hne
  case done => cases h
  case ended => cases h
  case lock replay =>
    split at h <;> cases h
    cases replay <;> simp only [Connection.reads, unread, hpc, ActionPc.locked] <;> rfl
  case send events maxReplayedSeq =>
    cases events with
    | nil =>
      cases h
      simp only [Connection.reads, unread, hpc]
      rfl
    | cons e events =>
      simp only at h
      split at h <;> cases h <;>
        · simp only [Connection.reads, unread, hpc]
          rfl
  all_goals
    subst h
    simp only [Connection.reads, unread, hpc]
    rfl

theorem actionStep_ended (h : w.actionStep sent = some w') (hend : w'.actionPc = .ended) :
    sent = false ∧ ∃ e events maxReplayedSeq, w.actionPc = .send (e :: events) maxReplayedSeq := by
  cases hpc : w.actionPc <;> simp only [Socket.actionStep, hpc, Option.some.injEq] at h
  case lock replay =>
    split at h <;> cases h
    cases replay <;> cases hend
  case send events maxReplayedSeq =>
    cases events with
    | nil =>
      cases h
      cases hend
    | cons e events =>
      cases hsent : sent <;> simp only [hsent, Bool.false_eq_true, if_true, if_false] at h
      · exact ⟨rfl, e, events, maxReplayedSeq, rfl⟩
      · cases h
        cases hend
  case done | ended => cases h
  all_goals
    subst h
    cases hend

end Socket

section Lane
variable {parse : List Char → Option Json} {c c' : Connection} {a : Action}

theorem connect_lane (h : History) : Lane (connect h) where
  sound := Queue.new_sound 32 2
  capacity := rfl
  senders := rfl
  reading := ⟨fun _ => by simp [connect, WebSocket.connect], fun _ => rfl⟩
  received := .inl rfl
  replays := rfl
  answers := List.Sublist.refl _
  alone := fun h => absurd rfl h

theorem Lane.socket (h : Lane c) {w : Socket} (hpc : w.actionPc = c.socket.actionPc)
    (hfrom : w.fromSeq = c.socket.fromSeq) : Lane { c with socket := w } := by
  have hunread : unread w = unread c.socket := by simp only [unread, hpc, hfrom]
  refine ⟨h.sound, h.capacity, h.senders, ?_, h.received, ?_, h.answers, ?_⟩
  · rw [hpc]
    exact h.reading
  · rw [hunread]
    exact h.replays
  · rw [hpc]
    exact h.alone

theorem Lane.endRecv (h : Lane c) (hpc : c.recvPc = .next ∨ c.actions.reading = false)
    (hlive : c.recvPc ≠ .ended) : Lane c.endRecv := by
  refine ⟨h.sound.dropSender, h.capacity, ?_, h.reading, ?_, h.replays, h.answers, h.alone⟩
  · have hsenders := h.senders
    rw [if_neg hlive] at hsenders
    simp only [Connection.endRecv, Queue.dropSender, hsenders, if_true]
    omega
  · rcases h.received with hrec | ⟨hend, -⟩
    · rcases hpc with hpc | hclosed
      · refine .inl ?_
        rw [hpc] at hrec
        exact hrec
      · refine .inr ⟨rfl, hclosed, ?_⟩
        exact ⟨_, hrec.symm⟩
    · exact absurd hend hlive

theorem Lane.queued (h : Lane c) {cmd : ClientMessage} {actions : Queue ClientMessage}
    (hpc : c.recvPc = .send cmd) (hsend : c.actions.send cmd = .queued actions) :
    Lane { c with actions := actions, recvPc := .next } := by
  have hsound := h.sound.send hsend
  obtain ⟨hread, -, rfl⟩ := Queue.send_queued hsend
  refine ⟨hsound, h.capacity, ?_, h.reading, ?_, h.replays, h.answers, h.alone⟩
  · have hsenders := h.senders
    rwa [hpc] at hsenders
  · rcases h.received with hrec | ⟨hend, -⟩
    · refine .inl ?_
      rw [hpc] at hrec
      simpa only [inHand, List.append_nil] using hrec
    · rw [hpc] at hend
      cases hend

theorem Lane.answered (h : Lane c) {found : Bool} {answering : Answering}
    (hans : c.answering = some answering) : Lane (c.answerStep found answering) := by
  have hidle := h.alone (by rw [hans]; exact Option.some_ne_none _)
  have hanswers := h.answers
  rw [hans] at hanswers
  cases answering with
  | getById r =>
    refine ⟨h.sound, h.capacity, h.senders, h.reading, h.received, h.replays, ?_, fun _ => hidle⟩
    cases found with
    | true => exact hanswers
    | false => exact ((List.Sublist.refl c.answers).append (List.nil_sublist [r])).trans hanswers
  | respond r =>
    refine ⟨h.sound, h.capacity, h.senders, h.reading, h.received, h.replays, ?_,
      fun _ => hidle⟩
    change (c.answers ++ [r] ++ []).Sublist (answersOf c.actions.taken)
    rw [List.append_nil]
    exact hanswers

theorem handle_frame (c : Connection) (cmd : ClientMessage) :
    (c.handle cmd).actions = c.actions ∧ (c.handle cmd).recvPc = c.recvPc ∧
      (c.handle cmd).returned = c.returned ∧ (c.handle cmd).received = c.received ∧
      (c.handle cmd).replays = c.replays ∧ (c.handle cmd).answers = c.answers := by
  cases cmd <;> exact ⟨rfl, rfl, rfl, rfl, rfl, rfl⟩

theorem handle_unread (hidle : Idle c.socket.actionPc) (cmd : ClientMessage) :
    unread (c.handle cmd).socket = subscribesOf [cmd] := by
  cases cmd with
  | subscribe fromSeq => rfl
  | prompt sessionId text => exact unread_idle hidle
  | cancel sessionId => exact unread_idle hidle
  | permissionResponse sessionId id granted => exact unread_idle hidle

theorem handle_unanswered (hans : c.answering = none) (cmd : ClientMessage) :
    unanswered (c.handle cmd).answering = answersOf [cmd] := by
  cases cmd with
  | permissionResponse sessionId id granted => rfl
  | subscribe fromSeq | prompt sessionId text | cancel sessionId =>
    simp only [Connection.handle, hans]
    rfl

theorem handle_idle (hans : c.answering = none) (hidle : Idle c.socket.actionPc)
    (cmd : ClientMessage) : (c.handle cmd).socket.actionPc ≠ .ended ∧
      ((c.handle cmd).answering ≠ none → Idle (c.handle cmd).socket.actionPc) := by
  have hlive : c.socket.actionPc ≠ .ended := by
    rcases hidle with hpc | hpc <;> rw [hpc] <;> simp
  cases cmd with
  | subscribe fromSeq => exact ⟨(by simp [Connection.handle]), fun hne => absurd hans hne⟩
  | prompt sessionId text => exact ⟨hlive, fun _ => hidle⟩
  | cancel sessionId => exact ⟨hlive, fun _ => hidle⟩
  | permissionResponse sessionId id granted => exact ⟨hlive, fun _ => hidle⟩

theorem Lane.handled {cmd : ClientMessage} (hsound : c.actions.Sound)
    (hcapacity : c.actions.capacity = 32)
    (hsenders : c.actions.senders =
      (if c.recvPc = .ended then 0 else 1) + (if c.returned then 0 else 1))
    (hread : c.actions.reading = true) (hreceived : c.received = c.actions.accepted ++ inHand c.recvPc)
    (hreplays : c.replays.map Replay.fromSeq ++ subscribesOf [cmd] = subscribesOf c.actions.taken)
    (hanswers : (c.answers ++ answersOf [cmd]).Sublist (answersOf c.actions.taken))
    (hans : c.answering = none) (hidle : Idle c.socket.actionPc) : Lane (c.handle cmd) := by
  obtain ⟨hactions', hrecvPc', hreturned', hreceived', hreplays', hanswers'⟩ := handle_frame c cmd
  obtain ⟨hlive, halone⟩ := handle_idle hans hidle cmd
  refine ⟨?_, ?_, ?_, ?_, ?_, ?_, ?_, halone⟩
  · rwa [hactions']
  · rwa [hactions']
  · rwa [hactions', hrecvPc', hreturned']
  · rw [hactions']
    exact ⟨fun _ => hlive, fun _ => hread⟩
  · rw [hactions', hrecvPc', hreceived']
    exact .inl hreceived
  · rwa [hactions', hreplays', handle_unread hidle]
  · rwa [hactions', hanswers', handle_unanswered hans]

theorem Lane.took (h : Lane c) {cmd : ClientMessage} {actions : Queue ClientMessage}
    (hans : c.answering = none) (hidle : Idle c.socket.actionPc)
    (hrecv : c.actions.recv = .value cmd actions) :
    Lane ({ c with actions := actions }.handle cmd) := by
  have hsound := h.sound.recv hrecv
  obtain ⟨waiting, -, rfl⟩ := Queue.recv_value hrecv
  have hlive : c.socket.actionPc ≠ .ended := by
    rcases hidle with hpc | hpc <;> rw [hpc] <;> simp
  have hread := h.reading.mpr hlive
  have hreplays := h.replays
  rw [unread_idle hidle, List.append_nil] at hreplays
  have hanswers : c.answers.Sublist (answersOf c.actions.taken) :=
    (List.sublist_append_left _ _).trans h.answers
  refine Lane.handled hsound h.capacity h.senders hread ?_ ?_ ?_ hans hidle
  · rcases h.received with hreceived | ⟨-, hclosed, -⟩
    · exact hreceived
    · rw [hread] at hclosed
      cases hclosed
  · change _ = subscribesOf (c.actions.taken ++ [cmd])
    rw [subscribesOf_append, hreplays]
  · change List.Sublist _ (answersOf (c.actions.taken ++ [cmd]))
    rw [answersOf_append]
    exact hanswers.append (List.Sublist.refl _)

theorem Lane.endAction (h : Lane c) (hans : c.answering = none) (hidle : Idle c.socket.actionPc) :
    Lane c.endAction := by
  have hreads := h.replays
  rw [unread_idle hidle] at hreads
  refine ⟨h.sound.dropReader, h.capacity, h.senders, ?_, ?_, hreads, h.answers,
    fun hne => absurd hans hne⟩
  · exact ⟨fun hread => (by cases hread), fun hlive => absurd rfl hlive⟩
  · rcases h.received with hrec | ⟨hend, -, hprefix⟩
    · exact .inl hrec
    · exact .inr ⟨hend, rfl, hprefix⟩

theorem Lane.replayed (h : Lane c) {sent : Bool} {w : Socket} (hans : c.answering = none)
    (hbusy : ¬ Idle c.socket.actionPc) (hs : c.socket.actionStep sent = some w) :
    Lane
      { c with
        socket := w
        replays := c.replays ++ c.reads
        actions := if w.actionPc = .ended then c.actions.dropReader else c.actions } := by
  have hreads : (c.replays ++ c.reads).map Replay.fromSeq ++ unread w =
      subscribesOf c.actions.taken := by
    rw [List.map_append, List.append_assoc, reads_unread hbusy hs]
    exact h.replays
  have hlive : c.socket.actionPc ≠ .ended := by
    intro hend
    rw [Socket.actionStep, hend] at hs
    cases hs
  by_cases hend : w.actionPc = .ended
  · rw [if_pos hend]
    refine ⟨h.sound.dropReader, h.capacity, h.senders, ?_, ?_, hreads, h.answers,
      fun hne => absurd hans hne⟩
    · exact ⟨fun hread => (by cases hread), fun hne => absurd hend hne⟩
    · rcases h.received with hrec | ⟨hover, -, hprefix⟩
      · exact .inl hrec
      · exact .inr ⟨hover, rfl, hprefix⟩
  · rw [if_neg hend]
    exact ⟨h.sound, h.capacity, h.senders, ⟨fun _ => hend, fun _ => h.reading.mpr hlive⟩,
      h.received, hreads, h.answers, fun hne => absurd hans hne⟩

theorem Lane.finished (h : Lane c) (hreturned : c.returned = false) :
    Lane { c with returned := true, actions := c.actions.dropSender } := by
  refine ⟨h.sound.dropSender, h.capacity, ?_, h.reading, h.received, h.replays, h.answers,
    h.alone⟩
  have hsenders := h.senders
  rw [hreturned] at hsenders
  simp only [Queue.dropSender, hsenders, if_true]
  simp

theorem idle_iff (hans : c.answering = none) : c.idle = true ↔ Idle c.socket.actionPc := by
  simp [Connection.idle, Idle, hans]

theorem step_lane (h : Lane c) (hs : c.step parse a = some c') : Lane c' := by
  cases step_moved hs with
  | log a w hw =>
    obtain ⟨-, hist, -, rfl⟩ := Handover.step_log hw
    exact h.socket rfl rfl
  | sent sent w hw =>
    obtain ⟨hpc, hfrom, -⟩ := sendStep_still hw
    exact h.socket hpc hfrom
  | skipped f hf => exact h
  | received f cmd hpc hf =>
    refine ⟨h.sound, h.capacity, ?_, h.reading, ?_, h.replays, h.answers, h.alone⟩
    · have hsenders := h.senders
      rwa [hpc] at hsenders
    · rcases h.received with hrec | ⟨hend, -⟩
      · rw [hpc] at hrec
        simp only [inHand, List.append_nil] at hrec
        exact .inl (by rw [hrec]; rfl)
      · rw [hpc] at hend
        cases hend
  | gone f hpc hf => exact h.endRecv (.inl hpc) (by rw [hpc]; simp)
  | queued cmd actions hpc hsend => exact h.queued hpc hsend
  | refused cmd hpc hsend =>
    exact h.endRecv (.inr (Queue.send_closed hsend)) (by rw [hpc]; simp)
  | answered sent found answering hans => exact h.answered hans
  | took sent found cmd actions hans hidle hrecv => exact h.took hans ((idle_iff hans).mp hidle) hrecv
  | drained sent found hans hidle hrecv => exact h.endAction hans ((idle_iff hans).mp hidle)
  | replayed sent found w hans hbusy hw =>
    refine h.replayed hans ?_ hw
    rw [← idle_iff hans, hbusy]
    exact Bool.false_ne_true
  | finished hend hreturned => exact h.finished hreturned

theorem step_received (hs : c.step parse a = some c') :
    c'.received = c.received ++ commands parse [a] := by
  cases step_moved hs with
  | log a w hw => exact (List.append_nil _).symm
  | sent sent w hw => exact (List.append_nil _).symm
  | skipped f hf =>
    simp only [commands, hf]
    exact (List.append_nil _).symm
  | received f cmd hpc hf =>
    simp only [commands, hf]
    rfl
  | gone f hpc hf =>
    simp only [commands, hf]
    exact (List.append_nil _).symm
  | queued cmd actions hpc hsend => exact (List.append_nil _).symm
  | refused cmd hpc hsend => exact (List.append_nil _).symm
  | answered sent found answering hans =>
    cases answering <;> exact (List.append_nil _).symm
  | took sent found cmd actions hans hidle hrecv =>
    rw [(handle_frame _ cmd).2.2.2.1]
    exact (List.append_nil _).symm
  | drained sent found hans hidle hrecv => exact (List.append_nil _).symm
  | replayed sent found w hans hbusy hw => exact (List.append_nil _).symm
  | finished hend hreturned => exact (List.append_nil _).symm

theorem commands_cons (parse : List Char → Option Json) (a : Action) (acts : List Action) :
    commands parse (a :: acts) = commands parse [a] ++ commands parse acts := by
  cases a <;> simp only [commands, List.append_nil, List.nil_append]

theorem run_received {acts : List Action} (hrun : run (Connection.step parse) c acts = some c') :
    c'.received = c.received ++ commands parse acts := by
  induction acts generalizing c with
  | nil =>
    cases hrun
    exact (List.append_nil _).symm
  | cons a acts ih =>
    obtain ⟨d, hd, hrun'⟩ := run_cons_inv hrun
    rw [ih hrun', step_received hd, commands_cons parse a acts, List.append_assoc]

def Answered (c : Connection) : Prop :=
  c.answers ++ unanswered c.answering = answersOf c.actions.taken

theorem answered_handled {cmd : ClientMessage} (hans : c.answering = none)
    (h : c.answers ++ answersOf [cmd] = answersOf c.actions.taken) : Answered (c.handle cmd) := by
  obtain ⟨hactions, -, -, -, -, hanswers⟩ := handle_frame c cmd
  rwa [Answered, hactions, hanswers, handle_unanswered hans]

theorem connect_answered (h : History) : Answered (connect h) := rfl

theorem step_answered (h : Answered c) (hfinds : Finds a) (hs : c.step parse a = some c') :
    Answered c' := by
  cases step_moved hs with
  | log a w hw => exact h
  | sent sent w hw => exact h
  | skipped f hf => exact h
  | received f cmd hpc hf => exact h
  | gone f hpc hf => exact h
  | queued cmd actions hpc hsend =>
    obtain ⟨-, -, rfl⟩ := Queue.send_queued hsend
    exact h
  | refused cmd hpc hsend => exact h
  | answered sent found answering hans =>
    rw [Answered, hans] at h
    cases hfinds
    cases answering with
    | getById r => exact h
    | respond r =>
      change c.answers ++ [r] ++ [] = answersOf c.actions.taken
      rw [List.append_nil]
      exact h
  | took sent found cmd actions hans hidle hrecv =>
    obtain ⟨waiting, -, rfl⟩ := Queue.recv_value hrecv
    rw [Answered, hans] at h
    refine answered_handled hans ?_
    change c.answers ++ answersOf [cmd] = answersOf (c.actions.taken ++ [cmd])
    rw [answersOf_append, ← h, unanswered, List.append_nil]
  | drained sent found hans hidle hrecv => exact h
  | replayed sent found w hans hbusy hw =>
    simp only [Answered]
    split <;> exact h
  | finished hend hreturned => exact h

variable {h : History} {acts : List Action}

theorem run_lane (hrun : run (Connection.step parse) (connect h) acts = some c) : Lane c :=
  preserved (fun _ _ _ hl hs => step_lane hl hs) (connect_lane h) hrun

theorem received_eq (hrun : run (Connection.step parse) (connect h) acts = some c) :
    c.received = commands parse acts := run_received hrun

/-- The action task takes the commands of the text frames in the order in which
they came and loses none while it lives; it reads the log once for each
`Subscribe` it has taken, and what it answers was asked of it, in that order. -/
theorem commands_in_order (hrun : run (Connection.step parse) (connect h) acts = some c) :
    c.actions.taken <+: commands parse acts ∧ c.actions.waiting.length ≤ 32 ∧
      (c.socket.actionPc ≠ .ended →
        commands parse acts = c.actions.taken ++ c.actions.waiting ++ inHand c.recvPc) ∧
      c.replays.map Replay.fromSeq ++ unread c.socket = subscribesOf c.actions.taken ∧
      (c.answers ++ unanswered c.answering).Sublist (answersOf c.actions.taken) ∧
      (Along (Connection.step parse) (fun _ a => Finds a) (connect h) acts →
        c.answers ++ unanswered c.answering = answersOf c.actions.taken) := by
  have hlane := run_lane hrun
  have hreceived := received_eq hrun
  have haccepted : c.actions.accepted <+: c.received := by
    rcases hlane.received with hrec | ⟨-, -, hprefix⟩
    · exact ⟨_, hrec.symm⟩
    · exact hprefix
  refine ⟨?_, ?_, ?_, hlane.replays, hlane.answers, fun hfinds => ?_⟩
  · rw [← hreceived]
    exact ((List.prefix_append _ _).trans hlane.sound.order).trans haccepted
  · exact hlane.sound.bound.trans hlane.capacity.le
  · intro hlive
    have hread := hlane.reading.mpr hlive
    rcases hlane.received with hrec | ⟨-, hclosed, -⟩
    · rw [← hreceived, hrec, hlane.sound.whole hread]
    · rw [hread] at hclosed
      cases hclosed
  · exact invariant (I := Answered) (fun _ _ _ ha hf hs => step_answered ha hf hs)
      (connect_answered h) hfinds hrun

/-- A client that subscribes, answers a question, and subscribes a second time. -/
def wire (text : List Char) : Option Json :=
  if text = ['s'] then
    some (.object [("type", .string "subscribe"), ("from_seq", .number "1")])
  else if text = ['p'] then
    some (.object [("type", .string "permission_response"), ("session_id", .string "s"),
      ("id", .string "q"), ("granted", .bool true)])
  else none

def twoSubscribes : List Action :=
  [.frame (.text ['s']), .recvTask, .frame (.text ['p']), .actionTask true true, .recvTask,
    .frame (.text ['x']), .frame (.text ['s']), .actionTask true true, .actionTask true true,
    .actionTask true true, .recvTask, .actionTask true true]

theorem commands_in_order_twoSubscribes :
    ∃ c, run (Connection.step wire) (connect (.new 100)) twoSubscribes = some c ∧
      commands wire twoSubscribes =
        [.subscribe 1, .permissionResponse "s" "q" true, .subscribe 1] ∧
      commands wire twoSubscribes = c.actions.taken ++ c.actions.waiting ++ inHand c.recvPc := by
  obtain ⟨c, hrun, hlive⟩ := exists_run (s := connect (.new 100))
    (fun c : Connection => c.socket.actionPc ≠ .ended)
    (by decide +kernel :
      (run (Connection.step wire) (connect (.new 100)) twoSubscribes).any _ = true)
  exact ⟨c, hrun, by decide +kernel, (commands_in_order hrun).2.2.1 hlive⟩

end Lane

end Ccgonext.HandleSocket
