import Ccgonext.WireBlocks

/-!
# A client that subscribes once

Up to its second `Subscribe` a connection does to its socket what `WebSocket.Socket`
does: its other commands, the end of the client's stream and the end of the action
task leave the socket as it is. What holds of a single subscription therefore holds
of the connection around it.
-/

namespace Ccgonext.HandleSocket
open Lib Lib.Runs Lib.Broadcast Mpsc Events EventOrder WebSocket Handover JsonRpc

/-- Appends run one at a time, the receiver keeps up and the socket works. -/
def Calm (c : Connection) : Action → Prop
  | .log a => c.socket.hist.OneAtATime a ∧ c.socket.hist.KeepsUp c.socket.rx a
  | .sendTask sent => sent = true
  | .actionTask sent _ => sent = true
  | _ => True

instance (c : Connection) (a : Action) : Decidable (Calm c a) := by
  rcases a <;> dsimp only [Calm] <;> infer_instance

theorem Calm.delivers {c : Connection} {a : Action} (h : Calm c a) : Delivers c a := by
  cases a with
  | actionTask sent found => exact fun _ => h
  | log a | sendTask sent | frame f => trivial
  | recvTask | finish => trivial

def aside (w : Socket) (fromSeq : ℕ) (pc : ActionPc) : Socket :=
  { w with fromSeq := fromSeq, actionPc := pc }

section Aside
variable {w w' : Socket} {fromSeq : ℕ} {pc : ActionPc} {sent : Bool}

theorem aside_log {a : LogAction} (h : w.step (.log a) = some w') :
    (aside w fromSeq pc).step (.log a) = some (aside w' fromSeq pc) := by
  obtain ⟨hne, hist, hstep, rfl⟩ := Handover.step_log h
  simp only [Socket.step, aside, if_neg hne, hstep, Option.map_some]

theorem aside_recvStep (h : w.recvStep = some w') :
    (aside w fromSeq pc).recvStep = some (aside w' fromSeq pc) := by
  unfold Socket.recvStep at h ⊢
  simp only [aside]
  split at h
  · next r hist hr hstep =>
    cases hrec : r.recv.1 <;> simp only [hrec, Option.some.injEq] at h ⊢
    · rw [← h]
    · rw [← h]
    · cases h
  · cases h

theorem aside_sendStep (h : w.sendStep sent = some w') :
    (aside w fromSeq pc).sendStep sent = some (aside w' fromSeq pc) := by
  by_cases hrecv : w.sendPc = .recv
  · have hrecv' : (aside w fromSeq pc).sendPc = .recv := hrecv
    simp only [Socket.sendStep, hrecv] at h
    simp only [Socket.sendStep, hrecv']
    exact aside_recvStep h
  · cases hpc : w.sendPc <;> simp only [Socket.sendStep, hpc, Option.some.injEq] at h <;>
      simp only [Socket.sendStep, aside, hpc]
    case recv => exact absurd hpc hrecv
    case ended => cases h
    case await seen =>
      split at h <;> cases h
      next hseen => rw [if_pos hseen]
    case lock e =>
      split at h <;> cases h
      rfl
    case send e =>
      cases hsent : sent <;> simp only [hsent, Bool.false_eq_true, if_false, if_true] at h ⊢ <;>
        cases h <;> rfl
    all_goals
      subst h
      rfl

theorem aside_self (h : w.fromSeq = fromSeq) : aside w fromSeq w.actionPc = w := by
  subst h
  rfl

end Aside

/-- A calm run of a single subscription has brought its socket to where the
connection's is; the action task may have ended since. -/
structure Mirror (h : History) (fromSeq : ℕ) (c : Connection) (pc : ActionPc)
    (acts : List WebSocket.Action) : Prop where
  run : run Socket.step (WebSocket.connect h fromSeq) acts = some (aside c.socket fromSeq pc)
  calm : Along Socket.step Socket.Calm (WebSocket.connect h fromSeq) acts
  alive : c.socket.actionPc ≠ .ended → pc = c.socket.actionPc
  bound : c.socket.actionPc ≠ .recv → c.socket.actionPc ≠ .ended → c.socket.fromSeq = fromSeq

def Mirrored (h : History) (fromSeq : ℕ) (c : Connection) : Prop :=
  ∃ pc acts, Mirror h fromSeq c pc acts

section Mirror
variable {parse : List Char → Option Json} {h : History} {fromSeq : ℕ} {c c' : Connection}
  {a : Action} {pc : ActionPc} {acts : List WebSocket.Action}

theorem connect_mirrored (h : History) (fromSeq : ℕ) : Mirrored h fromSeq (connect h) :=
  ⟨.recv, [], rfl, trivial, fun _ => rfl, fun hne => absurd rfl hne⟩

theorem Mirror.step (hm : Mirror h fromSeq c pc acts) {b : WebSocket.Action} {pc' : ActionPc}
    (hs : (aside c.socket fromSeq pc).step b = some (aside c'.socket fromSeq pc'))
    (hcalm : (aside c.socket fromSeq pc).Calm b)
    (halive : c'.socket.actionPc ≠ .ended → pc' = c'.socket.actionPc)
    (hbound : c'.socket.actionPc ≠ .recv → c'.socket.actionPc ≠ .ended →
      c'.socket.fromSeq = fromSeq) : Mirror h fromSeq c' pc' (acts ++ [b]) := by
  refine ⟨?_, ?_, halive, hbound⟩
  · rw [run_append hm.run]
    simp only [Lib.Runs.run, hs]
  · refine (along_append hm.run [b]).mpr ⟨hm.calm, ?_⟩
    exact (along_cons hs).mpr ⟨hcalm, trivial⟩

theorem Mirror.same (hm : Mirror h fromSeq c pc acts) (hsocket : c'.socket = c.socket) :
    Mirrored h fromSeq c' :=
  ⟨pc, acts, by rw [hsocket]; exact hm.run, hm.calm, by rw [hsocket]; exact hm.alive,
    by rw [hsocket]; exact hm.bound⟩

theorem Mirror.took (hm : Mirror h fromSeq c pc acts) (hw : Whole c) {cmd : ClientMessage}
    {actions : Queue ClientMessage} (hidle : Idle c.socket.actionPc)
    (hrecv : c.actions.recv = .value cmd actions)
    (hone : subscribesOf actions.taken <+: [fromSeq]) :
    Mirrored h fromSeq ({ c with actions := actions }.handle cmd) := by
  obtain ⟨waiting, -, rfl⟩ := Queue.recv_value hrecv
  cases cmd with
  | prompt sessionId text | cancel sessionId => exact hm.same rfl
  | permissionResponse sessionId id granted => exact hm.same rfl
  | subscribe n =>
    have htaken : subscribesOf c.actions.taken ++ [n] <+: [fromSeq] := by
      rw [← show subscribesOf (c.actions.taken ++ [.subscribe n]) =
        subscribesOf c.actions.taken ++ [n] from subscribesOf_append _ _]
      exact hone
    have hfirst : subscribesOf c.actions.taken = [] := by
      have hle := htaken.length_le
      simp only [List.length_append, List.length_singleton] at hle
      exact List.length_eq_zero_iff.mp (by omega)
    have hn : n = fromSeq := by
      rw [hfirst] at htaken
      exact (List.cons_prefix_cons.mp htaken).1
    subst hn
    have hpc : c.socket.actionPc = .recv := by
      rcases hidle with hpc | hpc
      · exact hpc
      · -- a replay has been read, so there was a `Subscribe` before
        have hbegun := hw.begins
        have hreads := hw.lane.replays
        unfold Begins at hbegun
        rw [hpc] at hbegun
        rw [hfirst, List.append_eq_nil_iff, List.map_eq_nil_iff] at hreads
        exact absurd hreads.1 hbegun.2
    have hrecv' : pc = .recv := by
      rw [hm.alive (by rw [hpc]; simp), hpc]
    subst hrecv'
    have hstep : (aside c.socket n .recv).step (.actionTask true) =
        some (aside (c.handle (.subscribe n)).socket n .loadMin) := rfl
    have hnext := hm.step hstep rfl (fun _ => rfl) fun _ _ => rfl
    exact ⟨.loadMin, _, hnext.run, hnext.calm, hnext.alive, hnext.bound⟩

theorem Mirror.endAction (hm : Mirror h fromSeq c pc acts) : Mirrored h fromSeq c.endAction :=
  ⟨pc, acts, hm.run, hm.calm, fun hne => absurd rfl hne, fun _ hne => absurd rfl hne⟩

theorem Mirror.replayed (hm : Mirror h fromSeq c pc acts) {w : Socket}
    (hbusy : ¬ Idle c.socket.actionPc) (hs : c.socket.actionStep true = some w)
    (hsocket : c'.socket = w) : Mirrored h fromSeq c' := by
  have hlive : c.socket.actionPc ≠ .ended := by
    intro hend
    rw [Socket.actionStep, hend] at hs
    cases hs
  have hfrom := hm.bound (fun hpc => hbusy (.inl hpc)) hlive
  have hpc := hm.alive hlive
  subst hpc hsocket
  have hfrom' := (actionStep_frame hs).2.2.1.trans hfrom
  refine ⟨c'.socket.actionPc, acts ++ [.actionTask true], hm.step (b := .actionTask true) ?_
    rfl (fun _ => rfl) fun _ _ => hfrom'⟩
  rw [aside_self hfrom, aside_self hfrom']
  exact hs

theorem step_mirrored (hm : subscribesOf c.actions.taken <+: [fromSeq] → Mirrored h fromSeq c)
    (hw : Whole c) (hcalm : Calm c a) (hs : c.step parse a = some c')
    (hone : subscribesOf c'.actions.taken <+: [fromSeq]) : Mirrored h fromSeq c' := by
  cases step_moved hs with
  | log a w hlog =>
    obtain ⟨pc, acts, hm⟩ := hm hone
    obtain ⟨-, hist, -, hw'⟩ := Handover.step_log hlog
    refine ⟨pc, _, hm.step (aside_log hlog) hcalm ?_ ?_⟩
    · rw [hw']
      exact hm.alive
    · rw [hw']
      exact hm.bound
  | sent sent w hsend =>
    obtain ⟨pc, acts, hm⟩ := hm hone
    obtain ⟨hpc, hfrom, -⟩ := sendStep_still hsend
    have hstep : (aside c.socket fromSeq pc).step (.sendTask sent) = some (aside w fromSeq pc) :=
      aside_sendStep hsend
    refine ⟨pc, _, hm.step hstep hcalm ?_ ?_⟩
    · dsimp only
      rw [hpc]
      exact hm.alive
    · dsimp only
      rw [hpc, hfrom]
      exact hm.bound
  | skipped f hf => exact hm hone
  | received f cmd hpc hf => exact (hm hone).elim fun pc ⟨acts, hm⟩ => hm.same rfl
  | gone f hpc hf => exact (hm hone).elim fun pc ⟨acts, hm⟩ => hm.same rfl
  | queued cmd actions hpc hsend =>
    obtain ⟨-, -, rfl⟩ := Queue.send_queued hsend
    exact (hm hone).elim fun pc ⟨acts, hm⟩ => hm.same rfl
  | refused cmd hpc hsend => exact (hm hone).elim fun pc ⟨acts, hm⟩ => hm.same rfl
  | answered sent found answering hans =>
    cases answering <;> exact (hm hone).elim fun pc ⟨acts, hm⟩ => hm.same rfl
  | took sent found cmd actions hans hidle hrecv =>
    rw [(handle_frame _ cmd).1] at hone
    have hbefore : subscribesOf c.actions.taken <+: [fromSeq] := by
      obtain ⟨waiting, -, rfl⟩ := Queue.recv_value hrecv
      have hgrow : subscribesOf (c.actions.taken ++ [cmd]) <+: [fromSeq] := hone
      rw [subscribesOf_append] at hgrow
      exact (List.prefix_append _ _).trans hgrow
    obtain ⟨pc, acts, hm⟩ := hm hbefore
    exact hm.took hw ((idle_iff hans).mp hidle) hrecv hone
  | drained sent found hans hidle hrecv =>
    obtain ⟨pc, acts, hm⟩ := hm hone
    exact hm.endAction
  | replayed sent found w hans hbusy hreplay =>
    have hsame : (if w.actionPc = .ended then c.actions.dropReader else c.actions).taken =
        c.actions.taken := by
      split <;> rfl
    rw [hsame] at hone
    obtain ⟨pc, acts, hm⟩ := hm hone
    cases hcalm
    refine hm.replayed ?_ hreplay rfl
    rw [← idle_iff hans, hbusy]
    exact Bool.false_ne_true
  | finished hend hreturned => exact (hm hone).elim fun pc ⟨acts, hm⟩ => hm.same rfl

theorem step_whole_mirrored
    (hi : Whole c ∧ (subscribesOf c.actions.taken <+: [fromSeq] → Mirrored h fromSeq c))
    (hcalm : Calm c a) (hs : c.step parse a = some c') :
    Whole c' ∧ (subscribesOf c'.actions.taken <+: [fromSeq] → Mirrored h fromSeq c') :=
  ⟨step_whole hi.1 hcalm.delivers hs, step_mirrored hi.2 hi.1 hcalm hs⟩

variable {maxEntries : ℕ} {before : List LogAction} {runs : List Action}

/-- A connection that has taken no `Subscribe` but one for `fromSeq` has done to its
socket what a run of a single subscription from there does. -/
theorem run_mirrored (hrun : run (Connection.step parse) (connect h) runs = some c)
    (hcalm : Along (Connection.step parse) Calm (connect h) runs)
    (hone : subscribesOf c.actions.taken <+: [fromSeq]) : Mirrored h fromSeq c :=
  (invariant
    (I := fun c => Whole c ∧ (subscribesOf c.actions.taken <+: [fromSeq] → Mirrored h fromSeq c))
    (fun _ _ _ hi ha hs => step_whole_mirrored hi ha hs)
    ⟨connect_whole h, fun _ => connect_mirrored h fromSeq⟩ hcalm hrun).2 hone

/-- A connection around a single `Subscribe`: the client is sent events in strictly
increasing order, and once the send task has consumed its channel it has got every
event from `fromSeq` on that the log held at the replay or that came after it,
whatever else it asked for meanwhile. -/
theorem subscribed_once (hbefore : run History.step (.new maxEntries) before = some h)
    (hserial : Along History.step History.OneAtATime (.new maxEntries) before)
    (hrun : run (Connection.step parse) (connect h) runs = some c)
    (hcalm : Along (Connection.step parse) Calm (connect h) runs)
    (hone : subscribesOf (commands parse runs) = [fromSeq]) :
    Increasing c.socket.sent ∧
      (c.socket.Consumed → ∀ e, fromSeq ≤ e.seq → c.socket.Owed e → e ∈ c.socket.sent) := by
  have htaken : subscribesOf c.actions.taken <+: [fromSeq] := by
    obtain ⟨rest, hrest⟩ := (commands_in_order hrun).1
    rw [← hone, ← hrest, subscribesOf_append]
    exact List.prefix_append _ _
  obtain ⟨pc, acts, hm⟩ := run_mirrored hrun hcalm htaken
  have hover := handed_over hbefore hserial hm.run hm.calm
  exact hover

def oneBefore : List LogAction :=
  [.draw "s" "codex" (.messageChunk "a"), .push 0, .send 0]

/-- The client answers a question and leaves while the replay is on its way; the
event behind it is sent by the tasks that are left. -/
def leavesMidway : List Action :=
  [.frame (.text ['s']), .recvTask, .frame (.text ['p']), .recvTask] ++
    List.replicate 5 (.actionTask true true) ++ [.frame .close, .finish] ++
    List.replicate 9 (.actionTask true true) ++
    [.log (.draw "s" "codex" (.messageChunk "b")), .log (.push 1), .log (.send 1)] ++
    List.replicate 7 (.sendTask true)

theorem subscribed_once_leavesMidway :
    ∃ h c, run History.step (.new 100) oneBefore = some h ∧
      run (Connection.step wire) (connect h) leavesMidway = some c ∧
      c.socket.sent.length = 2 ∧ Increasing c.socket.sent ∧
      ∀ e, 1 ≤ e.seq → c.socket.Owed e → e ∈ c.socket.sent := by
  obtain ⟨h, hbefore, hcalm, hany⟩ := exists_run (s := History.new 100)
    (fun h => Along (Connection.step wire) Calm (connect h) leavesMidway ∧
      (run (Connection.step wire) (connect h) leavesMidway).any
        (fun c : Connection => decide (c.socket.Consumed ∧ c.socket.sent.length = 2)) = true)
    (by decide +kernel : (run History.step (.new 100) oneBefore).any _ = true)
  obtain ⟨c, hrun, hdone, hlen⟩ :=
    exists_run (fun c : Connection => c.socket.Consumed ∧ c.socket.sent.length = 2) hany
  obtain ⟨hincreasing, hall⟩ :=
    subscribed_once hbefore (by decide) hrun hcalm
      (by decide +kernel : subscribesOf (commands wire leavesMidway) = [1])
  exact ⟨h, c, hbefore, hrun, hlen, hincreasing, hall hdone⟩

end Mirror

end Ccgonext.HandleSocket
