import Ccgonext.Events
import Ccgonext.Lib.Pool
import Ccgonext.Lib.Runs

/-!
# Order of concurrent appends

An append takes its number before it takes the lock and broadcasts after it has
let go of it, so numbers say nothing about the order of the pushes and of the
broadcasts. The deque and every receiver are in order as long as an append that
drew an earlier number has pushed, and has broadcast, before a later one does.
-/

namespace Ccgonext.EventOrder
open Lib Lib.Runs Lib.Broadcast Events

def Increasing (l : List SessionEvent) : Prop := l.Pairwise fun a b => a.seq < b.seq

instance (l : List SessionEvent) : Decidable (Increasing l) :=
  inferInstanceAs (Decidable (l.Pairwise _))

def Ordered (s : LogSys) : Prop :=
  Increasing s.log.events ∧ ∀ r ∈ s.channel.receivers, Increasing r.taken

instance (s : LogSys) : Decidable (Ordered s) := inferInstanceAs (Decidable (_ ∧ _))

/-- No append that drew a smaller number has the push, or the broadcast, still
before it. A deque of one entry and a channel nobody listens to have no order. -/
def InTurn (s : LogSys) : LogAction → Prop
  | .push k => s.log.maxEntries ≤ 1 ∨ ∀ a ∈ s.appends.take k, a.stage ≠ .push
  | .send k => s.channel.receivers = [] ∨ ∀ a ∈ s.appends.take k, a.stage = .done
  | .draw .. | .subscribe | .recv _ => True

instance (s : LogSys) (a : LogAction) : Decidable (InTurn s a) := by
  rcases a <;> dsimp only [InTurn] <;> infer_instance

def Before (s : LogSys) (P : Stage → Prop) (e : SessionEvent) : Prop :=
  ∀ (k : ℕ) (a : AppendCall), s.appends[k]? = some a → P a.stage → e.seq < a.event.seq

structure Numbered (s : LogSys) : Prop where
  next : s.log.nextSeq = s.appends.length + 1
  seqs : ∀ (k : ℕ) (a : AppendCall), s.appends[k]? = some a → a.event.seq = k + 1

structure Received (s : LogSys) (r : Receiver SessionEvent) : Prop where
  sorted : Increasing r.stream
  drawn : ∀ e ∈ r.stream, e.seq < s.log.nextSeq
  before : ∀ e ∈ r.stream, Before s (· ≠ .done) e

theorem Received.channel {s : LogSys} {r : Receiver SessionEvent} (h : Received s r)
    (channel : Channel SessionEvent) : Received { s with channel := channel } r :=
  ⟨h.sorted, h.drawn, h.before⟩

structure Inv (s : LogSys) : Prop where
  numbered : Numbered s
  small : s.log.events.length ≤ s.log.maxEntries
  sorted : Increasing s.log.events
  drawn : ∀ e ∈ s.log.events, e.seq < s.log.nextSeq
  before : s.log.maxEntries ≤ 1 ∨ ∀ e ∈ s.log.events, Before s (· = .push) e
  received : ∀ r ∈ s.channel.receivers, Received s r

theorem new_inv (maxEntries : ℕ) : Inv (.new maxEntries) := by
  refine ⟨⟨rfl, ?_⟩, ?_, List.Pairwise.nil, ?_, ?_, ?_⟩ <;>
    simp [LogSys.new, EventLog.new, Channel.new]

theorem increasing_of_length_le_one {l : List SessionEvent} (h : l.length ≤ 1) :
    Increasing l := by
  match l, h with
  | [], _ => exact List.Pairwise.nil
  | [e], _ => exact List.pairwise_singleton _ e

theorem Numbered.draw {s : LogSys} (h : Numbered s) (sid agent : String)
    (payload : EventPayload) : Numbered
      { s with
        log := s.log.fetchAdd
        appends := s.appends ++ [⟨s.drawn sid agent payload, .push⟩] } := by
  constructor
  · simp [EventLog.fetchAdd, h.next]
  · intro k a hk
    rcases Pool.spawn_cases hk with hk | ⟨rfl, rfl⟩
    · exact h.seqs k a hk
    · exact h.next

theorem Numbered.set {s : LogSys} (h : Numbered s) {k : ℕ} {a b : AppendCall}
    (hk : s.appends[k]? = some a) (hb : b.event = a.event) {log : EventLog}
    (hlog : log.nextSeq = s.log.nextSeq) {channel : Channel SessionEvent} :
    Numbered ⟨log, s.appends.set k b, channel⟩ := by
  constructor
  · simp [hlog, h.next]
  · intro j c hj
    rcases Pool.set_cases hj with ⟨rfl, rfl⟩ | ⟨-, hj⟩
    · rw [hb]
      exact h.seqs k a hk
    · exact h.seqs j c hj

theorem Before.draw {s : LogSys} {P : Stage → Prop} {e : SessionEvent} (h : Before s P e)
    (he : e.seq < s.log.nextSeq) (sid agent : String) (payload : EventPayload) :
    Before
      { s with
        log := s.log.fetchAdd
        appends := s.appends ++ [⟨s.drawn sid agent payload, .push⟩] } P e := by
  intro k a hk hP
  have hmem := List.mem_of_getElem? hk
  simp only [List.mem_append, List.mem_singleton] at hmem
  rcases hmem with hm | hm
  · obtain ⟨j, hj⟩ := List.mem_iff_getElem?.mp hm
    exact h j a hj hP
  · rw [hm]
    exact he

theorem Before.set {s : LogSys} {P : Stage → Prop} {e : SessionEvent} (h : Before s P e)
    {k : ℕ} {a b : AppendCall} (hk : s.appends[k]? = some a)
    (hb : P b.stage → P a.stage ∧ b.event = a.event) {log : EventLog}
    {channel : Channel SessionEvent} :
    Before ⟨log, s.appends.set k b, channel⟩ P e := by
  intro j c hj hP
  rcases Pool.set_cases hj with ⟨rfl, rfl⟩ | ⟨-, hj⟩
  · obtain ⟨hPa, hev⟩ := hb hP
    rw [hev]
    exact h k a hk hPa
  · exact h j c hj hP

theorem Numbered.before {s : LogSys} (h : Numbered s) {k : ℕ} {e : SessionEvent} {st : Stage}
    (hk : s.appends[k]? = some ⟨e, st⟩) {P : Stage → Prop}
    (hP : ∀ a ∈ s.appends.take k, ¬ P a.stage) {b : AppendCall} (hb : ¬ P b.stage)
    {log : EventLog} {channel : Channel SessionEvent} :
    Before ⟨log, s.appends.set k b, channel⟩ P e := by
  intro j c hj hPc
  have he : e.seq = k + 1 := h.seqs k _ hk
  rcases Pool.set_cases hj with ⟨-, rfl⟩ | ⟨hkj, hj⟩
  · exact absurd hPc hb
  · have hc := h.seqs j c hj
    rcases Nat.lt_or_ge j k with hlt | hge
    · have hmem : c ∈ s.appends.take k :=
        List.mem_of_getElem? (by rw [List.getElem?_take, if_pos hlt]; exact hj)
      exact absurd hPc (hP c hmem)
    · omega

theorem draw_inv {s s' : LogSys} (h : Inv s) {sid agent : String} {payload : EventPayload}
    (hs : s.step (.draw sid agent payload) = some s') : Inv s' := by
  cases hs
  have hlt : ∀ n, n < s.log.nextSeq → n < s.log.fetchAdd.nextSeq := by
    intro n hn
    simp only [EventLog.fetchAdd]
    omega
  refine ⟨h.numbered.draw sid agent payload, h.small, h.sorted, ?_, ?_, ?_⟩
  · intro e he
    exact hlt _ (h.drawn e he)
  · rcases h.before with hm | hb
    · exact .inl hm
    · exact .inr fun e he => (hb e he).draw (h.drawn e he) sid agent payload
  · intro r hr
    obtain ⟨hsort, hdr, hbef⟩ := h.received r hr
    exact ⟨hsort, fun e he => hlt _ (hdr e he),
      fun e he => (hbef e he).draw (hdr e he) sid agent payload⟩

theorem push_inv {s s' : LogSys} (h : Inv s) {k : ℕ} (hC : InTurn s (.push k))
    (hs : s.step (.push k) = some s') : Inv s' := by
  obtain ⟨e, hk, rfl⟩ := LogSys.step_push hs
  have hseq : e.seq = k + 1 := h.numbered.seqs k _ hk
  have hlen : k < s.appends.length := (List.getElem?_eq_some_iff.mp hk).1
  have hdrawn : ∀ d ∈ BoundedQueue.push s.log.maxEntries s.log.events e,
      d.seq < s.log.nextSeq := by
    intro d hd
    rcases BoundedQueue.mem_push hd with hd | hd
    · exact h.drawn d hd
    · rw [hd, hseq, h.numbered.next]
      omega
  have hsmall : (BoundedQueue.push s.log.maxEntries s.log.events e).length ≤ s.log.maxEntries :=
    BoundedQueue.push_length_le s.log.events e
  refine ⟨h.numbered.set (b := ⟨e, .send⟩) hk rfl (s.log.push_nextSeq e), hsmall, ?_, hdrawn, ?_, ?_⟩
  · rcases hC with hone | hturn
    · exact increasing_of_length_le_one (hsmall.trans hone)
    rcases h.before with hone | hbefore
    · exact increasing_of_length_le_one (hsmall.trans hone)
    have hall : Increasing (s.log.events ++ [e]) := by
      rw [Increasing, List.pairwise_append]
      refine ⟨h.sorted, List.pairwise_singleton _ e, ?_⟩
      intro d hd x hx
      rw [List.mem_singleton] at hx
      subst hx
      exact hbefore d hd k _ hk rfl
    exact hall.sublist (BoundedQueue.push_suffix s.log.events e).sublist
  · rcases hC with hone | hturn
    · exact .inl hone
    rcases h.before with hone | hbefore
    · exact .inl hone
    refine .inr fun d hd => ?_
    rcases BoundedQueue.mem_push hd with hd | hd
    · exact (hbefore d hd).set hk (fun hc => by cases hc)
    · subst hd
      exact h.numbered.before hk hturn (by simp)
  · intro r hr
    obtain ⟨hsort, hdr, hbef⟩ := h.received r hr
    exact ⟨hsort, hdr,
      fun d hd => (hbef d hd).set (b := ⟨e, .send⟩) hk (fun _ => ⟨by simp, rfl⟩)⟩

theorem send_inv {s s' : LogSys} (h : Inv s) {k : ℕ} (hC : InTurn s (.send k))
    (hs : s.step (.send k) = some s') : Inv s' := by
  obtain ⟨e, hk, rfl⟩ := LogSys.step_send hs
  have hseq : e.seq = k + 1 := h.numbered.seqs k _ hk
  have hlen : k < s.appends.length := (List.getElem?_eq_some_iff.mp hk).1
  refine ⟨h.numbered.set (b := ⟨e, .done⟩) hk rfl rfl, h.small, h.sorted, h.drawn, ?_, ?_⟩
  · rcases h.before with hone | hbefore
    · exact .inl hone
    · exact .inr fun d hd => (hbefore d hd).set hk (fun hc => by cases hc)
  · rcases hC with hnone | hturn
    · intro r hr
      simp [Channel.send, hnone] at hr
    · refine Channel.forall_send h.received ?_
      intro r _ hrec
      have hmem : ∀ d ∈ (r.offer s.channel.capacity e).stream, d ∈ r.stream ∨ d = e :=
        fun d hd => Receiver.mem_stream_offer hd
      refine ⟨?_, ?_, ?_⟩
      · exact Receiver.offer_pairwise hrec.sorted
          (fun d hd => hrec.before d hd k _ hk (by simp))
      · intro d hd
        rcases hmem d hd with hd | hd
        · exact hrec.drawn d hd
        · rw [hd, hseq]
          simp only [h.numbered.next]
          omega
      · intro d hd
        rcases hmem d hd with hd | hd
        · exact (hrec.before d hd).set hk (fun hc => absurd rfl hc)
        · subst hd
          exact h.numbered.before hk (fun a ha => not_not.mpr (hturn a ha)) (not_not.mpr rfl)

theorem step_inv (s : LogSys) (a : LogAction) (s' : LogSys) (h : Inv s) (hC : InTurn s a)
    (hs : s.step a = some s') : Inv s' := by
  cases a with
  | draw sid agent payload => exact draw_inv h hs
  | push k => exact push_inv h hC hs
  | send k => exact send_inv h hC hs
  | subscribe =>
    cases hs
    refine ⟨⟨h.numbered.next, h.numbered.seqs⟩, h.small, h.sorted, h.drawn, h.before, ?_⟩
    refine Channel.forall_subscribe (fun r hr => (h.received r hr).channel _)
      ⟨List.Pairwise.nil, ?_, ?_⟩ <;>
      · intro e he
        cases he
  | recv i =>
    obtain ⟨c, hc, rfl⟩ := LogSys.step_recv hs
    refine ⟨⟨h.numbered.next, h.numbered.seqs⟩, h.small, h.sorted, h.drawn, h.before, ?_⟩
    refine Channel.forall_recv (fun r hr => (h.received r hr).channel c) ?_ hc
    intro r hr
    refine ⟨?_, ?_, ?_⟩
    · rw [r.stream_recv]; exact hr.sorted
    · rw [r.stream_recv]; exact hr.drawn
    · rw [r.stream_recv]; exact hr.before

theorem Inv.ordered {s : LogSys} (h : Inv s) : Ordered s :=
  ⟨h.sorted, fun r hr => Receiver.taken_pairwise (h.received r hr).sorted⟩

/-- Appends that push and broadcast in the order of their numbers keep the
deque and every receiver in order, whatever else is interleaved. -/
theorem ordered_of_inTurn (maxEntries : ℕ) (acts : List LogAction) (s : LogSys)
    (hrun : run LogSys.step (.new maxEntries) acts = some s)
    (hturn : Along LogSys.step InTurn (.new maxEntries) acts) : Ordered s :=
  (invariant step_inv (new_inv maxEntries) hturn hrun).ordered

def twoInTurn : List LogAction :=
  [.subscribe, .draw "a" "codex" (.messageChunk "1"), .draw "b" "gemini" (.messageChunk "2"),
    .push 0, .push 1, .send 0, .send 1, .recv 0, .recv 0]

theorem ordered_twoInTurn :
    ∃ s, run LogSys.step (.new 100) twoInTurn = some s ∧ Ordered s := by
  obtain ⟨s, hs, -⟩ := exists_run (s := LogSys.new 100) (fun _ => True)
    (by decide : (run LogSys.step (.new 100) twoInTurn).any _ = true)
  exact ⟨s, hs, ordered_of_inTurn 100 twoInTurn s hs (by decide)⟩

def overtaken : List LogAction :=
  [.subscribe, .draw "a" "codex" (.messageChunk "1"), .draw "b" "gemini" (.messageChunk "2"),
    .push 1, .push 0, .send 1, .send 0, .recv 0, .recv 0]

/-- Two appends of which the second gets the lock first: the deque holds 2, 1
and the receiver is handed 2, 1. -/
theorem overtaken_not_ordered :
    ∃ s, run LogSys.step (.new 100) overtaken = some s ∧
      ¬ Increasing s.log.events ∧ ∃ r ∈ s.channel.receivers, ¬ Increasing r.taken :=
  exists_run _ (by decide)

end Ccgonext.EventOrder
