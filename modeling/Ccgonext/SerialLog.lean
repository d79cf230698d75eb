import Ccgonext.History

/-!
# Appends that run one at a time

With one append at a time only the last one drawn is ever in progress, so the
pushes come in the order of the numbers, and a receiver that keeps up is handed
every event whose broadcast comes after its subscription, in the same order.
-/

namespace Ccgonext.Events
open Lib Broadcast EventOrder

namespace History

def OneAtATime (h : History) : LogAction → Prop
  | .draw .. => ∀ a ∈ h.sys.appends, a.stage = .done
  | _ => True

instance (h : History) (a : LogAction) : Decidable (h.OneAtATime a) := by
  rcases a <;> dsimp only [OneAtATime] <;> infer_instance

structure Serial (h : History) : Prop where
  kept : h.Kept
  rising : Increasing h.pushed
  last : ∀ (k : ℕ) (a : AppendCall), h.sys.appends[k]? = some a → a.stage ≠ .done →
    k + 1 = h.sys.appends.length

theorem new_serial (maxEntries : ℕ) : Serial (.new maxEntries) := by
  refine ⟨new_kept maxEntries, List.Pairwise.nil, ?_⟩
  intro k a hk
  simp [new, LogSys.new] at hk

theorem Serial.seq_lt {h : History} (hser : Serial h) {a b : AppendCall}
    (ha : a ∈ h.sys.appends) (hb : b ∈ h.sys.appends) (hprogress : a.stage ≠ .done)
    (hne : b.stage ≠ a.stage) : b.event.seq < a.event.seq := by
  obtain ⟨k, hk⟩ := List.mem_iff_getElem?.mp ha
  obtain ⟨j, hj⟩ := List.mem_iff_getElem?.mp hb
  have hlast := hser.last k a hk hprogress
  have hlt := (List.getElem?_eq_some_iff.mp hj).1
  have hjk : j ≠ k := by
    rintro rfl
    rw [hk, Option.some.injEq] at hj
    exact hne (by rw [hj])
  rw [hser.kept.numbered.seqs k a hk, hser.kept.numbered.seqs j b hj]
  omega

theorem Serial.last_set {h : History} (hser : Serial h) {k : ℕ} {a b : AppendCall}
    (hk : h.sys.appends[k]? = some a) (ha : a.stage ≠ .done) :
    ∀ (j : ℕ) (c : AppendCall), (h.sys.appends.set k b)[j]? = some c → c.stage ≠ .done →
      j + 1 = (h.sys.appends.set k b).length := by
  intro j c hj hc
  rw [List.length_set]
  rcases Pool.set_cases hj with ⟨rfl, rfl⟩ | ⟨-, hj⟩
  · exact hser.last k a hk ha
  · exact hser.last j c hj hc

theorem Serial.step {h h' : History} {a : LogAction} (hser : Serial h) (hone : h.OneAtATime a)
    (hs : h.step a = some h') : Serial h' := by
  have hkept := step_kept hser.kept hs
  cases a with
  | draw sid agent payload =>
    cases hs
    refine ⟨hkept, by simpa [pushedBy] using hser.rising, ?_⟩
    intro k a hk hst
    rcases Pool.spawn_cases hk with hk | ⟨rfl, -⟩
    · exact absurd (hone a (List.mem_of_getElem? hk)) hst
    · simp only [List.length_append, List.length_singleton]
  | push k =>
    obtain ⟨e, hk, hpushed, hsys⟩ := step_push hs
    refine ⟨hkept, ?_, ?_⟩
    · rw [hpushed, Increasing, List.pairwise_append]
      refine ⟨hser.rising, List.pairwise_singleton _ e, ?_⟩
      intro d hd x hx
      rw [List.mem_singleton] at hx
      subst hx
      obtain ⟨j, a, hj, rfl, hst⟩ := hser.kept.drawn d hd
      exact hser.seq_lt (List.mem_of_getElem? hk) (List.mem_of_getElem? hj) (by simp) hst
    · rw [hsys]
      exact hser.last_set hk (by simp)
  | send k =>
    obtain ⟨e, hk, hpushed, hsys⟩ := step_send hs
    refine ⟨hkept, by rw [hpushed]; exact hser.rising, ?_⟩
    rw [hsys]
    exact hser.last_set hk (by simp)
  | subscribe =>
    cases hs
    exact ⟨hkept, by simpa [pushedBy] using hser.rising, hser.last⟩
  | recv i =>
    obtain ⟨c, -, hpushed, hsys⟩ := step_recv hs
    refine ⟨hkept, by rw [hpushed]; exact hser.rising, ?_⟩
    rw [hsys]
    exact hser.last

def receiver (h : History) (rx : ℕ) : Option (Receiver SessionEvent) :=
  h.sys.channel.receivers[rx]?

/-- The receiver has read enough to lose nothing by the next broadcast. -/
def KeepsUp (h : History) (rx : ℕ) : LogAction → Prop
  | .send _ => (h.receiver rx).all fun r => r.queue.length < h.sys.channel.capacity
  | _ => True

instance (h : History) (rx : ℕ) (a : LogAction) : Decidable (h.KeepsUp rx a) := by
  rcases a <;> dsimp only [KeepsUp] <;> infer_instance

theorem receiver_step {h h' : History} {a : LogAction} {rx : ℕ} {r : Receiver SessionEvent}
    (hr : h.receiver rx = some r) (hrx : a ≠ .recv rx) (hs : h.step a = some h') :
    ((∀ k, a ≠ .send k) ∧ h'.receiver rx = some r) ∨
      ∃ k e, a = .send k ∧ h.sys.appends[k]? = some ⟨e, .send⟩ ∧
        h'.receiver rx = some (r.offer h.sys.channel.capacity e) := by
  cases a with
  | draw sid agent payload =>
    cases hs
    exact .inl ⟨by simp, hr⟩
  | push k =>
    obtain ⟨e, -, -, hsys⟩ := step_push hs
    refine .inl ⟨by simp, ?_⟩
    rw [receiver, hsys]
    exact hr
  | send k =>
    obtain ⟨e, hk, -, hsys⟩ := step_send hs
    refine .inr ⟨k, e, rfl, hk, ?_⟩
    simp only [receiver] at hr
    simp [receiver, hsys, Channel.send, hr]
  | subscribe =>
    cases hs
    refine .inl ⟨by simp, ?_⟩
    have hlt := (List.getElem?_eq_some_iff.mp hr).1
    simp only [receiver] at hr ⊢
    simp only [Channel.subscribe]
    rw [List.getElem?_append_left hlt]
    exact hr
  | recv i =>
    obtain ⟨ch, hch, -, hsys⟩ := step_recv hs
    have hne : i ≠ rx := fun hi => hrx (by rw [hi])
    refine .inl ⟨by simp, ?_⟩
    unfold Channel.recv at hch
    split at hch
    · cases hch
    · next q hq =>
      cases hch
      simp only [receiver] at hr
      simp only [receiver, hsys, List.getElem?_set_ne hne]
      exact hr

theorem receiver_recv {h h' : History} {rx : ℕ} {r : Receiver SessionEvent}
    (hr : h.receiver rx = some r) (hs : h.step (.recv rx) = some h') :
    h'.receiver rx = some r.recv.2 ∧ h'.pushed = h.pushed ∧ h'.sys.appends = h.sys.appends := by
  obtain ⟨ch, hch, hsame, hsys⟩ := step_recv hs
  have hlt := (List.getElem?_eq_some_iff.mp hr).1
  simp only [receiver] at hr
  refine ⟨?_, hsame, by rw [hsys]⟩
  simp only [Channel.recv, hr, Option.some.injEq] at hch
  subst hch
  simp only [receiver, hsys, List.getElem?_set_self hlt]

structure Fed (c : ℕ) (h : History) (r : Receiver SessionEvent) : Prop where
  lagged : r.lagged = 0
  rising : Increasing r.stream
  sent : ∀ e ∈ r.stream, ⟨e, .done⟩ ∈ h.sys.appends
  since : c ≤ h.pushed.length
  all : ∀ e ∈ h.pushed.drop c, ⟨e, .done⟩ ∈ h.sys.appends → e ∈ r.stream

theorem Kept.unique {h : History} (hk : h.Kept) {a b : AppendCall} (ha : a ∈ h.sys.appends)
    (hb : b ∈ h.sys.appends) (heq : a.event = b.event) : a = b := by
  obtain ⟨j, hj⟩ := List.mem_iff_getElem?.mp ha
  obtain ⟨k, hk'⟩ := List.mem_iff_getElem?.mp hb
  have hjk : j = k := by
    have hja := hk.numbered.seqs j a hj
    have hkb := hk.numbered.seqs k b hk'
    rw [heq] at hja
    omega
  subst hjk
  exact Option.some.inj (hj.symm.trans hk')

theorem Fed.frame {c : ℕ} {h h' : History} {r : Receiver SessionEvent} (hfed : Fed c h r)
    (hpushed : h'.pushed = h.pushed)
    (hdone : ∀ e, ⟨e, .done⟩ ∈ h'.sys.appends ↔ ⟨e, .done⟩ ∈ h.sys.appends) : Fed c h' r := by
  refine ⟨hfed.lagged, hfed.rising, ?_, by rw [hpushed]; exact hfed.since, ?_⟩
  · intro e he
    exact (hdone e).mpr (hfed.sent e he)
  · intro e he hd
    rw [hpushed] at he
    exact hfed.all e he ((hdone e).mp hd)

theorem done_mem_set {appends : List AppendCall} {k : ℕ} {e d : SessionEvent} {st st' : Stage}
    (hk : appends[k]? = some ⟨e, st⟩) (hst : st ≠ .done) :
    (⟨d, .done⟩ : AppendCall) ∈ appends.set k ⟨e, st'⟩ ↔
      ⟨d, .done⟩ ∈ appends ∨ d = e ∧ st' = .done := by
  constructor
  · intro hd
    rcases List.mem_or_eq_of_mem_set hd with hd | hd
    · exact .inl hd
    · cases hd
      exact .inr ⟨rfl, rfl⟩
  · rintro (hd | ⟨rfl, rfl⟩)
    · obtain ⟨j, hj⟩ := List.mem_iff_getElem?.mp hd
      have hjk : k ≠ j := by
        rintro rfl
        rw [hk, Option.some.injEq] at hj
        cases hj
        exact hst rfl
      exact List.mem_of_getElem? ((List.getElem?_set_ne hjk).trans hj)
    · have hlt := (List.getElem?_eq_some_iff.mp hk).1
      exact List.mem_of_getElem? (List.getElem?_set_self hlt)

theorem done_step {h h' : History} {a : LogAction} (hs : h.step a = some h') (d : SessionEvent) :
    ⟨d, .done⟩ ∈ h'.sys.appends ↔ ⟨d, .done⟩ ∈ h.sys.appends ∨
      ∃ k, a = .send k ∧ h.sys.appends[k]? = some ⟨d, .send⟩ := by
  cases a with
  | draw sid agent payload =>
    cases hs
    simp
  | push k =>
    obtain ⟨e, hk, -, hsys⟩ := step_push hs
    rw [hsys, done_mem_set hk (by simp)]
    simp
  | send k =>
    obtain ⟨e, hk, -, hsys⟩ := step_send hs
    rw [hsys, done_mem_set hk (by simp)]
    simp [hk, eq_comm]
  | subscribe =>
    cases hs
    simp
  | recv i =>
    obtain ⟨ch, -, -, hsys⟩ := step_recv hs
    rw [hsys]
    simp

theorem Fed.push {c : ℕ} {h h' : History} {r : Receiver SessionEvent} {k : ℕ}
    (hser : Serial h) (hfed : Fed c h r) (hs : h.step (.push k) = some h') : Fed c h' r := by
  obtain ⟨e, hk, hpushed, hsys⟩ := step_push hs
  have hdone : ∀ d, (⟨d, .done⟩ : AppendCall) ∈ h'.sys.appends ↔ ⟨d, .done⟩ ∈ h.sys.appends := by
    intro d
    rw [hsys, done_mem_set hk (by simp)]
    simp
  refine ⟨hfed.lagged, hfed.rising, fun d hd => (hdone d).mpr (hfed.sent d hd), ?_, ?_⟩
  · rw [hpushed, List.length_append]
    exact Nat.le_add_right_of_le hfed.since
  · intro d hd hdone'
    rw [hpushed, List.drop_append_of_le_length hfed.since, List.mem_append,
      List.mem_singleton] at hd
    rcases hd with hd | rfl
    · exact hfed.all d hd ((hdone d).mp hdone')
    · -- the event just pushed has not been broadcast
      have heq := hser.kept.unique ((hdone d).mp hdone') (List.mem_of_getElem? hk) rfl
      cases heq

theorem Fed.send {c : ℕ} {h h' : History} {r : Receiver SessionEvent} {k : ℕ}
    (hser : Serial h) (hfed : Fed c h r) (hspace : r.queue.length < h.sys.channel.capacity)
    (hs : h.step (.send k) = some h') :
    ∃ e, h'.sys.channel = h.sys.channel.send e ∧
      Fed c h' (r.offer h.sys.channel.capacity e) := by
  obtain ⟨e, hk, hpushed, hsys⟩ := step_send hs
  refine ⟨e, by rw [hsys], ?_⟩
  rw [Receiver.offer_room hspace]
  have hstream : ({ r with queue := r.queue ++ [e] } : Receiver SessionEvent).stream =
      r.stream ++ [e] := by
    simp [Receiver.stream]
  have hdone : ∀ d, (⟨d, .done⟩ : AppendCall) ∈ h'.sys.appends ↔
      ⟨d, .done⟩ ∈ h.sys.appends ∨ d = e := by
    intro d
    rw [hsys, done_mem_set hk (by simp)]
    simp
  refine ⟨hfed.lagged, ?_, ?_, by rw [hpushed]; exact hfed.since, ?_⟩
  · rw [hstream, Increasing, List.pairwise_append]
    refine ⟨hfed.rising, List.pairwise_singleton _ e, ?_⟩
    intro d hd x hx
    rw [List.mem_singleton] at hx
    subst hx
    exact hser.seq_lt (List.mem_of_getElem? hk) (hfed.sent d hd) (by simp) (by simp)
  · intro d hd
    rw [hstream, List.mem_append, List.mem_singleton] at hd
    rw [hdone]
    exact hd.imp (hfed.sent d) id
  · intro d hd hd'
    rw [hpushed] at hd
    rw [hstream, List.mem_append, List.mem_singleton]
    exact ((hdone d).mp hd').imp (hfed.all d hd) id

theorem Fed.step {c rx : ℕ} {h h' : History} {r : Receiver SessionEvent} {a : LogAction}
    (hser : Serial h) (hfed : Fed c h r) (hr : h.receiver rx = some r) (hrx : a ≠ .recv rx)
    (hroom : h.KeepsUp rx a) (hs : h.step a = some h') :
    ∃ r', h'.receiver rx = some r' ∧ Fed c h' r' ∧ r'.taken = r.taken := by
  cases a with
  | draw sid agent payload =>
    obtain ⟨-, hr'⟩ := (receiver_step hr hrx hs).resolve_right (by simp)
    cases hs
    refine ⟨r, hr', hfed.frame (by simp [pushedBy]) ?_, rfl⟩
    intro e
    simp
  | push k =>
    obtain ⟨-, hr'⟩ := (receiver_step hr hrx hs).resolve_right (by simp)
    exact ⟨r, hr', hfed.push hser hs, rfl⟩
  | send k =>
    have hspace : r.queue.length < h.sys.channel.capacity := by
      simpa [KeepsUp, hr] using hroom
    obtain ⟨e, hchannel, hfed'⟩ := hfed.send hser hspace hs
    refine ⟨r.offer h.sys.channel.capacity e, ?_, hfed', rfl⟩
    simp only [receiver] at hr
    simp [receiver, hchannel, Channel.send, hr]
  | subscribe =>
    obtain ⟨-, hr'⟩ := (receiver_step hr hrx hs).resolve_right (by simp)
    cases hs
    exact ⟨r, hr', hfed.frame (by simp [pushedBy]) fun e => Iff.rfl, rfl⟩
  | recv i =>
    obtain ⟨-, hr'⟩ := (receiver_step hr hrx hs).resolve_right (by simp)
    obtain ⟨ch, -, hpushed, hsys⟩ := step_recv hs
    refine ⟨r, hr', hfed.frame hpushed ?_, rfl⟩
    intro e
    rw [hsys]

theorem Fed.recv {c rx : ℕ} {h h' : History} {r : Receiver SessionEvent} (hfed : Fed c h r)
    (hr : h.receiver rx = some r) (hs : h.step (.recv rx) = some h') :
    h'.receiver rx = some r.recv.2 ∧ Fed c h' r.recv.2 ∧ h'.pushed = h.pushed := by
  obtain ⟨hr', hsame, happends⟩ := receiver_recv hr hs
  refine ⟨hr', ?_, hsame⟩
  · have hsent : ∀ e, (⟨e, .done⟩ : AppendCall) ∈ h'.sys.appends ↔ ⟨e, .done⟩ ∈ h.sys.appends := by
      intro e
      rw [happends]
    have hframe := hfed.frame hsame hsent
    refine ⟨?_, ?_, ?_, hframe.since, ?_⟩
    · rcases Receiver.recv_of_lagged_eq_zero hfed.lagged with ⟨hrec, -⟩ | ⟨x, q, -, hrec⟩ <;>
        · rw [hrec]
          exact hfed.lagged
    · rw [Receiver.stream_recv]
      exact hframe.rising
    · rw [Receiver.stream_recv]
      exact hframe.sent
    · rw [Receiver.stream_recv]
      exact hframe.all

end History

end Ccgonext.Events
