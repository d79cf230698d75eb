import Ccgonext.Events
import Ccgonext.Lib.Pending
import Ccgonext.Lib.Pool
import Ccgonext.Lib.Runs
import Mathlib.Data.List.Nodup

/-!
# Asking the user

`request_user_permission`, `respond_permission` and `cancel_all_pending` of one
`CallbackHandler`. A call draws a fresh id, publishes its question in the log,
enters the table and waits; the answer, a cancellation or the timeout lets it go
on. Each of its steps is one append or one lock of `pending_permissions`, and
the two other functions do their work under that lock in one step. `events` is
what the calls have appended to the log.

`timeout` polls the receiver before its clock, so a call whose answer is there
takes the answer.
-/

namespace Ccgonext.Permissions
open Lib Lib.Runs Lib.Pool Events

inductive PermissionPc
  | publish
  | register
  | await
  | unregister (granted : Bool)
  | publishResponse (granted : Bool)
  | returned (granted : Bool)
  deriving DecidableEq, Repr

structure UserRequest where
  id : String
  method : String
  description : String
  pc : PermissionPc
  deriving DecidableEq, Repr

structure Sys where
  events : List EventPayload
  pending : Pending String Bool
  calls : List UserRequest
  deriving DecidableEq, Repr

def Sys.new : Sys := ⟨[], .new, []⟩

inductive Action
  | request (id method description : String)
  | advance (i : ℕ)
  | timeout (i : ℕ)
  | respondPermission (permId : String) (granted : Bool)
  | cancelAllPending
  deriving DecidableEq, Repr

namespace UserRequest

def request (c : UserRequest) : EventPayload := .permissionRequest c.id c.method c.description

def advance (c : UserRequest) (i : ℕ) (events : List EventPayload)
    (pending : Pending String Bool) :
    Option (List EventPayload × Pending String Bool × PermissionPc) :=
  match c.pc with
  | .publish => some (events ++ [c.request], pending, .register)
  | .register => some (events, pending.insert c.id i, .await)
  | .await =>
    match pending.poll i with
    | .empty => none
    | .ready granted => some (events, pending, .unregister granted)
    | .closed => some (events, pending, .unregister false)
  | .unregister granted => some (events, pending.remove c.id, .publishResponse granted)
  | .publishResponse granted =>
    some (events ++ [.permissionResponse c.id granted], pending, .returned granted)
  | .returned _ => none

end UserRequest

def Sys.step (s : Sys) : Action → Option Sys
  | .request id method description =>
    if ∀ c ∈ s.calls, c.id ≠ id then some
      { s with
        pending := s.pending.openChannel
        calls := s.calls ++ [⟨id, method, description, .publish⟩] }
    else none
  | .advance i =>
    match s.calls[i]? with
    | none => none
    | some c =>
      match c.advance i s.events s.pending with
      | none => none
      | some (events, pending, pc) => some ⟨events, pending, s.calls.set i { c with pc := pc }⟩
  | .timeout i =>
    match s.calls[i]? with
    | none => none
    | some c =>
      if c.pc = .await ∧ s.pending.poll i = .empty then some
        { s with calls := s.calls.set i { c with pc := .unregister false } }
      else none
  | .respondPermission permId granted =>
    some { s with pending := s.pending.resolve permId granted }
  | .cancelAllPending => some { s with pending := s.pending.drain false }

def about (permId : String) : EventPayload → Bool
  | .permissionRequest id _ _ => id = permId
  | .permissionResponse id _ => id = permId
  | _ => false

namespace PermissionPc

def registered : PermissionPc → Bool
  | .await | .unregister _ => true
  | _ => false

def early : PermissionPc → Bool
  | .publish | .register => true
  | _ => false

def verdict : PermissionPc → Option Bool
  | .unregister granted | .publishResponse granted | .returned granted => some granted
  | _ => none

end PermissionPc

def UserRequest.logged (c : UserRequest) : List EventPayload :=
  match c.pc with
  | .publish => []
  | .returned granted => [c.request, .permissionResponse c.id granted]
  | _ => [c.request]

/-- The call has been sent a no, or has taken one or given up. -/
def Sys.denied (s : Sys) (i : ℕ) : Bool :=
  decide (s.pending.Answered i false) || s.calls[i]?.any fun c => c.pc.verdict = some false

structure At (s : Sys) (i : ℕ) (c : UserRequest) : Prop where
  logged : s.events.filter (about c.id) = c.logged
  entered : (c.id, i) ∈ s.pending.entries → c.pc.registered = true
  early : c.pc.early = true → s.pending.answers[i]? = some none
  waiting : c.pc = .await → (c.id, i) ∈ s.pending.entries ∨ ∃ v, s.pending.Answered i v
  granted : c.pc.verdict = some true → s.pending.Answered i true

def Sys.ids (s : Sys) : List String := s.calls.map UserRequest.id

structure Inv (s : Sys) : Prop where
  table : s.pending.Inv fun i => s.ids[i]?
  channels : s.pending.answers.length = s.calls.length
  distinct : s.ids.Nodup
  unasked : ∀ id, (∀ c ∈ s.calls, c.id ≠ id) → s.events.filter (about id) = []
  call : ∀ (i : ℕ) (c : UserRequest), s.calls[i]? = some c → At s i c

section Steps
variable {s s' : Sys} {i : ℕ} {c : UserRequest}

theorem Sys.step_request {id method description : String}
    (h : s.step (.request id method description) = some s') :
    (∀ c ∈ s.calls, c.id ≠ id) ∧ s' = { s with
      pending := s.pending.openChannel
      calls := s.calls ++ [⟨id, method, description, .publish⟩] } := by
  simp only [Sys.step] at h
  split at h
  · next hfresh => exact ⟨hfresh, (Option.some.inj h).symm⟩
  · cases h

theorem Sys.step_advance (h : s.step (.advance i) = some s') :
    ∃ c events pending pc, s.calls[i]? = some c ∧
      c.advance i s.events s.pending = some (events, pending, pc) ∧
      s' = ⟨events, pending, s.calls.set i { c with pc := pc }⟩ := by
  simp only [Sys.step] at h
  split at h
  · cases h
  · next c hc =>
    split at h
    · cases h
    · next events pending pc hstep =>
      exact ⟨c, events, pending, pc, hc, hstep, (Option.some.inj h).symm⟩

theorem Sys.step_timeout (h : s.step (.timeout i) = some s') :
    ∃ c, s.calls[i]? = some c ∧ c.pc = .await ∧ s.pending.poll i = .empty ∧
      s' = { s with calls := s.calls.set i { c with pc := .unregister false } } := by
  simp only [Sys.step] at h
  split at h
  · cases h
  · next c hc =>
    split at h
    · next hwait => exact ⟨c, hc, hwait.1, hwait.2, (Option.some.inj h).symm⟩
    · cases h

end Steps

theorem inv_new : Inv .new where
  table := .new
  channels := rfl
  distinct := List.nodup_nil
  unasked := fun _ _ => rfl
  call := by
    intro i c hc
    cases hc

section Invariant
variable {s s' : Sys} {i j : ℕ} {c d : UserRequest} {p : Pending String Bool}

theorem At.frame {s' : Sys} (h : At s j d)
    (hlog : s'.events.filter (about d.id) = s.events.filter (about d.id))
    (hleft : (d.id, j) ∈ s'.pending.entries → (d.id, j) ∈ s.pending.entries)
    (hkept : (d.id, j) ∈ s.pending.entries →
      (d.id, j) ∈ s'.pending.entries ∨ ∃ v, s'.pending.Answered j v)
    (hearly : s.pending.answers[j]? = some none → d.pc.early = true →
      s'.pending.answers[j]? = some none)
    (hans : ∀ v, s.pending.Answered j v → s'.pending.Answered j v) : At s' j d where
  logged := hlog.trans h.logged
  entered hm := h.entered (hleft hm)
  early he := hearly (h.early he) he
  waiting hpc := by
    rcases h.waiting hpc with hm | ⟨v, hv⟩
    · exact hkept hm
    · exact .inr ⟨v, hans v hv⟩
  granted hg := hans true (h.granted hg)

theorem Sys.ids_of_call (hd : s.calls[j]? = some d) : s.ids[j]? = some d.id := by
  rw [ids, List.getElem?_map, hd, Option.map_some]

theorem Sys.ids_move (hc : s.calls[i]? = some c) (events : List EventPayload)
    (pending : Pending String Bool) (pc : PermissionPc) :
    Sys.ids ⟨events, pending, s.calls.set i { c with pc := pc }⟩ = s.ids := by
  obtain ⟨hlt, hget⟩ := List.getElem?_eq_some_iff.mp (ids_of_call hc)
  simp only [ids, List.map_set] at hget ⊢
  rw [← hget, List.set_getElem_self]

theorem Inv.entry_call (h : Inv s) {id : String} (hm : (id, j) ∈ s.pending.entries) :
    ∃ d, s.calls[j]? = some d ∧ d.id = id := by
  have hk := h.table.keyed id j hm
  rwa [Sys.ids, List.getElem?_map, Option.map_eq_some_iff] at hk

theorem Inv.call_unique (h : Inv s) (hc : s.calls[i]? = some c) (hd : s.calls[j]? = some d)
    (hid : c.id = d.id) : i = j := by
  have hci := Sys.ids_of_call hc
  have hdj := Sys.ids_of_call hd
  apply (List.getElem?_inj (List.getElem?_eq_some_iff.mp hci).1 h.distinct).mp
  rw [hci, hdj, hid]

theorem Inv.lookup (h : Inv s) (hd : s.calls[j]? = some d) (hm : (d.id, j) ∈ s.pending.entries) :
    s.pending.entries.lookup d.id = some j := by
  refine Pending.lookup_of_mem (fun l hl => ?_) hm
  obtain ⟨e, he, hid⟩ := h.entry_call hl
  exact h.call_unique he hd hid

theorem Inv.poll_await (h : Inv s) (hd : s.calls[j]? = some d) (hpc : d.pc = .await)
    (hans : s.pending.answers[j]? = some none) : s.pending.poll j = .empty := by
  have hno : ∀ v, ¬ s.pending.Answered j v := by
    intro v hv
    rw [Pending.Answered, hans] at hv
    cases hv
  rcases (h.call j d hd).waiting hpc with hm | ⟨v, hv⟩
  · exact Pending.poll_empty.mpr ⟨hno, d.id, hm⟩
  · exact absurd hv (hno v)

theorem Inv.unlisted (h : Inv s) (hd : s.calls[j]? = some d) (hout : d.pc.registered = false)
    (id : String) : (id, j) ∉ s.pending.entries := by
  intro hm
  obtain ⟨e, he, rfl⟩ := h.entry_call hm
  rw [hd] at he
  cases he
  rw [(h.call j d hd).entered hm] at hout
  cases hout

theorem PermissionPc.early_out {pc : PermissionPc} (h : pc.early = true) :
    pc.registered = false := by
  cases pc <;> first | rfl | cases h

section Advance
variable {events events' : List EventPayload} {p' : Pending String Bool} {pc : PermissionPc}
  (h : c.advance i events p = some (events', p', pc))

include h

theorem UserRequest.advance_log {id : String} (hne : c.id ≠ id) :
    events'.filter (about id) = events.filter (about id) := by
  simp only [advance] at h
  repeat' split at h
  all_goals
    cases h
    try simp [List.filter_append, about, request, hne]

theorem UserRequest.advance_entries {id : String} (hne : id ≠ c.id) :
    (id, j) ∈ p'.entries ↔ (id, j) ∈ p.entries := by
  cases hpc : c.pc <;> simp only [advance, hpc] at h
  case register =>
    cases h
    simp [hne]
  case unregister =>
    cases h
    simp [hne]
  case await => split at h <;> cases h <;> exact Iff.rfl
  all_goals
    cases h
    try exact Iff.rfl

theorem UserRequest.advance_answers : p'.answers = p.answers := by
  cases hpc : c.pc <;> simp only [advance, hpc] at h
  case await => split at h <;> cases h <;> rfl
  all_goals
    cases h
    try rfl

theorem UserRequest.advance_verdict {granted : Bool} (hv : c.pc.verdict = some granted) :
    pc.verdict = some granted := by
  cases hpc : c.pc <;> simp only [advance, hpc] at h <;> rw [hpc] at hv
  case unregister | publishResponse =>
    cases h
    exact hv
  all_goals cases hv <;> cases h

theorem UserRequest.advance_table {key : ℕ → Option String} (hp : p.Inv key)
    (hk : key i = some c.id) (he : c.pc.early = true → p.answers[i]? = some none) :
    p'.Inv key := by
  cases hpc : c.pc <;> simp only [advance, hpc] at h
  case register =>
    cases h
    exact hp.insert hk (he (by rw [hpc]; rfl))
  case unregister =>
    cases h
    exact hp.remove
  case await => split at h <;> cases h <;> exact hp
  all_goals
    cases h
    try exact hp

end Advance

theorem At.advance {events' : List EventPayload} {p' : Pending String Bool} {pc : PermissionPc}
    (hat : At s i c) (h : c.advance i s.events s.pending = some (events', p', pc)) :
    At ⟨events', p', s.calls.set i { c with pc := pc }⟩ i { c with pc := pc } := by
  obtain ⟨hlog, hent, hearly, -, hgr⟩ := hat
  cases hpc : c.pc <;> simp only [UserRequest.advance, hpc] at h <;>
    simp only [UserRequest.logged, hpc] at hlog
  case publish =>
    cases h
    refine ⟨?_, fun hm => ?_, fun _ => hearly (by rw [hpc]; rfl), nofun, nofun⟩
    · simp [hlog, about, UserRequest.request, UserRequest.logged]
    · exact absurd (hent hm) (by simp [hpc, PermissionPc.registered])
  case register =>
    cases h
    exact ⟨hlog, fun _ => rfl, nofun, fun _ => .inl (by simp), nofun⟩
  case await =>
    split at h
    · cases h
    · next granted hready =>
      cases h
      refine ⟨hlog, fun _ => rfl, nofun, nofun, fun hg => ?_⟩
      cases hg
      exact Pending.poll_ready.mp hready
    · cases h
      exact ⟨hlog, fun _ => rfl, nofun, nofun, nofun⟩
  case unregister granted =>
    cases h
    refine ⟨hlog, fun hm => ?_, nofun, nofun, fun hg => hgr (hpc ▸ hg)⟩
    exact absurd rfl (Pending.mem_remove.mp hm).2
  case publishResponse granted =>
    cases h
    refine ⟨?_, fun hm => ?_, nofun, nofun, fun hg => hgr (hpc ▸ hg)⟩
    · simp [hlog, about, UserRequest.request, UserRequest.logged]
    · exact absurd (hent hm) (by simp [hpc, PermissionPc.registered])
  case returned => cases h

theorem Inv.others (hI : Inv s) (hc : s.calls[i]? = some c) {events' : List EventPayload}
    {p' : Pending String Bool} {pc : PermissionPc}
    (h : c.advance i s.events s.pending = some (events', p', pc)) (hij : j ≠ i)
    (hd : s.calls[j]? = some d) : At ⟨events', p', s.calls.set i { c with pc := pc }⟩ j d := by
  have hne : c.id ≠ d.id := fun he => hij (hI.call_unique hc hd he).symm
  have hsame := UserRequest.advance_entries (j := j) h (Ne.symm hne)
  refine (hI.call j d hd).frame (UserRequest.advance_log h hne) hsame.mp
    (fun hm => .inl (hsame.mpr hm)) (fun he _ => ?_) fun v ha => ?_
  · rw [UserRequest.advance_answers h]
    exact he
  · rw [Pending.Answered, UserRequest.advance_answers h]
    exact ha

theorem Inv.move (hI : Inv s) (hc : s.calls[i]? = some c) {events' : List EventPayload}
    {p' : Pending String Bool} {pc : PermissionPc} (htable : p'.Inv fun i => s.ids[i]?)
    (hlen : p'.answers.length = s.pending.answers.length)
    (hlog : ∀ id, c.id ≠ id → events'.filter (about id) = s.events.filter (about id))
    (hcall : ∀ (j : ℕ) (d : UserRequest), (s.calls.set i { c with pc := pc })[j]? = some d →
      At ⟨events', p', s.calls.set i { c with pc := pc }⟩ j d) :
    Inv ⟨events', p', s.calls.set i { c with pc := pc }⟩ := by
  have hids := Sys.ids_move hc events' p' pc
  refine ⟨htable.congr fun _ j _ => congrArg (fun ids => ids[j]?) hids, ?_, ?_, ?_, hcall⟩
  · rw [hlen, List.length_set]
    exact hI.channels
  · rw [hids]
    exact hI.distinct
  · intro id hno
    have hcm : c.id ≠ id := hno { c with pc := pc } (mem_of_step hc _)
    refine (hlog id hcm).trans (hI.unasked id fun d hd => ?_)
    by_cases hdc : d = c
    · rw [hdc]
      exact hcm
    · exact hno d (mem_set_of_ne hc hd hdc _)

theorem Inv.request (hI : Inv s) {id : String} (hfresh : ∀ c ∈ s.calls, c.id ≠ id)
    (method description : String) :
    Inv ⟨s.events, s.pending.openChannel, s.calls ++ [⟨id, method, description, .publish⟩]⟩ := by
  have hnew : s.pending.answers.length = s.calls.length := hI.channels
  refine ⟨?_, ?_, ?_, ?_, ?_⟩
  · refine hI.table.openChannel.congr fun k j hm => ?_
    have hlt : j < s.ids.length := by
      rw [Sys.ids, List.length_map, ← hnew]
      exact hI.table.lt hm
    simp only [Sys.ids, List.map_append]
    exact List.getElem?_append_left hlt
  · simp only [Pending.openChannel, List.length_append, hnew, List.length_singleton]
  · rw [Sys.ids, List.map_append]
    refine List.nodup_append.mpr ⟨hI.distinct, List.nodup_singleton id, ?_⟩
    intro id' hid' id'' hnew'
    obtain ⟨c, hc, rfl⟩ := List.mem_map.mp hid'
    rw [List.mem_singleton.mp hnew']
    exact hfresh c hc
  · intro id' hno
    exact hI.unasked id' fun c hc => hno c (List.mem_append_left _ hc)
  · apply indexed_spawn
    · intro j d hd
      have hlt : j < s.pending.answers.length := hnew ▸ (List.getElem?_eq_some_iff.mp hd).1
      refine (hI.call j d hd).frame rfl (fun hm => hm) .inl (fun ha _ => ?_)
        fun v ha => Pending.openChannel_answered.mpr ha
      simp only [Pending.openChannel, List.getElem?_append_left hlt]
      exact ha
    · refine ⟨hI.unasked id hfresh, fun hm => ?_, fun _ => ?_, by intros; contradiction,
        by intros; contradiction⟩
      · have hlt := hI.table.lt hm
        rw [hnew] at hlt
        exact absurd hlt (lt_irrefl _)
      · simp only [Pending.openChannel, ← hnew, List.getElem?_concat_length]

theorem Inv.respond (hI : Inv s) (permId : String) (granted : Bool) :
    Inv { s with pending := s.pending.resolve permId granted } := by
  refine ⟨hI.table.resolve, Pending.resolve_length.trans hI.channels, hI.distinct, hI.unasked,
    fun j d hd => ?_⟩
  refine (hI.call j d hd).frame rfl (fun hm => (Pending.mem_resolve.mp hm).1) (fun hm => ?_)
    (fun ha he => ?_) fun _ => hI.table.resolve_keeps
  · by_cases hid : d.id = permId
    · subst hid
      exact .inr ⟨granted, Pending.resolve_answer (hI.lookup hd hm) (hI.table.lt hm)⟩
    · exact .inl (Pending.mem_resolve.mpr ⟨hm, hid⟩)
  · rw [Pending.resolve_other]
    · exact ha
    · exact fun hl => hI.unlisted hd (PermissionPc.early_out he) permId (Pending.mem_of_lookup hl)

theorem Inv.cancel (hI : Inv s) : Inv { s with pending := s.pending.drain false } := by
  refine ⟨.drain, Pending.drain_length.trans hI.channels, hI.distinct, hI.unasked,
    fun j d hd => ?_⟩
  refine (hI.call j d hd).frame rfl (fun hm => absurd hm List.not_mem_nil)
    (fun hm => .inr ⟨false, Pending.drain_answer hm (hI.table.lt hm)⟩) (fun ha he => ?_)
    fun _ => hI.table.drain_keeps
  rw [Pending.drain_other (hI.unlisted hd (PermissionPc.early_out he))]
  exact ha

theorem step_inv (hI : Inv s) {a : Action} (h : s.step a = some s') : Inv s' := by
  cases a with
  | request id method description =>
    obtain ⟨hfresh, rfl⟩ := Sys.step_request h
    exact hI.request hfresh method description
  | advance i =>
    obtain ⟨c, events, pending, pc, hc, hadv, rfl⟩ := Sys.step_advance h
    have hat := hI.call i c hc
    refine hI.move hc (UserRequest.advance_table hadv hI.table (Sys.ids_of_call hc) hat.early)
      (congrArg List.length (UserRequest.advance_answers hadv))
      (fun id => UserRequest.advance_log hadv) ?_
    apply indexed_set
    · exact fun j d hij hd => hI.others hc hadv hij hd
    · exact hat.advance hadv
  | timeout i =>
    obtain ⟨c, hc, hpc, -, rfl⟩ := Sys.step_timeout h
    have hlog := (hI.call i c hc).logged
    simp only [UserRequest.logged, hpc] at hlog
    refine hI.move hc hI.table rfl (fun _ _ => rfl) ?_
    apply indexed_set
    · exact fun j d _ hd => (hI.call j d hd).frame rfl id .inl (fun he _ => he) fun _ => id
    · refine ⟨hlog, fun _ => rfl, fun he => ?_, fun hw => ?_, fun hv => ?_⟩
      · cases he
      · cases hw
      · cases hv
  | respondPermission permId granted =>
    cases h
    exact hI.respond permId granted
  | cancelAllPending =>
    cases h
    exact hI.cancel

end Invariant

section Runs
variable {s s' t u u' : Sys} {as after : List Action} {i : ℕ} {c : UserRequest}

theorem run_inv (hr : run Sys.step .new as = some t) : Inv t :=
  preserved (fun _ _ _ hI => step_inv hI) inv_new hr

theorem Visit.inv {a : Action} (h : Visit Sys.step .new as u a u' after) : Inv u := by
  obtain ⟨⟨before, -, hu⟩, -⟩ := h
  exact run_inv hu

theorem step_call {a : Action} (h : s.step a = some s') (hc : s.calls[i]? = some c) :
    ∃ pc, s'.calls[i]? = some { c with pc := pc } ∧
      ∀ granted, c.pc = .returned granted → pc = .returned granted := by
  obtain ⟨hlt, -⟩ := List.getElem?_eq_some_iff.mp hc
  cases a with
  | request id method description =>
    obtain ⟨-, rfl⟩ := Sys.step_request h
    exact ⟨c.pc, (List.getElem?_append_left hlt).trans hc, fun _ hret => hret⟩
  | advance j =>
    obtain ⟨d, events, pending, pc, hd, hadv, rfl⟩ := Sys.step_advance h
    by_cases hji : j = i
    · subst hji
      rw [hc] at hd
      cases hd
      refine ⟨pc, List.getElem?_set_self hlt, fun granted hpc => ?_⟩
      simp only [UserRequest.advance, hpc, reduceCtorEq] at hadv
    · exact ⟨c.pc, (List.getElem?_set_ne hji).trans hc, fun _ hret => hret⟩
  | timeout j =>
    obtain ⟨d, hd, hpc, -, rfl⟩ := Sys.step_timeout h
    by_cases hji : j = i
    · subst hji
      rw [hc] at hd
      cases hd
      refine ⟨_, List.getElem?_set_self hlt, fun granted hret => ?_⟩
      rw [hpc] at hret
      cases hret
    · exact ⟨c.pc, (List.getElem?_set_ne hji).trans hc, fun _ hret => hret⟩
  | respondPermission permId granted =>
    cases h
    exact ⟨c.pc, hc, fun _ hret => hret⟩
  | cancelAllPending =>
    cases h
    exact ⟨c.pc, hc, fun _ hret => hret⟩

theorem step_verdict {a : Action} {granted : Bool} (h : s.step a = some s')
    (hc : s.calls[i]? = some c) (hv : c.pc.verdict = some granted) :
    ∃ c', s'.calls[i]? = some c' ∧ c'.pc.verdict = some granted := by
  obtain ⟨hlt, -⟩ := List.getElem?_eq_some_iff.mp hc
  cases a with
  | request id method description =>
    obtain ⟨-, rfl⟩ := Sys.step_request h
    exact ⟨c, (List.getElem?_append_left hlt).trans hc, hv⟩
  | advance j =>
    obtain ⟨d, events, pending, pc, hd, hadv, rfl⟩ := Sys.step_advance h
    by_cases hji : j = i
    · subst hji
      rw [hc] at hd
      cases hd
      exact ⟨_, List.getElem?_set_self hlt, UserRequest.advance_verdict hadv hv⟩
    · exact ⟨c, (List.getElem?_set_ne hji).trans hc, hv⟩
  | timeout j =>
    obtain ⟨d, hd, hpc, -, rfl⟩ := Sys.step_timeout h
    by_cases hji : j = i
    · subst hji
      rw [hc] at hd
      cases hd
      rw [hpc] at hv
      cases hv
    · exact ⟨c, (List.getElem?_set_ne hji).trans hc, hv⟩
  | respondPermission permId granted =>
    cases h
    exact ⟨c, hc, hv⟩
  | cancelAllPending =>
    cases h
    exact ⟨c, hc, hv⟩

theorem step_answered (hI : Inv s) {a : Action} {granted : Bool} (h : s.step a = some s')
    (ha : s.pending.Answered i granted) : s'.pending.Answered i granted := by
  cases a with
  | request id method description =>
    obtain ⟨-, rfl⟩ := Sys.step_request h
    exact Pending.openChannel_answered.mpr ha
  | advance j =>
    obtain ⟨c, events, pending, pc, -, hadv, rfl⟩ := Sys.step_advance h
    rw [Pending.Answered, UserRequest.advance_answers hadv]
    exact ha
  | timeout j =>
    obtain ⟨c, -, -, -, rfl⟩ := Sys.step_timeout h
    exact ha
  | respondPermission permId granted =>
    cases h
    exact hI.table.resolve_keeps ha
  | cancelAllPending =>
    cases h
    exact hI.table.drain_keeps ha

theorem Sys.denied_iff : s.denied i = true ↔ s.pending.Answered i false ∨
    ∃ c, s.calls[i]? = some c ∧ c.pc.verdict = some false := by
  simp [denied, Option.any_eq_true]

theorem step_denied (hI : Inv s) {a : Action} (h : s.step a = some s') (hd : s.denied i = true) :
    s'.denied i = true := by
  rcases Sys.denied_iff.mp hd with ha | ⟨c, hc, hv⟩
  · exact Sys.denied_iff.mpr (.inl (step_answered hI h ha))
  · exact Sys.denied_iff.mpr (.inr (step_verdict h hc hv))

theorem Inv.not_denied (hI : Inv s) (hc : s.calls[i]? = some c) (hret : c.pc = .returned true) :
    s.denied i = false := by
  rw [Bool.eq_false_iff, ne_eq, Sys.denied_iff]
  rintro (hno | ⟨d, hd, hv⟩)
  · have hyes := (hI.call i c hc).granted (by rw [hret]; rfl)
    rw [Pending.Answered] at hno hyes
    cases hno.symm.trans hyes
  · rw [hc] at hd
    cases hd
    rw [hret] at hv
    cases hv

theorem step_ids {a : Action} (h : s.step a = some s') : s.ids <+: s'.ids := by
  cases a with
  | request id method description =>
    obtain ⟨-, rfl⟩ := Sys.step_request h
    rw [Sys.ids, Sys.ids, List.map_append]
    exact List.prefix_append _ _
  | advance i =>
    obtain ⟨c, events, pending, pc, hc, -, rfl⟩ := Sys.step_advance h
    have hids := Sys.ids_move hc events pending pc
    exact hids.symm ▸ List.prefix_rfl
  | timeout i =>
    obtain ⟨c, hc, -, -, rfl⟩ := Sys.step_timeout h
    have hids := Sys.ids_move hc s.events s.pending (.unregister false)
    exact hids.symm ▸ List.prefix_rfl
  | respondPermission permId granted =>
    cases h
    exact List.prefix_rfl
  | cancelAllPending =>
    cases h
    exact List.prefix_rfl

theorem run_ids (hr : run Sys.step s as = some t) : s.ids <+: t.ids :=
  preserved (I := fun v => s.ids <+: v.ids) (fun _ _ _ hI h => hI.trans (step_ids h))
    List.prefix_rfl hr

theorem Visit.id {a : Action} {id : String} (h : Visit Sys.step .new as u a u' after)
    (hr : run Sys.step .new as = some t) (hc : t.calls[i]? = some c) (hu : u.ids[i]? = some id) :
    id = c.id := by
  have hsub : u.ids <+: t.ids := (step_ids h.step).trans (run_ids (h.rest hr))
  obtain ⟨later, hlater⟩ := hsub
  have hi := Sys.ids_of_call hc
  rw [← hlater, List.getElem?_append_left (List.getElem?_eq_some_iff.mp hu).1, hu] at hi
  exact Option.some.inj hi

theorem step_granted (hI : Inv s) {a : Action} (h : s.step a = some s')
    (hno : ¬ s.pending.Answered i true) (hyes : s'.pending.Answered i true) :
    ∃ id, a = .respondPermission id true ∧ s.pending.entries.lookup id = some i := by
  cases a with
  | request id method description =>
    obtain ⟨-, rfl⟩ := Sys.step_request h
    exact absurd (Pending.openChannel_answered.mp hyes) hno
  | advance i =>
    obtain ⟨c, events, pending, pc, -, hadv, rfl⟩ := Sys.step_advance h
    rw [Pending.Answered, UserRequest.advance_answers hadv] at hyes
    exact absurd hyes hno
  | timeout i =>
    obtain ⟨c, -, -, -, rfl⟩ := Sys.step_timeout h
    exact absurd hyes hno
  | respondPermission id granted =>
    cases h
    by_cases hl : s.pending.entries.lookup id = some i
    · have hsent := Pending.resolve_answer (v := granted) hl (hI.table.lt (Pending.mem_of_lookup hl))
      have hg : granted = true := Option.some.inj (Option.some.inj (hsent.symm.trans hyes))
      subst hg
      exact ⟨id, rfl, hl⟩
    · rw [Pending.Answered, Pending.resolve_other hl] at hyes
      exact absurd hyes hno
  | cancelAllPending =>
    cases h
    by_cases hm : ∃ k, (k, i) ∈ s.pending.entries
    · obtain ⟨k, hm⟩ := hm
      have hsent := Pending.drain_answer (v := false) hm (hI.table.lt hm)
      cases hsent.symm.trans hyes
    · rw [Pending.Answered, Pending.drain_other fun k hk => hm ⟨k, hk⟩] at hyes
      exact absurd hyes hno

theorem Inv.returned (hI : Inv t) {granted : Bool} (hc : t.calls[i]? = some c)
    (hpc : c.pc = .returned granted) :
    t.events.filter (about c.id) = [c.request, .permissionResponse c.id granted] ∧
      t.pending.entries.lookup c.id = none := by
  have hat := hI.call i c hc
  refine ⟨by simpa only [UserRequest.logged, hpc] using hat.logged, ?_⟩
  cases hl : t.pending.entries.lookup c.id with
  | none => rfl
  | some j =>
    have hm := Pending.mem_of_lookup hl
    obtain ⟨d, hd, hid⟩ := hI.entry_call hm
    have hji := hI.call_unique hd hc hid
    subst hji
    exact absurd hm (hI.unlisted hc (by rw [hpc]; rfl) c.id)

end Runs

/-- A call is granted only by an answer for it that takes its entry out; answers
for others leave it alone; what it returns is what the log says, and then it is
not in the table any more. -/
theorem permission_settled (as : List Action) (t : Sys) (i : ℕ) (c : UserRequest)
    (hr : run Sys.step .new as = some t) (hc : t.calls[i]? = some c) :
    (c.pc = .returned true → ∃ u u' after,
      Visit Sys.step .new as u (.respondPermission c.id true) u' after ∧
      u.pending.entries.lookup c.id = some i ∧ u'.pending.entries.lookup c.id = none) ∧
    (∀ u id granted u' after, Visit Sys.step .new as u (.respondPermission id granted) u' after →
      id ≠ c.id →
      u'.calls[i]? = u.calls[i]? ∧ u'.pending.answers[i]? = u.pending.answers[i]? ∧
      ((c.id, i) ∈ u'.pending.entries ↔ (c.id, i) ∈ u.pending.entries) ∧
      u'.events = u.events) ∧
    ∀ granted, c.pc = .returned granted →
      t.events.filter (about c.id) = [c.request, .permissionResponse c.id granted] ∧
      t.pending.entries.lookup c.id = none := by
  have hI := run_inv hr
  refine ⟨fun hpc => ?_, fun u id granted u' after hv hne => ?_, fun granted hpc =>
    hI.returned hc hpc⟩
  · have hsent : t.pending.Answered i true := (hI.call i c hc).granted (by rw [hpc]; rfl)
    obtain ⟨u, a, u', after, hv, hno, hyes⟩ :=
      exists_visit (P := fun v => v.pending.Answered i true) nofun hr hsent
    have hu := Visit.inv hv
    obtain ⟨id, rfl, hl⟩ := step_granted hu hv.step hno hyes
    have hid := Visit.id hv hr hc (hu.table.keyed id i (Pending.mem_of_lookup hl))
    subst hid
    refine ⟨u, u', after, hv, hl, ?_⟩
    have hstep := hv.step
    cases hstep
    rw [Pending.resolve_of_mem hl]
    exact Pending.lookup_remove
  · have hstep := hv.step
    cases hstep
    refine ⟨rfl, (Visit.inv hv).table.resolve_frame fun hkey => ?_, ?_, rfl⟩
    · exact hne (Visit.id hv hr hc hkey)
    · simp [Ne.symm hne]

/-- Asked, answered by the user and returned, while another answer goes nowhere. -/
def grantedRun : List Action :=
  [.request "p" "fs/write_text_file" "Write to /proj/a", .advance 0, .advance 0,
    .respondPermission "q" false, .respondPermission "p" true, .advance 0, .advance 0, .advance 0]

def grantedCall : UserRequest := ⟨"p", "fs/write_text_file", "Write to /proj/a", .returned true⟩

theorem permission_settled_granted :
    ∃ t u u' after, run Sys.step .new grantedRun = some t ∧ t.calls[0]? = some grantedCall ∧
      Visit Sys.step .new grantedRun u (.respondPermission "p" true) u' after ∧
      u.pending.entries.lookup "p" = some 0 ∧
      t.events.filter (about "p") = [grantedCall.request, .permissionResponse "p" true] ∧
      t.pending.entries.lookup "p" = none := by
  obtain ⟨t, hr, hc⟩ : ∃ t, run Sys.step .new grantedRun = some t ∧
      t.calls[0]? = some grantedCall := exists_run _ (by decide)
  have h := permission_settled grantedRun t 0 grantedCall hr hc
  obtain ⟨u, u', after, hv, hl, -⟩ := h.1 rfl
  obtain ⟨hlog, hgone⟩ := h.2.2 true rfl
  exact ⟨t, u, u', after, hr, hc, hv, hl, hlog, hgone⟩

end Ccgonext.Permissions
