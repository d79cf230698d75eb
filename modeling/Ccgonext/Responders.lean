import Ccgonext.Session
import Ccgonext.Permissions

/-!
# Answers on their way to the handler

`respond_to_permission` of `session/mod.rs` reaches a question through the
client that the session has stored at that moment, and holds the read lock of
`client` until `respond_permission` is done. The question itself is in the log
before its call has entered the table, and before the client is stored while the
session starts. One session is modelled with the clients it has spawned, the
callback handler of each and the responders.
-/

namespace Ccgonext.Responders
open Lib Lib.Runs Lib.Pool Session Permissions

inductive ResponderPc
  | readClient
  | respond (client : ClientId)
  | returned
  deriving DecidableEq, Repr

structure Responder where
  permId : String
  granted : Bool
  pc : ResponderPc
  deriving DecidableEq, Repr

def Responder.reading (r : Responder) : Bool :=
  match r.pc with
  | .respond _ => true
  | _ => false

structure World where
  sys : Session.Sys
  handlers : List Permissions.Sys
  responders : List Responder
  deriving DecidableEq, Repr

def World.new (now : ℕ) : World := ⟨.new now, [], []⟩

inductive Action
  | session (a : Session.Action)
  | permission (client : ClientId) (a : Permissions.Action)
  | respond (permId : String) (granted : Bool)
  | respondStep (j : ℕ)
  deriving DecidableEq, Repr

def ownAction : Permissions.Action → Bool
  | .respondPermission .. => false
  | _ => true

namespace World

/-- The client is replaced only while no responder reads it; a client that has
been spawned brings its handler. -/
def setSys (w : World) (sys : Session.Sys) : Option World :=
  if sys.session.client = w.sys.session.client ∨ ∀ r ∈ w.responders, r.reading = false then some
    { w with
      sys := sys
      handlers :=
        if sys.session.spawned = w.sys.session.spawned then w.handlers
        else w.handlers ++ [Permissions.Sys.new] }
  else none

def step (w : World) : Action → Option World
  | .session a =>
    match w.sys.step a with
    | none => none
    | some sys => w.setSys sys
  | .permission client a =>
    match w.handlers[client]? with
    | none => none
    | some h =>
      if ownAction a then (h.step a).map fun h' => { w with handlers := w.handlers.set client h' }
      else none
  | .respond permId granted =>
    some { w with responders := w.responders ++ [⟨permId, granted, .readClient⟩] }
  | .respondStep j =>
    match w.responders[j]? with
    | none => none
    | some r =>
      match r.pc with
      | .readClient => some
        { w with responders := w.responders.set j { r with pc :=
            match w.sys.session.client with
            | none => .returned
            | some client => .respond client } }
      | .respond client => some
        { w with
          handlers := w.handlers.modify client fun h =>
            { h with pending := h.pending.resolve r.permId r.granted }
          responders := w.responders.set j { r with pc := .returned } }
      | .returned => none

end World

def Open (h : Permissions.Sys) (i : ℕ) (id : String) : Prop :=
  ∃ c, h.calls[i]? = some c ∧ c.id = id ∧ (c.pc = .register ∨ c.pc = .await) ∧
    h.pending.answers[i]? = some none

def Granted (h : Permissions.Sys) (i : ℕ) : Prop :=
  ∃ c, h.calls[i]? = some c ∧ (c.pc = .await ∨ c.pc.verdict = some true) ∧
    h.pending.Answered i true

section Handler
variable {h h' : Permissions.Sys} {i : ℕ} {id : String} {a : Permissions.Action} {granted : Bool}

theorem Open.step (hI : Permissions.Inv h) (ho : Open h i id) (hs : h.step a = some h')
    (htimeout : a ≠ .timeout i) (hcancel : a ≠ .cancelAllPending)
    (hanswer : ∀ granted, a ≠ .respondPermission id granted) : Open h' i id := by
  obtain ⟨c, hc, rfl, hpc, hans⟩ := ho
  have hlt : i < h.calls.length := (List.getElem?_eq_some_iff.mp hc).1
  cases a with
  | request id' method description =>
    obtain ⟨-, rfl⟩ := Sys.step_request hs
    refine ⟨c, ?_, rfl, hpc, ?_⟩
    · rw [List.getElem?_append_left hlt, hc]
    · rw [← hI.channels] at hlt
      simp only [Pending.openChannel, List.getElem?_append_left hlt, hans]
  | advance j =>
    obtain ⟨d, events, pending, pc, hd, hadv, rfl⟩ := Sys.step_advance hs
    have hans' : pending.answers[i]? = some none := by
      rw [UserRequest.advance_answers hadv, hans]
    by_cases hji : j = i
    · subst hji
      rw [hc] at hd
      cases hd
      rcases hpc with hpc | hpc <;> simp only [UserRequest.advance, hpc] at hadv
      · cases hadv
        exact ⟨_, List.getElem?_set_self hlt, rfl, .inr rfl, hans'⟩
      · rw [hI.poll_await hc hpc hans] at hadv
        cases hadv
    · exact ⟨c, by rw [List.getElem?_set_ne hji, hc], rfl, hpc, hans'⟩
  | timeout j =>
    obtain ⟨d, hd, -, -, rfl⟩ := Sys.step_timeout hs
    have hji : j ≠ i := by
      intro hji
      exact htimeout (by rw [hji])
    exact ⟨c, by rw [List.getElem?_set_ne hji, hc], rfl, hpc, hans⟩
  | respondPermission id' granted =>
    cases hs
    refine ⟨c, hc, rfl, hpc, ?_⟩
    rw [Pending.resolve_other]
    · exact hans
    · intro hl
      obtain ⟨d, hd, rfl⟩ := hI.entry_call (Pending.mem_of_lookup hl)
      rw [hc] at hd
      cases hd
      exact hanswer granted rfl
  | cancelAllPending => exact absurd rfl hcancel

theorem Granted.step (hI : Permissions.Inv h) (hg : Granted h i) (hs : h.step a = some h') :
    Granted h' i := by
  obtain ⟨c, hc, hpc, hans⟩ := hg
  have hlt : i < h.calls.length := (List.getElem?_eq_some_iff.mp hc).1
  cases a with
  | request id' method description =>
    obtain ⟨-, rfl⟩ := Sys.step_request hs
    refine ⟨c, ?_, hpc, Pending.openChannel_answered.mpr hans⟩
    rw [List.getElem?_append_left hlt, hc]
  | advance j =>
    obtain ⟨d, events, pending, pc, hd, hadv, rfl⟩ := Sys.step_advance hs
    have hans' : pending.Answered i true := by
      rw [Pending.Answered, UserRequest.advance_answers hadv]
      exact hans
    by_cases hji : j = i
    · subst hji
      rw [hc] at hd
      cases hd
      refine ⟨_, List.getElem?_set_self hlt, .inr ?_, hans'⟩
      rcases hpc with hpc | hv
      · simp only [UserRequest.advance, hpc, Pending.poll_ready.mpr hans] at hadv
        cases hadv
        rfl
      · exact UserRequest.advance_verdict hadv hv
    · exact ⟨c, by rw [List.getElem?_set_ne hji, hc], hpc, hans'⟩
  | timeout j =>
    obtain ⟨d, hd, -, hempty, rfl⟩ := Sys.step_timeout hs
    have hji : j ≠ i := by
      intro hji
      subst hji
      rw [Pending.poll_ready.mpr hans] at hempty
      cases hempty
    exact ⟨c, by rw [List.getElem?_set_ne hji, hc], hpc, hans⟩
  | respondPermission id' granted =>
    cases hs
    exact ⟨c, hc, hpc, hI.table.resolve_keeps hans⟩
  | cancelAllPending =>
    cases hs
    exact ⟨c, hc, hpc, hI.table.drain_keeps hans⟩

theorem Open.answered (hI : Permissions.Inv h) (ho : Open h i id)
    (hm : (id, i) ∈ h.pending.entries) :
    Granted { h with pending := h.pending.resolve id true } i := by
  obtain ⟨c, hc, rfl, hpc, -⟩ := ho
  have hreg := (hI.call i c hc).entered hm
  refine ⟨c, hc, .inl ?_, Pending.resolve_answer (hI.lookup hc hm) (hI.table.lt hm)⟩
  rcases hpc with hpc | hpc
  · rw [hpc] at hreg
    cases hreg
  · exact hpc

theorem Open.missed (ho : Open h i id) (hm : (id, i) ∉ h.pending.entries) :
    Open { h with pending := h.pending.resolve id granted } i id := by
  obtain ⟨c, hc, hid, hpc, hans⟩ := ho
  refine ⟨c, hc, hid, hpc, ?_⟩
  rw [Pending.resolve_other fun hl => hm (Pending.mem_of_lookup hl)]
  exact hans

end Handler

section Steps
variable {w w' : World} {client : ClientId} {h : Permissions.Sys} {i j : ℕ} {id : String}
  {r : Responder}

theorem World.step_session {a : Session.Action} (hs : w.step (.session a) = some w') :
    ∃ sys, w.sys.step a = some sys ∧ w.setSys sys = some w' := by
  simp only [step] at hs
  split at hs
  · cases hs
  · next sys hsys => exact ⟨sys, hsys, hs⟩

theorem World.setSys_handlers {sys : Session.Sys} (hs : w.setSys sys = some w') :
    w'.responders = w.responders ∧ w'.sys = sys ∧
      (w'.handlers = w.handlers ∨ w'.handlers = w.handlers ++ [Permissions.Sys.new]) := by
  simp only [setSys] at hs
  split at hs
  · cases hs
    refine ⟨rfl, rfl, ?_⟩
    simp only
    split
    · exact .inl rfl
    · exact .inr rfl
  · cases hs

theorem World.step_permission {a : Permissions.Action}
    (hs : w.step (.permission client a) = some w') :
    ∃ h h', w.handlers[client]? = some h ∧ ownAction a = true ∧ h.step a = some h' ∧
      w' = { w with handlers := w.handlers.set client h' } := by
  simp only [step] at hs
  split at hs
  · cases hs
  · next h hh =>
    split at hs
    · next hown =>
      obtain ⟨h', hh', hw⟩ := Option.map_eq_some_iff.mp hs
      exact ⟨h, h', hh, hown, hh', hw.symm⟩
    · cases hs

theorem World.step_respondStep (hs : w.step (.respondStep j) = some w') :
    ∃ r, w.responders[j]? = some r ∧
      (r.pc = .readClient ∧ w' = { w with responders := w.responders.set j { r with pc :=
          match w.sys.session.client with
          | none => .returned
          | some client => .respond client } } ∨
      ∃ client, r.pc = .respond client ∧ w' = { w with
        handlers := w.handlers.modify client fun h =>
          { h with pending := h.pending.resolve r.permId r.granted }
        responders := w.responders.set j { r with pc := .returned } }) := by
  simp only [step] at hs
  split at hs
  · cases hs
  · next r hr =>
    split at hs
    · next hpc => exact ⟨r, hr, .inl ⟨hpc, (Option.some.inj hs).symm⟩⟩
    · next client hpc => exact ⟨r, hr, .inr ⟨client, hpc, (Option.some.inj hs).symm⟩⟩
    · cases hs

inductive Moved (w : World) (client : ClientId) (h : Permissions.Sys) :
    Action → Permissions.Sys → Prop
  | kept (a : Action) : Moved w client h a h
  | own {a : Permissions.Action} {h' : Permissions.Sys} (hown : ownAction a = true)
      (hs : h.step a = some h') : Moved w client h (.permission client a) h'
  | answered {j : ℕ} {r : Responder} (hr : w.responders[j]? = some r)
      (hpc : r.pc = .respond client) : Moved w client h (.respondStep j)
        { h with pending := h.pending.resolve r.permId r.granted }

theorem World.step_handler {a : Action} (hs : w.step a = some w')
    (hh : w.handlers[client]? = some h) :
    ∃ h', w'.handlers[client]? = some h' ∧ Moved w client h a h' := by
  have hlt : client < w.handlers.length := (List.getElem?_eq_some_iff.mp hh).1
  cases a with
  | session a =>
    obtain ⟨sys, -, hset⟩ := step_session hs
    obtain ⟨-, -, hsame | hnew⟩ := setSys_handlers hset
    · exact ⟨h, by rw [hsame, hh], .kept _⟩
    · exact ⟨h, by rw [hnew, List.getElem?_append_left hlt, hh], .kept _⟩
  | permission client' a =>
    obtain ⟨g, g', hg, hown, hstep, rfl⟩ := step_permission hs
    by_cases hc : client' = client
    · subst hc
      rw [hh] at hg
      cases hg
      exact ⟨g', List.getElem?_set_self hlt, .own hown hstep⟩
    · exact ⟨h, by rw [List.getElem?_set_ne hc, hh], .kept _⟩
  | respond permId granted =>
    cases hs
    exact ⟨h, hh, .kept _⟩
  | respondStep j =>
    obtain ⟨r, hr, ⟨-, rfl⟩ | ⟨client', hpc, rfl⟩⟩ := step_respondStep hs
    · exact ⟨h, hh, .kept _⟩
    · by_cases hc : client' = client
      · subst hc
        refine ⟨_, ?_, .answered hr hpc⟩
        simp only [List.getElem?_modify, hh, ↓reduceIte, Option.map_eq_map, Option.map_some]
      · refine ⟨h, ?_, .kept _⟩
        simp only [List.getElem?_modify, hc, hh, ↓reduceIte, Option.map_eq_map, Option.map_some]

theorem World.step_responders {a : Action} (hs : w.step a = some w')
    (hr : w.responders[j]? = some r) (ha : a ≠ .respondStep j) : w'.responders[j]? = some r := by
  cases a with
  | session a =>
    obtain ⟨sys, -, hset⟩ := step_session hs
    rw [(setSys_handlers hset).1, hr]
  | permission client' a =>
    obtain ⟨g, g', -, -, -, rfl⟩ := step_permission hs
    exact hr
  | respond permId granted =>
    cases hs
    simp only [List.getElem?_append_left (List.getElem?_eq_some_iff.mp hr).1, hr]
  | respondStep l =>
    have hne : l ≠ j := by
      intro hl
      exact ha (by rw [hl])
    obtain ⟨q, -, ⟨-, rfl⟩ | ⟨client', -, rfl⟩⟩ := step_respondStep hs
    · simp only [List.getElem?_set_ne hne, hr]
    · simp only [List.getElem?_set_ne hne, hr]

def Sound (w : World) : Prop :=
  ∀ (client : ClientId) (h : Permissions.Sys), w.handlers[client]? = some h → Permissions.Inv h

theorem Moved.inv {a : Action} {h' : Permissions.Sys} (hm : Moved w client h a h')
    (hI : Permissions.Inv h) : Permissions.Inv h' := by
  cases hm with
  | kept => exact hI
  | own _ hs => exact Permissions.step_inv hI hs
  | @answered j r _ _ => exact hI.respond r.permId r.granted

theorem Moved.granted {a : Action} {h' : Permissions.Sys} (hm : Moved w client h a h')
    (hI : Permissions.Inv h) (hg : Granted h i) : Granted h' i := by
  cases hm with
  | kept => exact hg
  | own _ hs => exact hg.step hI hs
  | @answered j r _ _ =>
    exact hg.step hI (a := .respondPermission r.permId r.granted) rfl

theorem sound_new (now : ℕ) : Sound (.new now) := by
  intro client h hh
  cases hh

theorem step_sound {a : Action} (hI : Sound w) (hs : w.step a = some w') : Sound w' := by
  cases a with
  | session a =>
    obtain ⟨sys, -, hset⟩ := World.step_session hs
    unfold Sound
    obtain ⟨-, -, hsame | hnew⟩ := World.setSys_handlers hset
    · rw [hsame]
      exact hI
    · rw [hnew]
      exact indexed_spawn hI Permissions.inv_new
  | permission client a =>
    obtain ⟨h, h', hh, -, hstep, rfl⟩ := World.step_permission hs
    exact indexed_set (fun j g _ hg => hI j g hg) (Permissions.step_inv (hI client h hh) hstep)
  | respond permId granted =>
    cases hs
    exact hI
  | respondStep j =>
    obtain ⟨r, hr, ⟨-, rfl⟩ | ⟨client, hpc, rfl⟩⟩ := World.step_respondStep hs
    · exact hI
    · intro client' h' hh'
      simp only [List.getElem?_modify, Option.map_eq_map, Option.map_eq_some_iff] at hh'
      obtain ⟨h, hh, rfl⟩ := hh'
      split
      · exact (hI client' h hh).respond r.permId r.granted
      · exact hI client' h hh

end Steps

/-- The step neither times the call out, nor cancels the questions of its
client, nor is it another answer to it. -/
def Undisturbed (client : ClientId) (i j : ℕ) (id : String) (w : World) : Action → Prop
  | .permission client' a => client' = client → a ≠ .timeout i ∧ a ≠ .cancelAllPending
  | .respondStep l => l ≠ j → ∀ r, w.responders[l]? = some r → r.permId ≠ id
  | _ => True

/-- The responder reads the client that asks, and finds its entry in the table. -/
def Reaches (client : ClientId) (i j : ℕ) (id : String) (w : World) : Action → Prop
  | .respondStep l => l = j → ∀ r, w.responders[j]? = some r →
    (r.pc = .readClient → w.sys.session.client = some client) ∧
    (r.pc = .respond client → ∀ h, w.handlers[client]? = some h → (id, i) ∈ h.pending.entries)
  | _ => True

instance (client : ClientId) (i j : ℕ) (id : String) (w : World) (a : Action) :
    Decidable (Undisturbed client i j id w a) :=
  match a with
  | .permission client' a =>
    inferInstanceAs (Decidable (client' = client → a ≠ .timeout i ∧ a ≠ .cancelAllPending))
  | .respondStep l =>
    inferInstanceAs (Decidable (l ≠ j → ∀ r ∈ w.responders[l]?, r.permId ≠ id))
  | .session _ | .respond .. => .isTrue trivial

instance (client : ClientId) (i j : ℕ) (id : String) (w : World) (a : Action) :
    Decidable (Reaches client i j id w a) :=
  match a with
  | .respondStep l =>
    inferInstanceAs (Decidable (l = j → ∀ r ∈ w.responders[j]?,
      (r.pc = .readClient → w.sys.session.client = some client) ∧
      (r.pc = .respond client → ∀ h ∈ w.handlers[client]?, (id, i) ∈ h.pending.entries)))
  | .session _ | .permission .. | .respond .. => .isTrue trivial

section Answer
variable (client : ClientId) (i j : ℕ) (id : String)

def Coming (w : World) : Prop :=
  (∃ h, w.handlers[client]? = some h ∧ Open h i id) ∧
    ∃ pc, w.responders[j]? = some ⟨id, true, pc⟩ ∧ (pc = .readClient ∨ pc = .respond client)

def Arrived (w : World) : Prop :=
  (∃ h, w.handlers[client]? = some h ∧ Granted h i) ∧ w.responders[j]? = some ⟨id, true, .returned⟩

def Lost (w : World) : Prop :=
  (∃ h, w.handlers[client]? = some h ∧ Open h i id) ∧
    ∃ pc, w.responders[j]? = some ⟨id, true, pc⟩ ∧
      (pc = .returned ∨ ∃ other, pc = .respond other ∧ other ≠ client)

variable {client i j id} {w w' : World} {a : Action}

def Aside (client : ClientId) (j : ℕ) (w : World) : Action → Prop
  | .respondStep l => l = j → ∀ r, w.responders[j]? = some r → r.pc ≠ .respond client
  | _ => True

theorem Open.kept (hI : Sound w) (ho : ∃ h, w.handlers[client]? = some h ∧ Open h i id)
    (hu : Undisturbed client i j id w a) (haside : Aside client j w a)
    (hs : w.step a = some w') : ∃ h, w'.handlers[client]? = some h ∧ Open h i id := by
  obtain ⟨h, hh, ho⟩ := ho
  obtain ⟨h', hh', hm⟩ := World.step_handler hs hh
  refine ⟨h', hh', ?_⟩
  cases hm with
  | kept => exact ho
  | @own pa h' hown hstep =>
    obtain ⟨htimeout, hcancel⟩ := hu rfl
    refine ho.step (hI client h hh) hstep htimeout hcancel ?_
    rintro granted rfl
    cases hown
  | @answered l r hr hpc =>
    have hlj : l ≠ j := fun hlj => haside hlj r (hlj ▸ hr) hpc
    have hne : r.permId ≠ id := hu hlj r hr
    refine ho.step (hI client h hh) (a := .respondPermission r.permId r.granted) rfl nofun nofun ?_
    rintro granted hans
    cases hans
    exact hne rfl

theorem aside_of_ne (ha : a ≠ .respondStep j) : Aside client j w a := by
  cases a with
  | respondStep l =>
    intro hl
    exact absurd (by rw [hl]) ha
  | session | permission | respond => trivial

theorem Coming.own (hI : Sound w) (hc : Coming client i j id w)
    (hs : w.step (.respondStep j) = some w') :
    (Reaches client i j id w (.respondStep j) ∧ (Coming client i j id w' ∨ Arrived client i j id w')) ∨
      ¬ Reaches client i j id w (.respondStep j) ∧ Lost client i j id w' := by
  obtain ⟨⟨h, hh, ho⟩, pc, hr, hpc⟩ := hc
  have hlt : j < w.responders.length := (List.getElem?_eq_some_iff.mp hr).1
  obtain ⟨q, hq, hcase⟩ := World.step_respondStep hs
  rw [hr] at hq
  cases hq
  rcases hcase with ⟨hread, rfl⟩ | ⟨client', hrespond, rfl⟩
  · simp only at hread
    subst hread
    by_cases hclient : w.sys.session.client = some client
    · refine .inl ⟨?_, .inl ⟨⟨h, hh, ho⟩, .respond client, ?_, .inr rfl⟩⟩
      · rintro - r hr'
        rw [hr] at hr'
        cases hr'
        exact ⟨fun _ => hclient, nofun⟩
      · simp only [List.getElem?_set_self hlt, hclient]
    · refine .inr ⟨fun hreach => hclient ((hreach rfl _ hr).1 rfl), ⟨h, hh, ho⟩, ?_⟩
      cases hstored : w.sys.session.client with
      | none => exact ⟨.returned, by simp only [List.getElem?_set_self hlt], .inl rfl⟩
      | some other =>
        refine ⟨.respond other, by simp only [List.getElem?_set_self hlt], .inr ⟨other, rfl, ?_⟩⟩
        rintro rfl
        exact hclient hstored
  · simp only at hrespond
    subst hrespond
    have hclient : client' = client := by
      rcases hpc with hpc | hpc <;> cases hpc
      rfl
    subst hclient
    have hset : (w.responders.set j ⟨id, true, .returned⟩)[j]? = some ⟨id, true, .returned⟩ :=
      List.getElem?_set_self hlt
    have hmod : (w.handlers.modify client' fun h =>
        { h with pending := h.pending.resolve id true })[client']? =
        some { h with pending := h.pending.resolve id true } := by
      simp only [List.getElem?_modify, hh, ↓reduceIte, Option.map_eq_map, Option.map_some]
    by_cases hm : (id, i) ∈ h.pending.entries
    · refine .inl ⟨?_, .inr ⟨⟨_, hmod, ho.answered (hI client' h hh) hm⟩, hset⟩⟩
      rintro - r hr'
      rw [hr] at hr'
      cases hr'
      refine ⟨nofun, fun _ g hg => ?_⟩
      rw [hh] at hg
      cases hg
      exact hm
    · exact .inr ⟨fun hreach => hm ((hreach rfl _ hr).2 rfl h hh), ⟨_, hmod, ho.missed hm⟩, _, hset,
        .inl rfl⟩

theorem Coming.step (hI : Sound w) (hc : Coming client i j id w)
    (hu : Undisturbed client i j id w a) (hs : w.step a = some w') :
    (Reaches client i j id w a ∧ (Coming client i j id w' ∨ Arrived client i j id w')) ∨
      ¬ Reaches client i j id w a ∧ Lost client i j id w' := by
  by_cases ha : a = .respondStep j
  · subst ha
    exact hc.own hI hs
  · obtain ⟨ho, pc, hr, hpc⟩ := hc
    refine .inl ⟨?_, .inl ⟨Open.kept hI ho hu (aside_of_ne ha) hs, pc, ?_, hpc⟩⟩
    · cases a with
      | respondStep l =>
        intro hl
        exact absurd (by rw [hl]) ha
      | session | permission | respond => trivial
    · exact World.step_responders hs hr ha

theorem Arrived.step (hI : Sound w) (hc : Arrived client i j id w) (hs : w.step a = some w') :
    Arrived client i j id w' := by
  obtain ⟨⟨h, hh, hg⟩, hr⟩ := hc
  obtain ⟨h', hh', hm⟩ := World.step_handler hs hh
  refine ⟨⟨h', hh', hm.granted (hI client h hh) hg⟩, World.step_responders hs hr ?_⟩
  rintro rfl
  obtain ⟨r, hr', ⟨hpc, -⟩ | ⟨other, hpc, -⟩⟩ := World.step_respondStep hs <;>
    · rw [hr] at hr'
      cases hr'
      cases hpc

theorem Lost.step (hI : Sound w) (hc : Lost client i j id w) (hu : Undisturbed client i j id w a)
    (hs : w.step a = some w') : Lost client i j id w' := by
  obtain ⟨ho, pc, hr, hpc⟩ := hc
  have haside : Aside client j w a := by
    cases a with
    | respondStep l =>
      rintro - r hr' hresp
      rw [hr] at hr'
      cases hr'
      rcases hpc with rfl | ⟨other, rfl, hne⟩ <;> cases hresp
      exact hne rfl
    | session | permission | respond => trivial
  refine ⟨Open.kept hI ho hu haside hs, ?_⟩
  by_cases ha : a = .respondStep j
  · subst ha
    obtain ⟨r, hr', hcase⟩ := World.step_respondStep hs
    rw [hr] at hr'
    cases hr'
    refine ⟨.returned, ?_, .inl rfl⟩
    have hlt : j < w.responders.length := (List.getElem?_eq_some_iff.mp hr).1
    rcases hcase with ⟨hread, -⟩ | ⟨other, -, rfl⟩
    · rcases hpc with rfl | ⟨other, rfl, -⟩ <;> cases hread
    · exact List.getElem?_set_self hlt
  · exact ⟨pc, World.step_responders hs hr ha, hpc⟩

theorem Arrived.reaches (h : Arrived client i j id w) : Reaches client i j id w a := by
  cases a with
  | respondStep l =>
    rintro - r hr
    rw [h.2] at hr
    cases hr
    exact ⟨nofun, nofun⟩
  | session | permission | respond => trivial

variable (client i j id) in
def OnTrack (w : World) : Prop :=
  Sound w ∧ (Coming client i j id w ∨ Arrived client i j id w)

theorem OnTrack.step (h : OnTrack client i j id w)
    (hC : Undisturbed client i j id w a ∧ Reaches client i j id w a) (hs : w.step a = some w') :
    OnTrack client i j id w' := by
  obtain ⟨hI, hc | ha⟩ := h
  · rcases hc.step hI hC.1 hs with ⟨-, hon⟩ | ⟨hno, -⟩
    · exact ⟨step_sound hI hs, hon⟩
    · exact absurd hC.2 hno
  · exact ⟨step_sound hI hs, .inr (ha.step hI hs)⟩

theorem OnTrack.strays (h : OnTrack client i j id w) (hu : Undisturbed client i j id w a)
    (hno : ¬ Reaches client i j id w a) (hs : w.step a = some w') :
    Sound w' ∧ Lost client i j id w' := by
  obtain ⟨hI, hc | ha⟩ := h
  · rcases hc.step hI hu hs with ⟨hreach, -⟩ | ⟨-, hlost⟩
    · exact absurd hreach hno
    · exact ⟨step_sound hI hs, hlost⟩
  · exact absurd ha.reaches hno

end Answer

section Ends
variable {h : Permissions.Sys} {v w : World} {client : ClientId} {i j : ℕ} {id : String}
  {c : UserRequest} {granted : Bool}

/-- The call `i` of the handler can come to return `granted` by itself. -/
def MayReturn (h : Permissions.Sys) (i : ℕ) (granted : Bool) : Prop :=
  ∃ as h' c, (∀ a ∈ as, ownAction a = true) ∧ run Permissions.Sys.step h as = some h' ∧
    h'.calls[i]? = some c ∧ c.pc = .returned granted

theorem MayReturn.cons {h' : Permissions.Sys} {a : Permissions.Action} (hown : ownAction a = true)
    (hs : h.step a = some h') (hm : MayReturn h' i granted) : MayReturn h i granted := by
  obtain ⟨as, t, c, hall, hr, hc, hpc⟩ := hm
  refine ⟨a :: as, t, c, ?_, by simpa only [run, hs] using hr, hc, hpc⟩
  intro b hb
  rcases List.mem_cons.mp hb with rfl | hb
  · exact hown
  · exact hall b hb

theorem step_of_advance {events : List Events.EventPayload} {pending : Pending String Bool}
    {pc : PermissionPc} (hc : h.calls[i]? = some c)
    (hadv : c.advance i h.events h.pending = some (events, pending, pc)) :
    h.step (.advance i) = some ⟨events, pending, h.calls.set i { c with pc := pc }⟩ ∧
      (h.calls.set i { c with pc := pc })[i]? = some { c with pc := pc } := by
  refine ⟨by simp only [Permissions.Sys.step, hc, hadv], ?_⟩
  exact List.getElem?_set_self (List.getElem?_eq_some_iff.mp hc).1

theorem mayReturn_of_verdict (hc : h.calls[i]? = some c) (hv : c.pc.verdict = some granted) :
    MayReturn h i granted := by
  have hlast : ∀ (h : Permissions.Sys) (c : UserRequest), h.calls[i]? = some c →
      c.pc = .publishResponse granted → MayReturn h i granted := by
    intro h c hc hpc
    obtain ⟨hs, hc'⟩ := step_of_advance hc (by simp only [UserRequest.advance, hpc]; rfl)
    exact .cons rfl hs ⟨[], _, _, List.forall_mem_nil _, rfl, hc', rfl⟩
  cases hpc : c.pc <;> rw [hpc] at hv <;> cases hv
  case unregister =>
    obtain ⟨hs, hc'⟩ := step_of_advance hc (by simp only [UserRequest.advance, hpc]; rfl)
    exact .cons rfl hs (hlast _ _ hc' rfl)
  case publishResponse => exact hlast h c hc hpc
  case returned => exact ⟨[], h, c, List.forall_mem_nil _, rfl, hc, hpc⟩

theorem Granted.mayReturn (hg : Granted h i) : MayReturn h i true := by
  obtain ⟨c, hc, hpc | hv, hans⟩ := hg
  · obtain ⟨hs, hc'⟩ := step_of_advance hc
      (by simp only [UserRequest.advance, hpc, Pending.poll_ready.mpr hans]; rfl)
    exact .cons rfl hs (mayReturn_of_verdict hc' rfl)
  · exact mayReturn_of_verdict hc hv

theorem Open.mayReturn (hI : Permissions.Inv h) (ho : Open h i id) : MayReturn h i false := by
  have hawait : ∀ (h : Permissions.Sys) (c : UserRequest), Permissions.Inv h →
      h.calls[i]? = some c → c.pc = .await → h.pending.answers[i]? = some none →
      MayReturn h i false := by
    intro h c hI hc hpc hans
    have hs : h.step (.timeout i) =
        some { h with calls := h.calls.set i { c with pc := .unregister false } } := by
      simp only [Permissions.Sys.step, hc, hpc, hI.poll_await hc hpc hans, and_self, ↓reduceIte]
    exact .cons rfl hs (mayReturn_of_verdict
      (List.getElem?_set_self (List.getElem?_eq_some_iff.mp hc).1) rfl)
  obtain ⟨c, hc, -, hpc | hpc, hans⟩ := ho
  · obtain ⟨hs, hc'⟩ := step_of_advance hc (by simp only [UserRequest.advance, hpc]; rfl)
    exact .cons rfl hs (hawait _ _ (Permissions.step_inv hI hs) hc' rfl hans)
  · exact hawait h c hI hc hpc hans

def Returned (w : World) (client : ClientId) (i : ℕ) (granted : Bool) : Prop :=
  ∃ h c, w.handlers[client]? = some h ∧ h.calls[i]? = some c ∧ c.pc = .returned granted

theorem MayReturn.world (hm : MayReturn h i granted) (hh : w.handlers[client]? = some h) :
    ∃ after t, run World.step w after = some t ∧ Returned t client i granted := by
  obtain ⟨as, h', c, hall, hr, hc, hpc⟩ := hm
  induction as generalizing h w with
  | nil =>
    cases hr
    exact ⟨[], w, rfl, _, c, hh, hc, hpc⟩
  | cons a as ih =>
    obtain ⟨g, hg, hr'⟩ := run_cons_inv hr
    have hs : w.step (.permission client a) =
        some { w with handlers := w.handlers.set client g } := by
      simp only [World.step, hh, hall a List.mem_cons_self, hg, ↓reduceIte, Option.map_some]
    obtain ⟨after, t, ht, hret⟩ := ih (w := { w with handlers := w.handlers.set client g })
      (List.getElem?_set_self (List.getElem?_eq_some_iff.mp hh).1)
      (fun b hb => hall b (List.mem_cons_of_mem a hb)) hr'
    exact ⟨.permission client a :: after, t, by simpa only [run, hs] using ht, hret⟩

def ReturnsTrue (v : World) (client : ClientId) (i : ℕ) : Prop :=
  (∃ after t, run World.step v after = some t ∧ Returned t client i true) ∧
    ∀ after t granted, run World.step v after = some t → Returned t client i granted →
      granted = true

theorem not_returnsTrue_of_false {as : List Action} {t : World} (hr : run World.step v as = some t)
    (hret : Returned t client i false) : ¬ ReturnsTrue v client i := by
  intro htrue
  cases htrue.2 as t false hr hret

theorem run_sound {as : List Action} {t : World} (hI : Sound w) (hr : run World.step w as = some t) :
    Sound t :=
  preserved (fun _ _ _ hI hs => step_sound hI hs) hI hr

theorem Arrived.returnsTrue (hI : Sound v) (ha : Arrived client i j id v) :
    ReturnsTrue v client i := by
  constructor
  · obtain ⟨⟨h, hh, hg⟩, -⟩ := ha
    exact hg.mayReturn.world hh
  · intro after t granted hr hret
    have ht : Sound t ∧ Arrived client i j id t :=
      preserved (I := fun w => Sound w ∧ Arrived client i j id w)
        (fun _ _ _ hw hs => ⟨step_sound hw.1 hs, hw.2.step hw.1 hs⟩) ⟨hI, ha⟩ hr
    obtain ⟨-, ⟨h, hh, c, hc, hpc, -⟩, -⟩ := ht
    obtain ⟨h', c', hh', hc', hpc'⟩ := hret
    rw [hh] at hh'
    cases hh'
    rw [hc] at hc'
    cases hc'
    rw [hpc'] at hpc
    rcases hpc with hpc | hpc
    · cases hpc
    · exact Option.some.inj hpc

theorem Lost.not_returnsTrue (hI : Sound v) (hl : Lost client i j id v) :
    ¬ ReturnsTrue v client i := by
  intro htrue
  obtain ⟨⟨h, hh, ho⟩, -⟩ := hl
  obtain ⟨after, t, hr, hret⟩ := (ho.mayReturn (hI client h hh)).world hh
  exact not_returnsTrue_of_false hr hret htrue

theorem Coming.returnsTrue_iff {mid : List Action} (hc : Coming client i j id w) (hI : Sound w)
    (hund : Along World.step (Undisturbed client i j id) w mid)
    (hr : run World.step w mid = some v)
    (hdone : ∃ r, v.responders[j]? = some r ∧ r.pc = .returned) :
    ReturnsTrue v client i ↔ Along World.step (Reaches client i j id) w mid := by
  have hv : Sound v := run_sound hI hr
  constructor
  · intro htrue
    have hboth := along_of_end (L := fun w => Sound w ∧ Lost client i j id w)
      (C := fun w a => Undisturbed client i j id w a ∧ Reaches client i j id w a)
      (fun _ _ _ hw hC hs => OnTrack.step hw hC hs)
      (fun _ _ _ hw hu hno hs => hw.strays hu (fun hreach => hno ⟨hu, hreach⟩) hs)
      (fun _ _ _ hl hu hs => ⟨step_sound hl.1 hs, hl.2.step hl.1 hu hs⟩)
      ⟨hI, .inl hc⟩ hund hr (fun hl => hl.2.not_returnsTrue hv htrue)
    exact hboth.mono fun _ _ => And.right
  · intro hreach
    obtain ⟨-, hon⟩ := invariant (I := OnTrack client i j id)
      (fun _ _ _ hw hC hs => hw.step hC hs) ⟨hI, .inl hc⟩ (hund.and hreach) hr
    obtain ⟨r, hr, hpc⟩ := hdone
    rcases hon with ⟨-, pc, hr', hpc'⟩ | harrived
    · rw [hr'] at hr
      cases hr
      rcases hpc' with rfl | rfl <;> cases hpc
    · exact harrived.returnsTrue hv

end Ends

/-- A responder that has seen the question of the call `i` of a client in the
log says yes while the call waits, and is done before anything else answers the
call, cancels it or times it out. A teardown of the session need not be excluded. -/
structure Answering (now : ℕ) (before mid : List Action) (u v : World) (client : ClientId)
    (i : ℕ) (c : UserRequest) : Prop where
  reached : run World.step (.new now) before = some u
  asked : ∃ h, u.handlers[client]? = some h ∧ h.calls[i]? = some c ∧ c.request ∈ h.events ∧
    c.pc.verdict = none ∧ h.pending.answers[i]? = some none
  answered : run World.step u (.respond c.id true :: mid) = some v
  undisturbed : Along World.step (Undisturbed client i u.responders.length c.id) u
    (.respond c.id true :: mid)
  done : ∃ r, v.responders[u.responders.length]? = some r ∧ r.pc = .returned

section Claim
variable {now : ℕ} {before mid : List Action} {u v : World} {client : ClientId} {i : ℕ}
  {c : UserRequest}

theorem Answering.isOpen (h : Answering now before mid u v client i c) :
    ∃ g, u.handlers[client]? = some g ∧ Open g i c.id := by
  obtain ⟨g, hg, hc, hseen, hv, hans⟩ := h.asked
  have hlog := ((run_sound (sound_new now) h.reached client g hg).call i c hc).logged
  refine ⟨g, hg, c, hc, rfl, ?_, hans⟩
  cases hpc : c.pc <;> rw [hpc] at hv <;> try cases hv
  case publish =>
    have hmem : c.request ∈ g.events.filter (about c.id) :=
      List.mem_filter.mpr ⟨hseen, by simp [UserRequest.request, about]⟩
    rw [hlog, UserRequest.logged, hpc] at hmem
    exact absurd hmem List.not_mem_nil
  case register => exact .inl rfl
  case await => exact .inr rfl

/-- The yes is what the call returns exactly when it reaches the table entry of
the call: the session has stored the client that asks, and the call is in the
table. -/
theorem answer_heard_iff (h : Answering now before mid u v client i c) :
    ReturnsTrue v client i ↔
      Along World.step (Reaches client i u.responders.length c.id) u
        (.respond c.id true :: mid) := by
  obtain ⟨u', hu', hmid⟩ := run_cons_inv h.answered
  have hund := ((along_cons hu').mp h.undisturbed).2
  have hsound := step_sound (run_sound (sound_new now) h.reached) hu'
  rw [along_cons hu']
  cases hu'
  have hcoming : Coming client i u.responders.length c.id
      { u with responders := u.responders ++ [⟨c.id, true, .readClient⟩] } :=
    ⟨h.isOpen, .readClient, List.getElem?_concat_length, .inl rfl⟩
  exact (hcoming.returnsTrue_iff hsound hund hmid h.done).trans (and_iff_right trivial).symm

end Claim

def spawning : List Action :=
  .session .ask :: ([.go, .go, .now 1, .go, .go, .go, .go, .go, .spawned (some 7), .go].map
    fun o => .session (.askStep 0 o))

def storing : List Action :=
  [.initialized, .opened "s", .go, .go].map fun o => .session (.askStep 0 o)

def question (pc : PermissionPc) : UserRequest :=
  ⟨"p", "fs/write_text_file", "Write to /proj/a", pc⟩

def asking : Action := .permission 0 (.request "p" "fs/write_text_file" "Write to /proj/a")

def goesOn : Action := .permission 0 (.advance 0)

/-- The agent asks for a write while it is initialized. -/
def askedEarly : List Action := spawning ++ [asking, goesOn, goesOn]

/-- The question is in the log and not yet in the table. -/
def askedJustNow : List Action := spawning ++ storing ++ [asking, goesOn]

def askedAndEntered : List Action := spawning ++ storing ++ [asking, goesOn, goesOn]

def after (w : World) (as : List Action) : World := (run World.step w as).getD w

theorem answer_heard_entered :
    ∃ u v, Answering 0 askedAndEntered [.respondStep 0, .respondStep 0] u v 0 0 (question .await) ∧
      ReturnsTrue v 0 0 := by
  have h : Answering 0 askedAndEntered [.respondStep 0, .respondStep 0]
      (after (.new 0) askedAndEntered)
      (after (after (.new 0) askedAndEntered)
        [.respond "p" true, .respondStep 0, .respondStep 0]) 0 0 (question .await) :=
    ⟨by decide, ⟨_, rfl, by decide, by decide, by decide, by decide⟩, by decide, by decide,
      ⟨_, rfl, by decide⟩⟩
  exact ⟨_, _, h, (answer_heard_iff h).mpr (by decide)⟩

def timesOut (pc : PermissionPc) : List Action :=
  (if pc = .register then [goesOn] else []) ++ [.permission 0 (.timeout 0), goesOn, goesOn]

/-- A yes to a question asked while the session starts finds no client, and one
that comes before the question is in the table finds no entry. Both calls time
out and return `false`. -/
theorem answer_unheard :
    (∃ u v t, Answering 0 askedEarly [.respondStep 0] u v 0 0 (question .await) ∧
      run World.step v (timesOut .await) = some t ∧ Returned t 0 0 false ∧ ¬ ReturnsTrue v 0 0) ∧
    ∃ u v t, Answering 0 askedJustNow [.respondStep 0, .respondStep 0] u v 0 0
        (question .register) ∧
      run World.step v (timesOut .register) = some t ∧ Returned t 0 0 false ∧
      ¬ ReturnsTrue v 0 0 := by
  constructor
  · have h : Answering 0 askedEarly [.respondStep 0] (after (.new 0) askedEarly)
        (after (after (.new 0) askedEarly) [.respond "p" true, .respondStep 0]) 0 0
        (question .await) :=
      ⟨by decide, ⟨_, rfl, by decide, by decide, by decide, by decide⟩, by decide, by decide,
        ⟨_, rfl, by decide⟩⟩
    have hret : Returned (after (after (after (.new 0) askedEarly)
        [.respond "p" true, .respondStep 0]) (timesOut .await)) 0 0 false :=
      ⟨_, question (.returned false), rfl, by decide, rfl⟩
    have hrun : run World.step (after (after (.new 0) askedEarly)
        [.respond "p" true, .respondStep 0]) (timesOut .await) = some _ := rfl
    exact ⟨_, _, _, h, hrun, hret, not_returnsTrue_of_false hrun hret⟩
  · have h : Answering 0 askedJustNow [.respondStep 0, .respondStep 0]
        (after (.new 0) askedJustNow)
        (after (after (.new 0) askedJustNow)
          [.respond "p" true, .respondStep 0, .respondStep 0]) 0 0 (question .register) :=
      ⟨by decide, ⟨_, rfl, by decide, by decide, by decide, by decide⟩, by decide, by decide,
        ⟨_, rfl, by decide⟩⟩
    have hret : Returned (after (after (after (.new 0) askedJustNow)
        [.respond "p" true, .respondStep 0, .respondStep 0]) (timesOut .register)) 0 0 false :=
      ⟨_, question (.returned false), rfl, by decide, rfl⟩
    have hrun : run World.step (after (after (.new 0) askedJustNow)
        [.respond "p" true, .respondStep 0, .respondStep 0]) (timesOut .register) = some _ := rfl
    exact ⟨_, _, _, h, hrun, hret, not_returnsTrue_of_false hrun hret⟩

end Ccgonext.Responders
