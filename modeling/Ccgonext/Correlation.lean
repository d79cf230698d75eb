import Ccgonext.Client

/-!
# Which call a response answers

Any number of calls of `send_request` share `pending` with the reader, which
takes the entry of an answered id out, prunes the entries of calls that were
dropped and fails the rest when it stops. Every entry stands under the id that
its call has drawn, so a response line reaches the call of its id while its
entry is there, and no other.
-/

namespace Ccgonext.Correlation
open Lib Lib.Runs Lib.Pool Client

variable {Value : Type}

def idOf (s : Sys Value) (i : ℕ) : Option ℤ := s.calls[i]?.bind RequestCall.id

structure At (s : Sys Value) (i : ℕ) (c : RequestCall Value) : Prop where
  drawn : ∀ id, c.id = some id → id < s.client.nextId
  undrawn : c.pc.drawing = true → c.id = none
  numbered : c.pc.numbered = true → ∃ id, c.id = some id
  entered : ∀ id, (id, i) ∈ s.client.pending.entries → c.pc.entered = true
  early : c.pc.early = true → s.client.pending.answers[i]? = some none
  waiting : ∀ id, c.id = some id → c.pc.waiting = true →
    (id, i) ∈ s.client.pending.entries ∨ ∃ r, s.client.pending.Answered i r
  outcome : ∀ r, c.pc = .returned r → r.fromAgent = true → s.client.pending.Answered i r

structure Inv (s : Sys Value) : Prop where
  table : s.client.pending.Inv (idOf s)
  channels : s.client.pending.answers.length = s.calls.length
  distinct : ∀ (i j : ℕ) (c d : RequestCall Value) (id : ℤ), s.calls[i]? = some c →
    s.calls[j]? = some d → c.id = some id → d.id = some id → i = j
  call : ∀ (i : ℕ) (c : RequestCall Value), s.calls[i]? = some c → At s i c

theorem inv_new (agent : String) : Inv (Sys.new agent : Sys Value) where
  table := .new
  channels := rfl
  distinct := by
    intro i j c d id hc
    cases hc
  call := by
    intro i c hc
    cases hc

section Steps
variable {null : Value} {s s' : Sys Value} {i j : ℕ} {c c' d : RequestCall Value}
  {client : AcpClient Value} {line : Except String String}

theorem idOf_call (hd : s.calls[j]? = some d) : idOf s j = d.id := by
  simp only [idOf, hd, Option.bind_some]

theorem At.frame {s' : Sys Value} (h : At s j d)
    (hnext : s.client.nextId ≤ s'.client.nextId)
    (hleft : ∀ id, (id, j) ∈ s'.client.pending.entries → (id, j) ∈ s.client.pending.entries)
    (hkept : ∀ id, d.id = some id → d.pc.waiting = true → (id, j) ∈ s.client.pending.entries →
      (id, j) ∈ s'.client.pending.entries ∨ ∃ r, s'.client.pending.Answered j r)
    (hearly : s.client.pending.answers[j]? = some none → d.pc.early = true →
      s'.client.pending.answers[j]? = some none)
    (hans : ∀ r, s.client.pending.Answered j r → s'.client.pending.Answered j r) : At s' j d where
  drawn id hid := Int.lt_of_lt_of_le (h.drawn id hid) hnext
  undrawn := h.undrawn
  numbered := h.numbered
  entered id hm := h.entered id (hleft id hm)
  early he := hearly (h.early he) he
  waiting id hid hw := by
    rcases h.waiting id hid hw with hm | ⟨r, hr⟩
    · exact hkept id hid hw hm
    · exact .inr ⟨r, hans r hr⟩
  outcome r hr hagent := hans r (h.outcome r hr hagent)

theorem At.returned {id : Option ℤ} {r : ResponseResult Value}
    (hdrawn : ∀ k, id = some k → k < s.client.nextId)
    (hno : ∀ k, (k, i) ∉ s.client.pending.entries)
    (hown : r.fromAgent = true → s.client.pending.Answered i r) : At s i ⟨id, .returned r⟩ where
  drawn := hdrawn
  undrawn h := by cases h
  numbered h := by cases h
  entered k hm := absurd hm (hno k)
  early h := by cases h
  waiting _ _ h := by cases h
  outcome r' hr hagent := by
    cases hr
    exact hown hagent

theorem Inv.entry_call (h : Inv s) {id : ℤ} (hm : (id, j) ∈ s.client.pending.entries) :
    ∃ d, s.calls[j]? = some d ∧ d.id = some id := by
  have hk := h.table.keyed id j hm
  rwa [idOf, Option.bind_eq_some_iff] at hk

theorem Inv.early_unlisted (h : Inv s) (hd : s.calls[j]? = some d) (he : d.pc.early = true)
    (id : ℤ) : (id, j) ∉ s.client.pending.entries := by
  intro hm
  have hin := (h.call j d hd).entered id hm
  cases hpc : d.pc <;> rw [hpc] at he hin <;> cases he <;> cases hin

theorem Inv.lookup (h : Inv s) {id : ℤ} (hm : (id, j) ∈ s.client.pending.entries) :
    s.client.pending.entries.lookup id = some j := by
  obtain ⟨d, hd, hid⟩ := h.entry_call hm
  refine Pending.lookup_of_mem (fun l hl => ?_) hm
  obtain ⟨e, he, hide⟩ := h.entry_call hl
  exact h.distinct l j e d id he hd hide hid

theorem Inv.entry_id (h : Inv s) (hc : s.calls[i]? = some c) {id k : ℤ} (hid : c.id = some k)
    (hm : (id, i) ∈ s.client.pending.entries) : id = k := by
  obtain ⟨d, hd, hdid⟩ := h.entry_call hm
  rw [hc] at hd
  cases hd
  rw [hid] at hdid
  exact (Option.some.inj hdid).symm

theorem Inv.foreign (h : Inv s) (hc : s.calls[i]? = some c) {id k : ℤ} (hid : c.id = some k)
    (hm : (id, j) ∈ s.client.pending.entries) (hji : j ≠ i) : id ≠ k := by
  intro hk
  subst hk
  obtain ⟨d, hd, hdid⟩ := h.entry_call hm
  exact hji (h.distinct j i d c id hd hc hdid hid)

section Own
variable (h : Inv s) (hc : s.calls[i]? = some c) (hs : CallMove i s.client c client c')

include h hc hs

theorem move_others (hji : j ≠ i) :
    (∀ id, (id, j) ∈ client.pending.entries ↔ (id, j) ∈ s.client.pending.entries) ∧
      client.pending.answers[j]? = s.client.pending.answers[j]? := by
  cases hs with
  | on hpending =>
    rw [hpending]
    exact ⟨fun _ => Iff.rfl, rfl⟩
  | drew | received | orphaned => exact ⟨fun _ => Iff.rfl, rfl⟩
  | @inserted id line _ hid =>
    refine ⟨fun k => ⟨fun hm => ?_, fun hm => ?_⟩, rfl⟩
    · rcases Pending.mem_insert.mp hm with ⟨hm, -⟩ | ⟨-, hj⟩
      · exact hm
      · exact absurd hj hji
    · exact Pending.mem_insert.mpr (.inl ⟨hm, h.foreign hc hid hm hji⟩)
  | @failed id _ hid =>
    refine ⟨fun k => ⟨fun hm => (Pending.mem_resolve.mp hm).1, fun hm => ?_⟩, ?_⟩
    · exact Pending.mem_resolve.mpr ⟨hm, h.foreign hc hid hm hji⟩
    · exact Pending.resolve_other fun hl =>
        h.foreign hc hid (Pending.mem_of_lookup hl) hji rfl
  | @removed id _ hid =>
    refine ⟨fun k => ⟨fun hm => (Pending.mem_remove.mp hm).1, fun hm => ?_⟩, rfl⟩
    exact Pending.mem_remove.mpr ⟨hm, h.foreign hc hid hm hji⟩

theorem move_table : client.pending.Inv (idOf s) ∧
    client.pending.answers.length = s.client.pending.answers.length ∧
    s.client.nextId ≤ client.nextId := by
  have hat := h.call i c hc
  cases hs with
  | on hpending hnext =>
    rw [hpending, hnext]
    exact ⟨h.table, rfl, Int.le_refl _⟩
  | drew => exact ⟨h.table, rfl, Int.le_add_one (Int.le_refl _)⟩
  | received | orphaned => exact ⟨h.table, rfl, Int.le_refl _⟩
  | @inserted id line hpc hid =>
    refine ⟨h.table.insert ?_ (hat.early (by rw [hpc]; rfl)), rfl, Int.le_refl _⟩
    rw [idOf_call hc, hid]
  | failed => exact ⟨h.table.resolve, Pending.resolve_length, Int.le_refl _⟩
  | removed => exact ⟨h.table.remove, rfl, Int.le_refl _⟩

theorem move_at : At { s with client := client, calls := s.calls.set i c' } i c' := by
  have hat := h.call i c hc
  cases hs with
  | @on _ pc hpending hnext hearly hdrawing hnumbered hwaiting hentered hown =>
    refine ⟨fun id hid => ?_, fun hd => hat.undrawn (hdrawing hd),
      fun hn => hat.numbered (hnumbered hn), fun id hm => ?_, fun he => ?_, fun id hid hw => ?_,
      fun r hr hagent => ?_⟩
    · simp only [hnext]
      exact hat.drawn id hid
    · rw [hpending] at hm
      exact hentered.trans (hat.entered id hm)
    · rw [hpending]
      exact hat.early (hearly he)
    · rw [hpending]
      exact hat.waiting id hid (hwaiting ▸ hw)
    · rw [hown r hr] at hagent
      cases hagent
  | drew hpc =>
    have hearly : c.pc.early = true := by rw [hpc]; rfl
    constructor
    case drawn =>
      intro id hid
      cases hid
      exact Int.lt_add_one_of_le (Int.le_refl _)
    case entered => exact fun id hm => absurd hm (h.early_unlisted hc hearly id)
    case numbered => exact fun _ => ⟨_, rfl⟩
    case early => exact fun _ => hat.early hearly
    all_goals
      intros
      contradiction
  | @inserted id line hpc hid =>
    constructor
    case drawn => exact hat.drawn
    case entered => exact fun _ _ => rfl
    case numbered => exact fun _ => ⟨id, hid⟩
    case waiting =>
      intro k hk _
      rw [hid] at hk
      cases hk
      exact .inl (Pending.mem_insert.mpr (.inr ⟨rfl, rfl⟩))
    all_goals
      intros
      contradiction
  | @failed id _ hid =>
    refine .returned hat.drawn (fun k hm => ?_) fun hagent => by cases hagent
    obtain ⟨hm, hne⟩ := Pending.mem_resolve.mp hm
    exact absurd (h.entry_id hc hid hm) hne
  | @removed id _ hid =>
    refine .returned hat.drawn (fun k hm => ?_) fun hagent => by cases hagent
    obtain ⟨hm, hne⟩ := Pending.mem_remove.mp hm
    exact absurd (h.entry_id hc hid hm) hne
  | @received r hpc hr =>
    refine .returned hat.drawn (fun k hm => ?_) fun _ => hr
    rw [Pending.Answered, h.table.unanswered k i hm] at hr
    cases hr
  | orphaned hpc hno => exact .returned hat.drawn hno fun hagent => by cases hagent

end Own

theorem Inv.congr (h : Inv s) (hcalls : s'.calls = s.calls)
    (hpending : s'.client.pending = s.client.pending)
    (hnext : s'.client.nextId = s.client.nextId) : Inv s' := by
  obtain ⟨htable, hchannels, hdistinct, hcall⟩ := h
  have hids : idOf s' = idOf s := by
    funext i
    rw [idOf, idOf, hcalls]
  refine ⟨by rwa [hpending, hids], by rwa [hpending, hcalls], by rwa [hcalls], ?_⟩
  intro i c hc
  rw [hcalls] at hc
  have hat := hcall i c hc
  refine hat.frame (Int.le_of_eq hnext.symm) ?_ ?_ ?_ ?_ <;> rw [hpending]
  · exact fun _ => id
  · exact fun _ _ _ => .inl
  · exact fun he _ => he
  · exact fun _ => id

theorem Inv.set (h : Inv s) (hc : s.calls[i]? = some c)
    (htable : client.pending.Inv (idOf s))
    (hlength : client.pending.answers.length = s.client.pending.answers.length)
    (hid : c'.id = c.id ∨ c'.id = some s.client.nextId ∧ c.pc.early = true)
    (hleft : ∀ id, (id, i) ∈ client.pending.entries → (id, i) ∈ s.client.pending.entries ∨ c'.id = c.id)
    (hothers : ∀ (j : ℕ) (d : RequestCall Value), j ≠ i → s.calls[j]? = some d →
      At { s with client := client, calls := s.calls.set i c' } j d)
    (hown : At { s with client := client, calls := s.calls.set i c' } i c') :
    Inv { s with client := client, calls := s.calls.set i c' } := by
  have hlt : i < s.calls.length := (List.getElem?_eq_some_iff.mp hc).1
  refine ⟨htable.congr fun k j hm => ?_, ?_, ?_, indexed_set hothers hown⟩
  · by_cases hji : j = i
    · subst hji
      have hsame : c'.id = c.id := by
        rcases hid with hid | ⟨-, he⟩
        · exact hid
        · rcases hleft k hm with hm | hid
          · exact absurd hm (h.early_unlisted hc he k)
          · exact hid
      simp only [idOf, List.getElem?_set_self hlt, hc, Option.bind_some, hsame]
    · simp only [idOf, List.getElem?_set_ne (Ne.symm hji)]
  · simp only [List.length_set]
    exact hlength.trans h.channels
  · have hnew : ∀ (j : ℕ) (d : RequestCall Value) (id : ℤ), j ≠ i → s.calls[j]? = some d →
        d.id = some id → c'.id ≠ some id := by
      intro j d id hji hd hdid hcid
      rcases hid with hid | ⟨hid, -⟩
      · exact hji (h.distinct j i d c id hd hc hdid (hid ▸ hcid))
      · rw [hid] at hcid
        cases hcid
        exact Int.lt_irrefl _ ((h.call j d hd).drawn _ hdid)
    intro j l d e id hd he hdid heid
    by_cases hji : j = i
    · by_cases hli : l = i
      · rw [hji, hli]
      · subst hji
        simp only [List.getElem?_set_self hlt, Option.some.injEq] at hd
        rw [List.getElem?_set_ne (Ne.symm hli)] at he
        exact absurd (hd ▸ hdid) (hnew l e id hli he heid)
    · simp only [List.getElem?_set_ne (Ne.symm hji)] at hd
      by_cases hli : l = i
      · subst hli
        simp only [List.getElem?_set_self hlt, Option.some.injEq] at he
        exact absurd (he ▸ heid) (hnew j d id hji hd hdid)
      · rw [List.getElem?_set_ne (Ne.symm hli)] at he
        exact h.distinct j l d e id hd he hdid heid

theorem move_inv (h : Inv s) (hc : s.calls[i]? = some c)
    (hs : CallMove i s.client c client c') :
    Inv { s with client := client, calls := s.calls.set i c' } := by
  obtain ⟨htable, hlength, hnext⟩ := move_table h hc hs
  refine h.set hc htable hlength ?_ ?_ (fun j d hji hd => ?_) (move_at h hc hs)
  · cases hs with
    | drew hpc => exact .inr ⟨rfl, by rw [hpc]; rfl⟩
    | on | inserted | failed | removed | received | orphaned => exact .inl rfl
  · intro id hm
    cases hs with
    | drew => exact .inl hm
    | on | inserted | failed | removed | received | orphaned => exact .inr rfl
  · obtain ⟨hentries, hans⟩ := move_others h hc hs hji
    refine (h.call j d hd).frame hnext (fun id => (hentries id).mp)
      (fun id _ _ hm => .inl ((hentries id).mpr hm)) (fun he _ => hans.trans he) fun r hr => ?_
    exact hans.trans hr

theorem call_inv (h : Inv s) : Inv { s with
    client := { s.client with pending := s.client.pending.openChannel }
    calls := s.calls ++ [⟨none, .check⟩] } := by
  have hlength := h.channels
  have hold : ∀ (j : ℕ) (d : RequestCall Value), (s.calls ++ [⟨none, .check⟩])[j]? = some d →
      s.calls[j]? = some d ∨ d.id = none :=
    indexed_spawn (fun _ _ hd => .inl hd) (.inr rfl)
  refine ⟨h.table.openChannel.congr fun k j hm => ?_, ?_, ?_, indexed_spawn ?_ ?_⟩
  · have hlt : j < s.calls.length := hlength ▸ h.table.lt hm
    simp only [idOf, List.getElem?_append_left hlt]
  · simp only [Pending.openChannel, List.length_append, hlength, List.length_singleton]
  · intro j l d e id hd he hdid heid
    rcases hold j d hd with hd | hnone
    · rcases hold l e he with he | hnone
      · exact h.distinct j l d e id hd he hdid heid
      · rw [hnone] at heid
        cases heid
    · rw [hnone] at hdid
      cases hdid
  · intro j d hd
    have hlt : j < s.client.pending.answers.length :=
      hlength ▸ (List.getElem?_eq_some_iff.mp hd).1
    refine (h.call j d hd).frame (Int.le_refl _) (fun _ => id) (fun _ _ _ => .inl)
      (fun ha _ => ?_) fun _ => Pending.openChannel_answered.mpr
    simp only [Pending.openChannel, List.getElem?_append_left hlt]
    exact ha
  · constructor
    case entered =>
      intro id hm
      have hlt := h.table.lt hm
      rw [hlength] at hlt
      exact absurd hlt (Nat.lt_irrefl _)
    case early =>
      intro _
      simp only [Pending.openChannel, ← hlength, List.getElem?_concat_length]
    case undrawn => exact fun _ => rfl
    all_goals
      intros
      contradiction

theorem listening_of_waiting (h : s.calls[j]? = some d) (hw : d.pc.waiting = true) :
    s.listening j = true := by
  simp only [Sys.listening, h]
  cases hpc : d.pc <;> rw [hpc] at hw <;> first | rfl | cases hw

theorem line_inv (h : Inv s) (l : Line Value) : Inv { s with client := s.handle null l } := by
  cases hl : l.response null with
  | none => simpa only [Sys.handle, hl] using h
  | some answer =>
    obtain ⟨id, result⟩ := answer
    simp only [Sys.handle, hl]
    have htable := h.table.retain s.listening
    refine ⟨htable.resolve, Pending.resolve_length.trans h.channels, h.distinct, fun j d hd => ?_⟩
    refine (h.call j d hd).frame (Int.le_refl _) (fun k hm => ?_) (fun k hk hw hm => ?_)
      (fun ha he => ?_) fun _ => htable.resolve_keeps
    · exact (Pending.mem_retain.mp (Pending.mem_resolve.mp hm).1).1
    · have hin : (k, j) ∈ (s.client.pending.retain s.listening).entries :=
        Pending.mem_retain.mpr ⟨hm, listening_of_waiting hd hw⟩
      by_cases hkid : k = id
      · subst hkid
        refine .inr ⟨result, Pending.resolve_answer ?_ (htable.lt hin)⟩
        refine Pending.lookup_of_mem (fun l hl => ?_) hin
        have hlook := h.lookup (Pending.mem_retain.mp hl).1
        rw [h.lookup hm] at hlook
        exact (Option.some.inj hlook).symm
      · exact .inl (Pending.mem_resolve.mpr ⟨hin, hkid⟩)
    · rw [Pending.resolve_other]
      · exact ha
      · exact fun hl => h.early_unlisted hd he id
          (Pending.mem_retain.mp (Pending.mem_of_lookup hl)).1

theorem drain_inv (h : Inv s) {r : ResponseResult Value} (hcalls : s'.calls = s.calls)
    (hnext : s'.client.nextId = s.client.nextId)
    (hpending : s'.client.pending = s.client.pending.drain r) : Inv s' := by
  refine ⟨hpending ▸ .drain, ?_, hcalls ▸ h.distinct, fun j d hd => ?_⟩
  · rw [hpending, hcalls, Pending.drain_length, h.channels]
  · rw [hcalls] at hd
    refine (h.call j d hd).frame (Int.le_of_eq hnext.symm) ?_ ?_ ?_ ?_ <;> rw [hpending]
    · exact fun _ hm => absurd hm List.not_mem_nil
    · exact fun _ _ _ hm => .inr ⟨r, Pending.drain_answer hm (h.table.lt hm)⟩
    · intro ha he
      rw [Pending.drain_other (h.early_unlisted hd he)]
      exact ha
    · exact fun _ => h.table.drain_keeps

theorem step_inv {a : Action Value} (h : Inv s) (hs : s.step null a = some s') : Inv s' := by
  cases step_effect hs with
  | quiet _ hcalls hpending hnext => exact h.congr hcalls hpending hnext
  | call => exact call_inv h
  | own hc hstep => exact move_inv h hc (callStep_move hstep)
  | @dropped i c hc hat =>
    have hcat := h.call i c hc
    refine h.set hc h.table rfl (.inl rfl) (fun _ hm => .inl hm)
      (fun j d _ hd => ?_) ?_
    · exact (h.call j d hd).frame (Int.le_refl _) (fun _ => id) (fun _ _ _ => .inl)
        (fun he _ => he) fun _ => id
    · exact ⟨hcat.drawn, nofun, nofun, fun id hm => hcat.entered id hm, nofun, nofun, nofun⟩
  | line l => exact line_inv h l
  | drained _ hcalls hnext hpending => exact drain_inv h hcalls hnext hpending

theorem step_answered (h : Inv s) {a : Action Value} (hs : s.step null a = some s')
    {r : ResponseResult Value} (hagent : r.fromAgent = true)
    (hno : ¬ s.client.pending.Answered i r) (hyes : s'.client.pending.Answered i r) :
    ∃ l id, a = .line l ∧ l.response null = some (id, r) ∧ (id, i) ∈ s.client.pending.entries := by
  cases step_effect hs with
  | quiet _ _ hpending =>
    rw [hpending] at hyes
    exact absurd hyes hno
  | call => exact absurd (Pending.openChannel_answered.mp hyes) hno
  | dropped => exact absurd hyes hno
  | @own j _ c _ _ hc hstep =>
    cases callStep_move hstep with
    | on hpending =>
      rw [hpending] at hyes
      exact absurd hyes hno
    | drew | inserted | removed | received | orphaned => exact absurd hyes hno
    | @failed id _ hid =>
      by_cases hl : s.client.pending.entries.lookup id = some i
      · have hsent := Pending.resolve_answer (v := .err .connectionClosed) hl
          (h.table.lt (Pending.mem_of_lookup hl))
        cases Option.some.inj (Option.some.inj (hsent.symm.trans hyes))
        cases hagent
      · rw [Pending.Answered, Pending.resolve_other hl] at hyes
        exact absurd hyes hno
  | line l =>
    cases hl : l.response null with
    | none =>
      simp only [Sys.handle, hl] at hyes
      exact absurd hyes hno
    | some answer =>
      obtain ⟨id, result⟩ := answer
      simp only [Sys.handle, hl] at hyes
      by_cases hlook : (s.client.pending.retain s.listening).entries.lookup id = some i
      · have hm := Pending.mem_of_lookup hlook
        have hsent := Pending.resolve_answer (v := result) hlook
          ((h.table.retain s.listening).lt hm)
        have hr : result = r := Option.some.inj (Option.some.inj (hsent.symm.trans hyes))
        subst hr
        exact ⟨l, id, rfl, hl, (Pending.mem_retain.mp hm).1⟩
      · rw [Pending.Answered, Pending.resolve_other hlook] at hyes
        exact absurd hyes hno
  | @drained _ _ error _ _ hpending herror =>
    rw [hpending] at hyes
    by_cases hm : ∃ k, (k, i) ∈ s.client.pending.entries
    · obtain ⟨k, hm⟩ := hm
      have hsent := Pending.drain_answer (v := .err error) hm (h.table.lt hm)
      have hr := Option.some.inj (Option.some.inj (hsent.symm.trans hyes))
      rw [← hr, herror] at hagent
      cases hagent
    · rw [Pending.Answered, Pending.drain_other fun k hk => hm ⟨k, hk⟩] at hyes
      exact absurd hyes hno

theorem step_idOf (h : Inv s) {a : Action Value} (hs : s.step null a = some s') {id : ℤ}
    (hid : idOf s i = some id) : idOf s' i = some id := by
  obtain ⟨c, hc, hcid⟩ := Option.bind_eq_some_iff.mp hid
  obtain ⟨c', hc', hchange⟩ := step_call hs hc
  rw [idOf_call hc']
  cases hchange with
  | kept | dropped => exact hcid
  | own hstep =>
    cases callStep_move hstep with
    | drew hpc =>
      rw [(h.call i c hc).undrawn (by rw [hpc]; rfl)] at hcid
      cases hcid
    | on | inserted | failed | removed | received | orphaned => exact hcid

theorem step_finished {a : Action Value} (hs : s.step null a = some s')
    (hc : s.calls[i]? = some c) (hfin : c.pc.finished = true) : s'.calls[i]? = some c := by
  obtain ⟨c', hc', hchange⟩ := step_call hs hc
  cases hchange with
  | kept => exact hc'
  | own hstep =>
    rw [callStep_unfinished hstep] at hfin
    cases hfin
  | dropped hat => cases hpc : c.pc <;> rw [hpc] at hat hfin <;> cases hat <;> cases hfin

theorem step_entries {a : Action Value} (hs : s.step null a = some s') {id : ℤ}
    (hm : (id, i) ∈ s'.client.pending.entries) :
    (id, i) ∈ s.client.pending.entries ∨ ∃ c line, s.calls[i]? = some c ∧ c.pc = .insert line ∧
      s'.calls[i]? = some { c with pc := .recheck line } := by
  cases step_effect hs with
  | quiet _ _ hpending =>
    rw [hpending] at hm
    exact .inl hm
  | call | dropped => exact .inl hm
  | @own j _ c _ _ hc hstep =>
    cases callStep_move hstep with
    | on hpending =>
      rw [hpending] at hm
      exact .inl hm
    | drew | received | orphaned => exact .inl hm
    | @inserted k line hpc =>
      rcases Pending.mem_insert.mp hm with ⟨hm, -⟩ | ⟨-, rfl⟩
      · exact .inl hm
      · exact .inr ⟨c, line, hc, hpc, List.getElem?_set_self (List.getElem?_eq_some_iff.mp hc).1⟩
    | failed => exact .inl (Pending.mem_resolve.mp hm).1
    | removed => exact .inl (Pending.mem_remove.mp hm).1
  | line l =>
    cases hl : l.response null with
    | none =>
      simp only [Sys.handle, hl] at hm
      exact .inl hm
    | some answer =>
      simp only [Sys.handle, hl] at hm
      exact .inl (Pending.mem_retain.mp (Pending.mem_resolve.mp hm).1).1
  | drained _ _ _ hpending =>
    rw [hpending] at hm
    exact absurd hm List.not_mem_nil

def Out (i : ℕ) (id : ℤ) (s : Sys Value) : Prop :=
  (∃ c, s.calls[i]? = some c ∧ c.pc.early = false) ∧ (id, i) ∉ s.client.pending.entries

theorem Out.step {id : ℤ} (ho : Out i id s) {a : Action Value} (hs : s.step null a = some s') :
    Out i id s' := by
  obtain ⟨⟨c, hc, he⟩, hout⟩ := ho
  obtain ⟨c', hc', hchange⟩ := step_call hs hc
  refine ⟨⟨c', hc', ?_⟩, fun hm => ?_⟩
  · cases hchange with
    | kept => exact he
    | dropped => rfl
    | own hstep =>
      cases callStep_move hstep with
      | on _ _ hearly =>
        rw [← Bool.not_eq_true] at he ⊢
        exact fun h => he (hearly h)
      | drew hpc =>
        rw [hpc] at he
        cases he
      | inserted | failed | removed | received | orphaned => rfl
  · rcases step_entries hs hm with hm | ⟨d, line, hd, hpc, -⟩
    · exact hout hm
    · rw [hc] at hd
      cases hd
      rw [hpc] at he
      cases he

theorem Out.of_line (h : Inv s) {l : Line Value} {id : ℤ} {r : ResponseResult Value}
    (hs : s.step null (.line l) = some s') (hl : l.response null = some (id, r))
    (hm : (id, i) ∈ s.client.pending.entries) : Out i id s' := by
  obtain ⟨c, hc, -⟩ := h.entry_call hm
  have he : c.pc.early = false := by
    rw [← Bool.not_eq_true]
    exact fun he => h.early_unlisted hc he id hm
  obtain ⟨-, rfl⟩ := Sys.step_line hs
  refine ⟨⟨c, hc, he⟩, ?_⟩
  simp only [Sys.handle, hl]
  exact fun hm => (Pending.mem_resolve.mp hm).2 rfl

theorem line_frame (h : Inv s) {l : Line Value} (hs : s.step null (.line l) = some s')
    (hother : ∀ id r, l.response null = some (id, r) → idOf s i ≠ some id) :
    s'.calls[i]? = s.calls[i]? ∧
      s'.client.pending.answers[i]? = s.client.pending.answers[i]? ∧
      (s.listening i = true → ∀ id,
        ((id, i) ∈ s'.client.pending.entries ↔ (id, i) ∈ s.client.pending.entries)) := by
  obtain ⟨-, rfl⟩ := Sys.step_line hs
  refine ⟨rfl, ?_⟩
  cases hl : l.response null with
  | none =>
    have hsame : s.handle null l = s.client := by simp only [Sys.handle, hl]
    rw [hsame]
    exact ⟨rfl, fun _ _ => Iff.rfl⟩
  | some answer =>
    obtain ⟨k, r⟩ := answer
    have hne := hother k r hl
    simp only [Sys.handle, hl]
    refine ⟨(h.table.retain s.listening).resolve_frame hne, fun hlisten id => ?_⟩
    rw [Pending.mem_resolve, Pending.mem_retain]
    refine ⟨fun hm => hm.1.1, fun hm => ⟨⟨hm, hlisten⟩, fun hid => ?_⟩⟩
    exact hne (hid ▸ h.table.keyed id i hm)

end Steps

section Runs
variable {null : Value} {agent : String} {s t u u' : Sys Value} {as after : List (Action Value)}
  {i : ℕ} {c : RequestCall Value}

theorem run_inv (hr : run (Sys.step null) (.new agent) as = some t) : Inv t :=
  preserved (fun _ _ _ h hs => step_inv h hs) (inv_new agent) hr

theorem run_finished (hr : run (Sys.step null) s as = some t) (hc : s.calls[i]? = some c)
    (hfin : c.pc.finished = true) : t.calls[i]? = some c :=
  preserved (I := fun v => v.calls[i]? = some c)
    (fun _ _ _ h hs => step_finished hs h hfin) hc hr

theorem run_idOf (h : Inv s) (hr : run (Sys.step null) s as = some t) {id : ℤ}
    (hid : idOf s i = some id) : idOf t i = some id := by
  have hboth := preserved (I := fun v => Inv v ∧ idOf v i = some id)
    (fun _ _ _ hv hs => ⟨step_inv hv.1 hs, step_idOf hv.1 hs hv.2⟩) ⟨h, hid⟩ hr
  exact hboth.2

theorem Visit.idOf {a : Action Value} (h : Visit (Sys.step null) (.new agent) as u a u' after)
    (hr : run (Sys.step null) (.new agent) as = some t) (hc : t.calls[i]? = some c) {id : ℤ}
    (hid : Correlation.idOf u i = some id) : c.id = some id := by
  obtain ⟨before, -, hu⟩ := h.before
  have hI := run_inv hu
  have hstay := run_idOf (step_inv hI h.step) (h.rest hr) (step_idOf hI h.step hid)
  exact (idOf_call hc).symm.trans hstay

end Runs

/-- A call gets one outcome for good. A result or an RPC error is that of the
first response line with its id that finds its entry, and lines with other ids
leave the call alone. -/
theorem response_correlated (null : Value) (agent : String) (as : List (Action Value))
    (t : Sys Value) (i : ℕ) (c : RequestCall Value)
    (hr : run (Sys.step null) (.new agent) as = some t) (hc : t.calls[i]? = some c) :
    (∀ r after t', c.pc = .returned r → run (Sys.step null) t after = some t' →
      t'.calls[i]? = some c) ∧
    (∀ r, c.pc = .returned r → r.fromAgent = true → ∃ id before u l u' after,
      c.id = some id ∧ as = before ++ .line l :: after ∧
      run (Sys.step null) (.new agent) before = some u ∧ u.step null (.line l) = some u' ∧
      l.response null = some (id, r) ∧ (id, i) ∈ u.client.pending.entries ∧
      Along (Sys.step null) (fun v a => ∀ m r', a = .line m → m.response null = some (id, r') →
        (id, i) ∉ v.client.pending.entries) (.new agent) before) ∧
    ∀ u l u' after, Visit (Sys.step null) (.new agent) as u (.line l) u' after →
      (∀ id r, l.response null = some (id, r) → c.id ≠ some id) →
      u'.calls[i]? = u.calls[i]? ∧
      u'.client.pending.answers[i]? = u.client.pending.answers[i]? ∧
      (u.listening i = true → ∀ id,
        ((id, i) ∈ u'.client.pending.entries ↔ (id, i) ∈ u.client.pending.entries)) := by
  have hI := run_inv hr
  refine ⟨fun r after t' hpc hr' => ?_, fun r hpc hagent => ?_, fun u l u' after hv hother => ?_⟩
  · exact run_finished hr' hc (by rw [hpc]; rfl)
  · have hsent : t.client.pending.Answered i r := (hI.call i c hc).outcome r hpc hagent
    obtain ⟨u, a, u', after, hv, hno, hyes⟩ :=
      exists_visit (P := fun v => v.client.pending.Answered i r) nofun hr hsent
    obtain ⟨before, has, hu⟩ := hv.before
    have hIu := run_inv hu
    obtain ⟨l, id, rfl, hl, hm⟩ := step_answered hIu hv.step hagent hno hyes
    have hid : c.id = some id := Visit.idOf hv hr hc (hIu.table.keyed id i hm)
    refine ⟨id, before, u, l, u', after, hid, has, hu, hv.step, hl, hm, ?_⟩
    refine along_of_end (I := Inv) (D := fun _ _ => True) (L := Out i id)
      (fun _ _ _ h _ hs => step_inv h hs) ?_ (fun _ _ _ h _ hs => h.step hs) (inv_new agent)
      (along_true _ _) hu (fun hout => hout.2 hm)
    intro v b v' h _ hbad hs
    by_contra hout
    refine hbad fun m r' ha hm' hin => hout ?_
    subst ha
    exact Out.of_line h hs hm' hin
  · obtain ⟨before, -, hu⟩ := hv.before
    refine line_frame (run_inv hu) hv.step fun id r hl hid => hother id r hl ?_
    exact Visit.idOf hv hr hc hid

def sends (i : ℕ) : List (Action String) := List.replicate 6 (.callStep i (.ok "request"))

def answers (id : RequestId) (result : String) : Action String :=
  .line (.message ⟨some id, none, none, some result, none⟩)

/-- Two calls, answered in the other order, among answers nobody waits for. -/
def crossedRun : List (Action String) :=
  [.call, .call] ++ sends 0 ++ sends 1 ++
    [answers (.str "1") "zero", answers (.number 2) "two", answers (.number 2) "again",
      answers (.number 1) "one", .callStep 0 (.ok ""), .callStep 1 (.ok "")]

theorem response_correlated_crossed :
    ∃ t before u l after, run (Sys.step "null") (.new "codex") crossedRun = some t ∧
      t.calls[1]? = some ⟨some 2, .returned (.ok "two")⟩ ∧
      crossedRun = before ++ .line l :: after ∧
      run (Sys.step "null") (.new "codex") before = some u ∧
      l.response "null" = some (2, .ok "two") ∧ (2, 1) ∈ u.client.pending.entries := by
  obtain ⟨t, hr, hc⟩ : ∃ t, run (Sys.step "null") (.new "codex") crossedRun = some t ∧
      t.calls[1]? = some ⟨some 2, .returned (.ok "two")⟩ := exists_run _ (by decide)
  obtain ⟨id, before, u, l, u', after, hid, has, hu, -, hl, hm, -⟩ :=
    (response_correlated "null" "codex" crossedRun t 1 _ hr hc).2.1 (.ok "two") rfl rfl
  cases hid
  exact ⟨t, before, u, l, after, hr, hc, has, hu, hl, hm⟩

end Ccgonext.Correlation
