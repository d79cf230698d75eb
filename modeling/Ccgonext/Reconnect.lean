import Ccgonext.Lib.Replay
import Ccgonext.Lib.Weighted
import Ccgonext.Updates
import Ccgonext.WebUi
import Mathlib.Data.Finset.Option

/-!
# The page after a reconnect

`connectWs` subscribes from 0 whenever the socket is opened, so the server sends
again what the page has already taken. The send task leaves out what the replay
of its socket has covered, the page takes every event it gets. What it then shows
twice is counted by an amount: the text of the chunks, and one for every other
entry, for a completed turn and for an item between the turns.
-/

namespace Ccgonext.Reconnect
open Lib.Replay Lib.Weighted Events Updates WebUi

def hasText : EventPayload → Bool
  | .messageChunk text | .thoughtChunk text => text ≠ ""
  | _ => true

theorem hasText_handleSessionUpdate {update : SessionUpdate} {payload : EventPayload}
    (h : handleSessionUpdate update = some payload) : hasText payload = true := by
  unfold handleSessionUpdate at h
  split at h
  case h_1 | h_3 =>
    split at h
    · cases h
    · next hne =>
      cases h
      exact decide_eq_true hne
  all_goals
    cases h
    try rfl

structure LogEvent where
  event : SessionEvent
  text : hasText event.payload = true

/-- The page after its socket is opened: `min` is what `replay_from` has loaded. -/
def connectWs (ui : Ui) (log : EventLog) (min : ℕ) : Ui :=
  (ui.ingestAll (log.replayFrom min 0).events).1

def page (seen : List LogEvent) : Ui := (Ui.new.ingestAll (seen.map LogEvent.event)).1

section Numbers

def unnumberEntry : Entry → Entry
  | .chunk _ type text => .chunk 0 type text
  | .tool _ toolId title status output => .tool 0 toolId title status output
  | .plan _ entries => .plan 0 entries
  | .permission _ permissionId sessionId method description resolved granted =>
    .permission 0 permissionId sessionId method description resolved granted

def unnumberItem : DisplayItem → DisplayItem
  | .turn card => .turn { card with id := 0, entries := card.entries.map unnumberEntry }
  | .stateChange _ agent process turn => .stateChange 0 agent process turn
  | .raw _ agent payload => .raw 0 agent payload

def unnumber (view : SessionView) : SessionView :=
  { view with items := view.items.map unnumberItem }

end Numbers

/-- The views are the same up to the numbers of their items and entries. -/
def SameViews (ui ui' : Ui) : Prop :=
  ∀ id, unnumber (ui.sessionViews id) = unnumber (ui'.sessionViews id)

/-- An event that changes nothing where it is taken again: it goes into an entry
of its own, or nowhere. -/
def inert : EventPayload → Bool
  | .toolCallUpdate _ _ _ | .plan _ | .permissionResponse _ _ => true
  | .stateChange process turn => !shouldDisplayStateChange process turn
  | _ => false

inductive Key
  | tool (id : String)
  | plan
  | permission (id : String)
  deriving DecidableEq, Repr

def entryKey : Entry → Option Key
  | .chunk _ _ _ => none
  | .tool _ id _ _ _ => some (.tool id)
  | .plan _ _ => some .plan
  | .permission _ id _ _ _ _ _ => some (.permission id)

def leftKey : EventPayload → Option Key
  | .toolCall id _ _ | .toolCallUpdate id _ _ => some (.tool id)
  | .plan _ => some .plan
  | .permissionRequest id _ _ | .permissionResponse id _ => some (.permission id)
  | .messageChunk _ | .thoughtChunk _ | .turnComplete _ | .stateChange _ _ => none

def patchKey : EventPayload → Option Key
  | .toolCallUpdate id _ _ => some (.tool id)
  | .plan _ => some .plan
  | .permissionResponse id _ => some (.permission id)
  | _ => none

def patch (entry : Entry) : EventPayload → Entry
  | .toolCallUpdate _ status output => entry.updateTool status output
  | .plan entries => entry.updatePlan entries
  | .permissionResponse _ granted => entry.resolve granted
  | _ => entry

def absorb (entry : Entry) (payload : EventPayload) : Entry :=
  if entryKey entry = patchKey payload then patch entry payload else entry

def fresh (ev : SessionEvent) (id : ℕ) : Entry :=
  match ev.payload with
  | .toolCallUpdate toolId status output =>
    .tool id toolId toolId (normalizeStatus status) (truthy output)
  | .permissionResponse permissionId granted =>
    .permission id permissionId ev.sessionId "permission" "" true (some granted)
  | .plan entries => .plan id entries
  | _ => .plan id []

def openCard (view : SessionView) : Option TurnCard :=
  view.currentTurn.bind fun turn =>
    match view.items[turn]? with
    | some (.turn card) => some card
    | _ => none

def openEntries (view : SessionView) : List Entry := (openCard view).elim [] TurnCard.entries

def openKeys (view : SessionView) : List (Option Key) := (openEntries view).map entryKey

def Good (view : SessionView) : Prop :=
  ∀ turn, view.currentTurn = some turn →
    ∃ card, view.items[turn]? = some (.turn card) ∧ card.status = .inProgress

def payloadsOf (id : String) (events : List SessionEvent) : List EventPayload :=
  (events.filter fun e => e.sessionId = id).map SessionEvent.payload


section Entries
variable {entry : Entry} {payload : EventPayload} {payloads : List EventPayload}

theorem entryKey_patch : entryKey (patch entry payload) = entryKey entry := by
  cases payload with
  | toolCallUpdate id status output => cases entry <;> rfl
  | plan entries => cases entry <;> rfl
  | permissionResponse id granted => cases entry <;> rfl
  | messageChunk | thoughtChunk | toolCall | permissionRequest | turnComplete | stateChange => rfl

theorem entryKey_absorb : entryKey (absorb entry payload) = entryKey entry := by
  rw [absorb]
  split
  · exact entryKey_patch
  · rfl

theorem absorb_of_ne (h : entryKey entry ≠ patchKey payload) : absorb entry payload = entry :=
  if_neg h

theorem absorb_of_none (h : patchKey payload = none) : absorb entry payload = entry := by
  have hpatch : patch entry payload = entry := by
    cases payload with
    | toolCallUpdate | plan | permissionResponse => cases h
    | messageChunk | thoughtChunk | toolCall | permissionRequest | turnComplete | stateChange => rfl
  rw [absorb, hpatch, ite_self]

theorem truthy_truthy (text : Option String) : truthy (truthy text) = truthy text := by
  rw [truthy, truthy, Option.filter_filter]
  simp only [Bool.and_self]

theorem truthy_or (text old : Option String) :
    truthy ((truthy text).or (truthy old)) = (truthy text).or (truthy old) := by
  cases h : truthy text with
  | none => exact truthy_truthy old
  | some t =>
    rw [Option.some_or, ← h]
    exact truthy_truthy text

theorem patch_again : patch (patch entry payload) payload = patch entry payload := by
  cases entry with
  | tool number toolId title old text =>
    cases payload with
    | toolCallUpdate id status output =>
      simp only [patch, Entry.updateTool, truthy_or, ← Option.or_assoc, Option.or_self]
    | messageChunk | thoughtChunk | toolCall | plan | permissionRequest | permissionResponse
      | turnComplete | stateChange => rfl
  | chunk | plan | permission => cases payload <;> rfl

theorem patch_between (other : EventPayload) :
    patch (patch (patch entry payload) other) payload = patch (patch entry other) payload := by
  cases entry with
  | tool number toolId title old text =>
    cases payload with
    | toolCallUpdate id status output =>
      cases other with
      | toolCallUpdate id' status' output' =>
        simp only [patch, Entry.updateTool, truthy_or, ← Option.or_assoc]
        cases truthy output <;> simp [truthy_or]
      | messageChunk | thoughtChunk | toolCall | plan | permissionRequest | permissionResponse
        | turnComplete | stateChange =>
        exact @patch_again (.tool number toolId title old text) (.toolCallUpdate id status output)
    | messageChunk | thoughtChunk | toolCall | plan | permissionRequest | permissionResponse
      | turnComplete | stateChange => rfl
  | chunk | plan | permission => cases payload <;> cases other <;> rfl

theorem absorb_overriding : Overriding absorb where
  again entry payload := by
    by_cases h : entryKey entry = patchKey payload
    · rw [absorb, entryKey_absorb, if_pos h, absorb, if_pos h]
      exact patch_again
    · rw [absorb_of_ne h, absorb_of_ne h]
  between entry payload other := by
    by_cases h : entryKey entry = patchKey payload
    · by_cases h' : entryKey entry = patchKey other
      · simp only [absorb, entryKey_patch, if_pos h, if_pos h']
        exact patch_between other
      · have hother : absorb (absorb entry payload) other = absorb entry payload :=
          absorb_of_ne (by rwa [entryKey_absorb])
        rw [hother, absorb_of_ne h', absorb, entryKey_absorb, if_pos h, absorb, if_pos h]
        exact patch_again
    · rw [absorb_of_ne h]

end Entries

section Amounts

def entryAmount : Entry → ℕ
  | .chunk _ _ text => text.length
  | _ => 1

def cardAmount (card : TurnCard) : ℕ :=
  (if card.status = .complete then 1 else 0) + weight entryAmount card.entries

def itemAmount : DisplayItem → ℕ
  | .turn card => cardAmount card
  | _ => 1

def amount (view : SessionView) : ℕ := weight itemAmount view.items

def keysOf (entries : List Entry) : Finset Key := (entries.filterMap entryKey).toFinset

/-- All that decides how much an event adds to a view, and how much is in it. -/
structure Tally where
  keys : Finset Key
  amount : ℕ

def tally (view : SessionView) : Tally := ⟨keysOf (openEntries view), amount view⟩

def gain (keys : Finset Key) : EventPayload → ℕ
  | .messageChunk text | .thoughtChunk text => text.length
  | .toolCall _ _ _ | .permissionRequest _ _ _ | .turnComplete _ => 1
  | .toolCallUpdate id _ _ => if .tool id ∈ keys then 0 else 1
  | .plan _ => if .plan ∈ keys then 0 else 1
  | .permissionResponse id _ => if .permission id ∈ keys then 0 else 1
  | .stateChange process turn => if shouldDisplayStateChange process turn then 1 else 0

def nextKeys (keys : Finset Key) (payload : EventPayload) : Finset Key :=
  if isTurnComplete payload then ∅ else (leftKey payload).toFinset ∪ keys

def Tally.take (t : Tally) (payload : EventPayload) : Tally :=
  ⟨nextKeys t.keys payload, t.amount + gain t.keys payload⟩

variable {card : TurnCard} {next : ℕ} {ev : SessionEvent} {entries entries' : List Entry}
  {key : Key} {payload : EventPayload}

theorem keysOf_append : keysOf (entries ++ entries') = keysOf entries ∪ keysOf entries' := by
  rw [keysOf, List.filterMap_append, List.toFinset_append]
  rfl

theorem keysOf_singleton (entry : Entry) : keysOf [entry] = (entryKey entry).toFinset := by
  rw [keysOf, List.filterMap_cons]
  cases entryKey entry with
  | none => rfl
  | some key => simp

theorem mem_keysOf : key ∈ keysOf entries ↔ ∃ entry ∈ entries, entryKey entry = some key := by
  rw [keysOf, List.mem_toFinset, List.mem_filterMap]

theorem push_amount (entry : ℕ → Entry) :
    cardAmount (card.push next entry).1 = cardAmount card + entryAmount (entry next) := by
  simp only [cardAmount, TurnCard.push, weight_append, weight_cons, weight_nil, Nat.add_zero]
  exact (Nat.add_assoc ..).symm

theorem push_keys (entry : ℕ → Entry) : keysOf (card.push next entry).1.entries =
    (entryKey (entry next)).toFinset ∪ keysOf card.entries := by
  rw [TurnCard.push, keysOf_append, keysOf_singleton, Finset.union_comm]

theorem mergeText_amount (type : ChunkType) (text : String) :
    cardAmount (card.mergeText next type text).1 = cardAmount card + text.length := by
  rw [TurnCard.mergeText]
  split
  · next id type' old hlast =>
    split
    · obtain ⟨entries, hentries⟩ := List.getLast?_eq_some_iff.mp hlast
      simp only [cardAmount, hentries, List.dropLast_concat, weight_append, weight_cons,
        entryAmount, String.length_append]
      omega
    · exact push_amount _
  · exact push_amount _

theorem mergeText_keys (type : ChunkType) (text : String) :
    keysOf (card.mergeText next type text).1.entries = keysOf card.entries := by
  rw [TurnCard.mergeText]
  split
  · next id type' old hlast =>
    split
    · obtain ⟨entries, hentries⟩ := List.getLast?_eq_some_iff.mp hlast
      simp only [hentries, List.dropLast_concat, keysOf_append, keysOf_singleton]
      rfl
    · exact (push_keys _).trans (Finset.empty_union _)
  · exact (push_keys _).trans (Finset.empty_union _)

theorem mergeText_status (type : ChunkType) (text : String) :
    (card.mergeText next type text).1.status = card.status := by
  rw [TurnCard.mergeText]
  split
  · split <;> rfl
  · rfl

theorem merge_patch (h : patchKey ev.payload = some key) : mergeTurnEvent card next ev =
    card.updateOrPush next (fun entry => entryKey entry = some key)
      (fun entry => patch entry ev.payload) (fresh ev) := by
  rw [mergeTurnEvent]
  cases hp : ev.payload with
  | toolCallUpdate id status output =>
    rw [hp] at h
    cases h
    have htest : Entry.isTool id = fun entry => decide (entryKey entry = some (.tool id)) := by
      funext entry
      cases entry <;> simp [Entry.isTool, entryKey, eq_comm]
    have hfresh : fresh ev =
        fun number => .tool number id id (normalizeStatus status) (truthy output) := by
      funext number
      rw [fresh, hp]
    rw [← htest, hfresh]
    rfl
  | plan entries =>
    rw [hp] at h
    cases h
    have htest : Entry.isPlan = fun entry => decide (entryKey entry = some .plan) := by
      funext entry
      cases entry <;> simp [Entry.isPlan, entryKey]
    have hfresh : fresh ev = fun number => .plan number entries := by
      funext number
      rw [fresh, hp]
    rw [← htest, hfresh]
    rfl
  | permissionResponse id granted =>
    rw [hp] at h
    cases h
    have htest : Entry.isPermission id =
        fun entry => decide (entryKey entry = some (.permission id)) := by
      funext entry
      cases entry <;> simp [Entry.isPermission, entryKey, eq_comm]
    have hfresh : fresh ev = fun number =>
        .permission number id ev.sessionId "permission" "" true (some granted) := by
      funext number
      rw [fresh, hp]
    rw [← htest, hfresh]
    rfl
  | messageChunk | thoughtChunk | toolCall | permissionRequest | turnComplete | stateChange =>
    rw [hp] at h
    cases h

theorem entryKey_fresh (h : patchKey ev.payload = some key) (id : ℕ) :
    entryKey (fresh ev id) = some key := by
  rw [← h, fresh]
  cases hp : ev.payload with
  | toolCallUpdate | plan | permissionResponse => rfl
  | messageChunk | thoughtChunk | toolCall | permissionRequest | turnComplete | stateChange =>
    rw [hp] at h
    cases h

theorem entryAmount_fresh (id : ℕ) : entryAmount (fresh ev id) = 1 := by
  rw [fresh]
  split <;> rfl

theorem entryAmount_patch (entry : Entry) :
    entryAmount (patch entry payload) = entryAmount entry := by
  cases payload with
  | toolCallUpdate | plan | permissionResponse => cases entry <;> rfl
  | messageChunk | thoughtChunk | toolCall | permissionRequest | turnComplete | stateChange => rfl

theorem merge_patch_cases (h : patchKey ev.payload = some key) :
    (∃ before entry after, card.entries = before ++ entry :: after ∧
        entryKey entry = some key ∧ (mergeTurnEvent card next ev).1 =
          { card with entries := before ++ patch entry ev.payload :: after }) ∨
      (∀ entry ∈ card.entries, entryKey entry ≠ some key) ∧
        (mergeTurnEvent card next ev).1 = (card.push next (fresh ev)).1 := by
  rw [merge_patch h, TurnCard.updateOrPush]
  split
  · next entries hchange =>
    obtain ⟨before, entry, after, hentries, htest, -, rfl⟩ := updateLast_some hchange
    exact .inl ⟨before, entry, after, hentries, of_decide_eq_true htest, rfl⟩
  · next hnone =>
    exact .inr ⟨fun entry he => of_decide_eq_false (updateLast_none hnone entry he), rfl⟩

theorem mem_keysOf_split {before after : List Entry} {entry : Entry}
    (hentry : entryKey entry = some key) : key ∈ keysOf (before ++ entry :: after) :=
  mem_keysOf.mpr ⟨entry, List.mem_append_right _ List.mem_cons_self, hentry⟩

theorem merge_patch_amount (h : patchKey ev.payload = some key) :
    cardAmount (mergeTurnEvent card next ev).1 =
      cardAmount card + if key ∈ keysOf card.entries then 0 else 1 := by
  rcases @merge_patch_cases card next ev key h with
    ⟨before, entry, after, hentries, hentry, hmerge⟩ | ⟨hnone, hmerge⟩
  · have hmem : key ∈ keysOf card.entries := by
      rw [hentries]
      exact mem_keysOf_split hentry
    rw [hmerge, if_pos hmem, cardAmount, cardAmount, hentries]
    simp only [weight_append, weight_cons, entryAmount_patch, Nat.add_zero]
  · have hmem : key ∉ keysOf card.entries := by
      rw [mem_keysOf]
      rintro ⟨entry, he, hentry⟩
      exact hnone entry he hentry
    rw [hmerge, if_neg hmem, push_amount, entryAmount_fresh]

theorem merge_patch_keys (h : patchKey ev.payload = some key) :
    keysOf (mergeTurnEvent card next ev).1.entries = {key} ∪ keysOf card.entries := by
  rcases @merge_patch_cases card next ev key h with
    ⟨before, entry, after, hentries, hentry, hmerge⟩ | ⟨hnone, hmerge⟩
  · have hsame : (before ++ patch entry ev.payload :: after).filterMap entryKey =
        card.entries.filterMap entryKey := by
      rw [hentries]
      simp only [List.filterMap_append, List.filterMap_cons, entryKey_patch]
    have hmem : key ∈ keysOf card.entries := by
      rw [hentries]
      exact mem_keysOf_split hentry
    rw [hmerge, Finset.union_eq_right.mpr (Finset.singleton_subset_iff.mpr hmem)]
    exact congrArg List.toFinset hsame
  · rw [hmerge, push_keys, entryKey_fresh h]
    rfl

theorem merge_amount (hopen : card.status = .inProgress)
    (hscoped : isTurnScopedEvent ev.payload = true) :
    cardAmount (mergeTurnEvent card next ev).1 =
      cardAmount card + gain (keysOf card.entries) ev.payload := by
  cases hp : ev.payload with
  | messageChunk | thoughtChunk =>
    rw [mergeTurnEvent, hp]
    exact mergeText_amount _ _
  | toolCall | permissionRequest =>
    rw [mergeTurnEvent, hp]
    exact push_amount _
  | toolCallUpdate | plan | permissionResponse => exact merge_patch_amount (congrArg patchKey hp)
  | turnComplete =>
    rw [mergeTurnEvent, hp]
    rw [cardAmount, cardAmount, hopen, if_pos rfl, if_neg (by decide)]
    exact (Nat.add_comm ..).trans (congrArg (· + 1) (Nat.zero_add _).symm)
  | stateChange =>
    rw [hp] at hscoped
    cases hscoped

theorem merge_keys : keysOf (mergeTurnEvent card next ev).1.entries =
    (leftKey ev.payload).toFinset ∪ keysOf card.entries := by
  cases hp : ev.payload with
  | messageChunk | thoughtChunk =>
    rw [mergeTurnEvent, hp]
    exact (mergeText_keys _ _).trans (Finset.empty_union _).symm
  | toolCall | permissionRequest =>
    rw [mergeTurnEvent, hp]
    exact push_keys _
  | toolCallUpdate | plan | permissionResponse => exact merge_patch_keys (congrArg patchKey hp)
  | turnComplete | stateChange =>
    rw [mergeTurnEvent, hp]
    exact (Finset.empty_union _).symm

theorem merge_status (h : isTurnComplete ev.payload = false) :
    (mergeTurnEvent card next ev).1.status = card.status := by
  cases hp : ev.payload with
  | messageChunk | thoughtChunk =>
    rw [mergeTurnEvent, hp]
    exact mergeText_status _ _
  | toolCall | permissionRequest =>
    rw [mergeTurnEvent, hp]
    rfl
  | stateChange => rw [mergeTurnEvent, hp]
  | toolCallUpdate | plan | permissionResponse =>
    rw [merge_patch (congrArg patchKey hp), TurnCard.updateOrPush]
    split <;> rfl
  | turnComplete =>
    rw [hp] at h
    cases h

end Amounts

section Views
variable {ui : Ui} {ev : SessionEvent} {view : SessionView} {turn : ℕ} {card : TurnCard}
  {item : DisplayItem}

theorem openCard_of (hturn : view.currentTurn = some turn)
    (hcard : view.items[turn]? = some (.turn card)) : openCard view = some card := by
  rw [openCard, hturn, Option.bind_some, hcard]

theorem openEntries_of (hturn : view.currentTurn = some turn)
    (hcard : view.items[turn]? = some (.turn card)) : openEntries view = card.entries := by
  rw [openEntries, openCard_of hturn hcard]
  rfl

theorem openEntries_none (hturn : view.currentTurn = none) : openEntries view = [] := by
  rw [openEntries, openCard, hturn]
  rfl

theorem ensureCurrentTurn_some (hturn : (ui.sessionViews ev.sessionId).currentTurn = some turn) :
    ui.ensureCurrentTurn ev = (ui, turn) := by
  unfold Ui.ensureCurrentTurn
  simp only [hturn]

theorem ensureCurrentTurn_none (hturn : (ui.sessionViews ev.sessionId).currentTurn = none) :
    (ui.ensureCurrentTurn ev).2 = (ui.sessionViews ev.sessionId).items.length ∧
      (ui.ensureCurrentTurn ev).1.sessionViews ev.sessionId =
        ⟨(ui.sessionViews ev.sessionId).items ++ [.turn (.new ui.nextDisplayId ev.agent)],
          some (ui.sessionViews ev.sessionId).items.length⟩ := by
  unfold Ui.ensureCurrentTurn
  simp only [hturn]
  exact ⟨trivial, Ui.setView_self _⟩

theorem ensureCurrentTurn_good (hg : Good (ui.sessionViews ev.sessionId)) :
    ∃ card, ((ui.ensureCurrentTurn ev).1.sessionViews ev.sessionId).items[
          (ui.ensureCurrentTurn ev).2]? = some (.turn card) ∧
      ((ui.ensureCurrentTurn ev).1.sessionViews ev.sessionId).currentTurn =
        some (ui.ensureCurrentTurn ev).2 ∧
      card.status = .inProgress ∧ card.entries = openEntries (ui.sessionViews ev.sessionId) ∧
      amount ((ui.ensureCurrentTurn ev).1.sessionViews ev.sessionId) =
        amount (ui.sessionViews ev.sessionId) := by
  cases hturn : (ui.sessionViews ev.sessionId).currentTurn with
  | some turn =>
    obtain ⟨card, hcard, hopen⟩ := hg turn hturn
    rw [ensureCurrentTurn_some hturn]
    exact ⟨card, hcard, hturn, hopen, (openEntries_of hturn hcard).symm, rfl⟩
  | none =>
    obtain ⟨hat, hview⟩ := ensureCurrentTurn_none hturn
    rw [hat, hview, openEntries_none hturn]
    refine ⟨.new ui.nextDisplayId ev.agent, List.getElem?_concat_length, rfl, rfl, rfl, ?_⟩
    rw [amount, weight_append]
    rfl

theorem mergeAt_card (hcard : (ui.sessionViews ev.sessionId).items[turn]? = some (.turn card)) :
    ui.mergeAt turn ev =
      { ui.setView ev.sessionId { ui.sessionViews ev.sessionId with
          items := (ui.sessionViews ev.sessionId).items.set turn
            (.turn (mergeTurnEvent card ui.nextDisplayId ev).1) } with
        nextDisplayId := (mergeTurnEvent card ui.nextDisplayId ev).2 } := by
  unfold Ui.mergeAt
  simp only [hcard]

theorem ingestEvent_scoped (hg : Good (ui.sessionViews ev.sessionId))
    (hscoped : isTurnScopedEvent ev.payload = true) :
    ∃ items turn card next, items[turn]? = some (.turn card) ∧ card.status = .inProgress ∧
      card.entries = openEntries (ui.sessionViews ev.sessionId) ∧
      weight itemAmount items = amount (ui.sessionViews ev.sessionId) ∧
      (ui.ingestEvent ev).1.sessionViews ev.sessionId =
        ⟨items.set turn (.turn (mergeTurnEvent card next ev).1),
          if isTurnComplete ev.payload then none else some turn⟩ := by
  obtain ⟨card, hcard, hturn, hopen, hentries, hamount⟩ := ensureCurrentTurn_good hg
  refine ⟨_, _, card, (ui.ensureCurrentTurn ev).1.nextDisplayId, hcard, hopen, hentries, hamount,
    ?_⟩
  unfold Ui.ingestEvent
  simp only [hscoped, ↓reduceIte, mergeAt_card hcard]
  split
  · rw [Ui.closeTurn, Ui.setView_self, show _ = _ from Ui.setView_self _]
  · rw [show _ = _ from Ui.setView_self _, hturn]

theorem good_append (hg : Good view) : Good { view with items := view.items ++ [item] } := by
  intro turn hturn
  obtain ⟨card, hcard, hopen⟩ := hg turn hturn
  have hlt : turn < view.items.length := (List.getElem?_eq_some_iff.mp hcard).1
  exact ⟨card, (List.getElem?_append_left hlt).trans hcard, hopen⟩

theorem openEntries_append (hg : Good view) :
    openEntries { view with items := view.items ++ [item] } = openEntries view := by
  cases hturn : view.currentTurn with
  | none => exact (openEntries_none rfl).trans (openEntries_none hturn).symm
  | some turn =>
    obtain ⟨card, hcard, hopen⟩ := hg turn hturn
    have hlt : turn < view.items.length := (List.getElem?_eq_some_iff.mp hcard).1
    rw [openEntries_of hturn hcard]
    exact openEntries_of rfl ((List.getElem?_append_left hlt).trans hcard)

/-- An event of its own session adds to a view what its tally says. -/
theorem ingestEvent_tally (hg : Good (ui.sessionViews ev.sessionId)) :
    Good ((ui.ingestEvent ev).1.sessionViews ev.sessionId) ∧
      tally ((ui.ingestEvent ev).1.sessionViews ev.sessionId) =
        (tally (ui.sessionViews ev.sessionId)).take ev.payload := by
  cases hscoped : isTurnScopedEvent ev.payload with
  | true =>
    obtain ⟨items, turn, card, next, hcard, hopen, hentries, hamount, hview⟩ :=
      ingestEvent_scoped hg hscoped
    have hlt : turn < items.length := (List.getElem?_eq_some_iff.mp hcard).1
    have hset := @weight_set _ itemAmount _ _ _ (.turn (mergeTurnEvent card next ev).1) hcard
    have hmerge : cardAmount (mergeTurnEvent card next ev).1 =
        cardAmount card + gain (keysOf card.entries) ev.payload := merge_amount hopen hscoped
    have hget : (items.set turn (.turn (mergeTurnEvent card next ev).1))[turn]? =
        some (.turn (mergeTurnEvent card next ev).1) := List.getElem?_set_self hlt
    have hsum : weight itemAmount (items.set turn (.turn (mergeTurnEvent card next ev).1)) =
        amount (ui.sessionViews ev.sessionId) +
          gain (keysOf (openEntries (ui.sessionViews ev.sessionId))) ev.payload := by
      simp only [itemAmount, hmerge, hamount, hentries] at hset
      omega
    rw [hview, Tally.take, nextKeys]
    cases hdone : isTurnComplete ev.payload with
    | true =>
      refine ⟨fun turn hturn => (by cases hturn), ?_⟩
      rw [tally, openEntries_none rfl]
      exact congrArg (Tally.mk ∅) hsum
    | false =>
      refine ⟨fun at' hturn => ?_, ?_⟩
      · cases hturn
        exact ⟨_, hget, (merge_status hdone).trans hopen⟩
      · rw [tally, openEntries_of rfl hget, merge_keys, hentries]
        exact congrArg (Tally.mk _) hsum
  | false =>
    cases hp : ev.payload with
    | stateChange process turn =>
      have hkeys : ∀ keys, nextKeys keys (.stateChange process turn) = keys :=
        fun keys => Finset.empty_union keys
      unfold Ui.ingestEvent
      simp only [hp, isTurnScopedEvent, Bool.false_eq_true, ↓reduceIte]
      rw [Tally.take, hkeys, gain]
      split
      · have hview : (ui.pushItem ev).1.sessionViews ev.sessionId =
            { ui.sessionViews ev.sessionId with
              items := (ui.sessionViews ev.sessionId).items ++
                [toDisplayItem ui.nextDisplayId ev] } := Ui.setView_self _
        rw [hview]
        refine ⟨good_append hg, ?_⟩
        rw [tally, openEntries_append hg, amount, weight_append, weight_cons, toDisplayItem, hp]
        rfl
      · exact ⟨hg, rfl⟩
    | messageChunk | thoughtChunk | toolCall | toolCallUpdate | plan | permissionRequest
      | permissionResponse | turnComplete =>
      rw [hp] at hscoped
      cases hscoped

end Views

section Gains
variable {payloads : List EventPayload} {payload : EventPayload} {keys : Finset Key} {t : Tally}

def gains (keys : Finset Key) : List EventPayload → ℕ
  | [] => 0
  | payload :: payloads => gain keys payload + gains (nextKeys keys payload) payloads

theorem foldl_take : payloads.foldl Tally.take t =
    ⟨payloads.foldl nextKeys t.keys, t.amount + gains t.keys payloads⟩ := by
  induction payloads generalizing t with
  | nil => rfl
  | cons payload payloads ih =>
    rw [List.foldl_cons, ih, gains, ← Nat.add_assoc]
    rfl

theorem gains_append {payloads' : List EventPayload} : gains keys (payloads ++ payloads') =
    gains keys payloads + gains (payloads.foldl nextKeys keys) payloads' := by
  induction payloads generalizing keys with
  | nil => exact (Nat.zero_add _).symm
  | cons payload payloads ih =>
    rw [List.cons_append, gains, gains, ih, Nat.add_assoc]
    rfl

/-- The keys of the open card come from the events since the last turn was
complete, and from before where none was. -/
theorem foldl_nextKeys : payloads.foldl nextKeys keys =
    payloads.foldl nextKeys ∅ ∪ if payloads.any isTurnComplete then ∅ else keys := by
  induction payloads using List.reverseRecOn with
  | nil => exact (Finset.empty_union keys).symm
  | append_singleton payloads payload ih =>
    rw [List.foldl_concat, List.foldl_concat, ih, nextKeys, nextKeys, List.any_append,
      List.any_cons, List.any_nil, Bool.or_false]
    cases isTurnComplete payload with
    | true => simp
    | false => simp [Finset.union_assoc]

theorem foldl_nextKeys_again : payloads.foldl nextKeys (payloads.foldl nextKeys ∅) =
    payloads.foldl nextKeys ∅ := by
  rw [foldl_nextKeys]
  split
  · exact Finset.union_empty _
  · exact Finset.union_self _

theorem inert_of_gain (htext : hasText payload = true) (h : gain keys payload = 0) :
    inert payload = true := by
  cases payload with
  | messageChunk text | thoughtChunk text =>
    exact absurd (String.length_eq_zero_iff.mp h) (of_decide_eq_true htext)
  | toolCall | permissionRequest | turnComplete => cases h
  | toolCallUpdate | plan | permissionResponse => rfl
  | stateChange process turn =>
    rw [gain] at h
    rw [inert]
    split at h
    · cases h
    · next hhide => simpa using hhide

theorem inert_of_gains (htext : ∀ payload ∈ payloads, hasText payload = true)
    (h : gains keys payloads = 0) : ∀ payload ∈ payloads, inert payload = true := by
  induction payloads generalizing keys with
  | nil => exact fun _ hmem => absurd hmem List.not_mem_nil
  | cons first payloads ih =>
    obtain ⟨hfirst, hrest⟩ := Nat.add_eq_zero_iff.mp h
    intro payload hmem
    rcases List.mem_cons.mp hmem with rfl | hmem
    · exact inert_of_gain (htext _ List.mem_cons_self) hfirst
    · exact ih (fun p hp => htext p (List.mem_cons_of_mem _ hp)) hrest payload hmem

end Gains

section Runs
variable {ui : Ui} {evs evs' : List SessionEvent} {id : String} {view : SessionView}

theorem payloadsOf_append :
    payloadsOf id (evs ++ evs') = payloadsOf id evs ++ payloadsOf id evs' := by
  rw [payloadsOf, List.filter_append, List.map_append]
  rfl

theorem ingestAll_append :
    (ui.ingestAll (evs ++ evs')).1 = ((ui.ingestAll evs).1.ingestAll evs').1 := by
  induction evs generalizing ui with
  | nil => rfl
  | cons ev evs ih => exact ih

theorem ingestAll_tally (hg : Good (ui.sessionViews id)) :
    Good ((ui.ingestAll evs).1.sessionViews id) ∧
      tally ((ui.ingestAll evs).1.sessionViews id) =
        (payloadsOf id evs).foldl Tally.take (tally (ui.sessionViews id)) := by
  induction evs generalizing ui with
  | nil => exact ⟨hg, rfl⟩
  | cons ev evs ih =>
    by_cases hid : ev.sessionId = id
    · subst hid
      obtain ⟨hgood, htally⟩ := ingestEvent_tally hg
      have hown : payloadsOf ev.sessionId (ev :: evs) =
          ev.payload :: payloadsOf ev.sessionId evs := by
        rw [payloadsOf, List.filter_cons_of_pos (by simp), List.map_cons]
        rfl
      rw [hown, List.foldl_cons, ← htally]
      exact ih hgood
    · have hother : (ui.ingestEvent ev).1.sessionViews id = ui.sessionViews id :=
        Ui.ingestEvent_other fun h => hid h.symm
      have hown : payloadsOf id (ev :: evs) = payloadsOf id evs := by
        rw [payloadsOf, List.filter_cons_of_neg (by simp [hid])]
        rfl
      rw [hown, ← hother]
      rw [← hother] at hg
      exact ih hg

theorem good_new : Good (Ui.new.sessionViews id) := fun turn hturn => by cases hturn

theorem weight_unnumber (entries : List Entry) :
    weight entryAmount (entries.map unnumberEntry) = weight entryAmount entries := by
  induction entries with
  | nil => rfl
  | cons entry entries ih =>
    rw [List.map_cons, weight_cons, weight_cons, ih]
    cases entry <;> rfl

theorem amount_unnumber : amount (unnumber view) = amount view := by
  rw [amount, amount, unnumber]
  induction view.items with
  | nil => rfl
  | cons item items ih =>
    rw [List.map_cons, weight_cons, weight_cons, ih]
    cases item with
    | turn card =>
      rw [unnumberItem, itemAmount, itemAmount, cardAmount, cardAmount, weight_unnumber]
    | stateChange | raw => rfl

/-- What the page takes a second time adds to it, unless it is inert, and so
does not go away with what follows. -/
theorem inert_of_sameViews (htext : ∀ ev ∈ evs, hasText ev.payload = true)
    (h : SameViews (Ui.new.ingestAll (evs ++ (evs ++ evs'))).1 (Ui.new.ingestAll (evs ++ evs')).1) :
    ∀ ev ∈ evs, inert ev.payload = true := by
  intro ev hev
  have hsame := congrArg amount (h ev.sessionId)
  rw [amount_unnumber, amount_unnumber] at hsame
  have hamount : ∀ events, amount ((Ui.new.ingestAll events).1.sessionViews ev.sessionId) =
      gains ∅ (payloadsOf ev.sessionId events) := by
    intro events
    have htally := (@ingestAll_tally _ events _ (@good_new ev.sessionId)).2
    rw [foldl_take] at htally
    exact (congrArg Tally.amount htally).trans (Nat.zero_add _)
  have hown : ev.payload ∈ payloadsOf ev.sessionId evs :=
    List.mem_map_of_mem (List.mem_filter.mpr ⟨hev, decide_eq_true rfl⟩)
  have hsecond : gains ((payloadsOf ev.sessionId evs).foldl nextKeys ∅)
      (payloadsOf ev.sessionId evs) = 0 := by
    simp only [hamount, payloadsOf_append, gains_append, foldl_nextKeys_again] at hsame
    omega
  refine inert_of_gains (fun payload hmem => ?_) hsecond _ hown
  obtain ⟨e, he, rfl⟩ := List.mem_map.mp hmem
  exact htext e (List.mem_filter.mp he).1

end Runs

section Inert
variable {ui : Ui} {ev : SessionEvent} {evs : List SessionEvent} {view : SessionView}
  {card : TurnCard} {next turn : ℕ} {key : Key} {entries : List Entry} {entry : Entry}
  {payload : EventPayload} {payloads : List EventPayload} {id : String}

def absorbItem (item : DisplayItem) (payload : EventPayload) : DisplayItem :=
  match item with
  | .turn card => .turn { card with entries := card.entries.map fun entry => absorb entry payload }
  | item => item

def absorbView (view : SessionView) (payload : EventPayload) : SessionView :=
  { view with
    items := match view.currentTurn with
      | some turn => view.items.modify turn fun item => absorbItem item payload
      | none => view.items }

def Present (view : SessionView) (payload : EventPayload) : Prop :=
  ∀ key, patchKey payload = some key → some key ∈ openKeys view

structure Taken (payloads : List EventPayload) (view : SessionView) : Prop where
  distinct : (openKeys view).Nodup
  present : ∀ payload ∈ payloads, Present view payload
  settled : ∀ entry ∈ openEntries view, Settled absorb payloads entry

theorem updateLast_present (hkey : patchKey payload = some key)
    (hmem : some key ∈ entries.map entryKey) (hnodup : (entries.map entryKey).Nodup) :
    updateLast (fun entry => entryKey entry = some key) (fun entry => patch entry payload) entries =
      some (entries.map fun entry => absorb entry payload) := by
  cases hchange : updateLast (fun entry => entryKey entry = some key)
      (fun entry => patch entry payload) entries with
  | none =>
    obtain ⟨entry, he, hentry⟩ := List.mem_map.mp hmem
    exact absurd hentry (of_decide_eq_false (updateLast_none hchange entry he))
  | some changed =>
    obtain ⟨before, entry, after, rfl, htest, hafter, rfl⟩ := updateLast_some hchange
    have hentry : entryKey entry = patchKey payload := (of_decide_eq_true htest).trans hkey.symm
    have hsame : ∀ l : List Entry, (∀ e ∈ l, entryKey e ≠ patchKey payload) →
        l.map (fun e => absorb e payload) = l := by
      intro l hl
      exact (List.map_congr_left fun e he => absorb_of_ne (hl e he)).trans (List.map_id l)
    have hbefore : ∀ e ∈ before, entryKey e ≠ patchKey payload := by
      intro e he heq
      rw [List.map_append, List.map_cons, List.nodup_append] at hnodup
      exact hnodup.2.2 _ (List.mem_map_of_mem he) _ List.mem_cons_self (heq.trans hentry.symm)
    have hrest : ∀ e ∈ after, entryKey e ≠ patchKey payload := by
      intro e he heq
      exact absurd (heq.trans hkey) (of_decide_eq_false (hafter e he))
    rw [List.map_append, List.map_cons, hsame before hbefore, hsame after hrest, absorb,
      if_pos hentry]

theorem merge_present (hkey : patchKey ev.payload = some key)
    (hmem : some key ∈ card.entries.map entryKey) (hnodup : (card.entries.map entryKey).Nodup) :
    mergeTurnEvent card next ev =
      ({ card with entries := card.entries.map fun entry => absorb entry ev.payload }, next) := by
  rw [merge_patch hkey, TurnCard.updateOrPush, updateLast_present hkey hmem hnodup]

theorem merge_absent (hkey : patchKey ev.payload = some key)
    (hmem : some key ∉ card.entries.map entryKey) :
    (mergeTurnEvent card next ev).1.entries = card.entries ++ [fresh ev next] := by
  rcases @merge_patch_cases card next ev key hkey with
    ⟨before, entry, after, hentries, hentry, -⟩ | ⟨-, hmerge⟩
  · refine absurd (List.mem_map.mpr ⟨entry, ?_, hentry⟩) hmem
    rw [hentries]
    exact List.mem_append_right _ List.mem_cons_self
  · rw [hmerge]
    rfl

theorem scoped_of_patchKey (h : patchKey payload = some key) :
    isTurnScopedEvent payload = true ∧ isTurnComplete payload = false := by
  cases payload with
  | toolCallUpdate | plan | permissionResponse => exact ⟨rfl, rfl⟩
  | messageChunk | thoughtChunk | toolCall | permissionRequest | turnComplete | stateChange =>
    cases h

theorem ingestEvent_present (hg : Good (ui.sessionViews ev.sessionId))
    (hkey : patchKey ev.payload = some key)
    (hmem : some key ∈ openKeys (ui.sessionViews ev.sessionId))
    (hnodup : (openKeys (ui.sessionViews ev.sessionId)).Nodup) :
    (ui.ingestEvent ev).1 =
      ui.setView ev.sessionId (absorbView (ui.sessionViews ev.sessionId) ev.payload) := by
  obtain ⟨hscoped, hdone⟩ := scoped_of_patchKey hkey
  cases hturn : (ui.sessionViews ev.sessionId).currentTurn with
  | none =>
    rw [openKeys, openEntries_none hturn] at hmem
    exact absurd hmem List.not_mem_nil
  | some turn =>
    obtain ⟨card, hcard, hopen⟩ := hg turn hturn
    rw [openKeys, openEntries_of hturn hcard] at hmem hnodup
    have hview : absorbView (ui.sessionViews ev.sessionId) ev.payload =
        { ui.sessionViews ev.sessionId with
          items := (ui.sessionViews ev.sessionId).items.set turn (.turn { card with
            entries := card.entries.map fun entry => absorb entry ev.payload }) } := by
      simp only [absorbView, hturn, List.modify_eq_set_getElem?, hcard]
      rfl
    unfold Ui.ingestEvent
    simp only [hscoped, hdone, ↓reduceIte, Bool.false_eq_true, ensureCurrentTurn_some hturn,
      mergeAt_card hcard, merge_present hkey hmem hnodup, hview]
    rfl

theorem ingestEvent_ignored (hinert : inert ev.payload = true) (hkey : patchKey ev.payload = none) :
    (ui.ingestEvent ev).1 = ui := by
  cases hp : ev.payload with
  | stateChange process turn =>
    rw [hp, inert, Bool.not_eq_true'] at hinert
    unfold Ui.ingestEvent
    simp only [hp, isTurnScopedEvent, Bool.false_eq_true, ↓reduceIte, hinert]
  | toolCallUpdate | plan | permissionResponse =>
    rw [hp] at hkey
    cases hkey
  | messageChunk | thoughtChunk | toolCall | permissionRequest | turnComplete =>
    rw [hp] at hinert
    cases hinert

theorem absorbItem_of_none (hkey : patchKey payload = none) (item : DisplayItem) :
    absorbItem item payload = item := by
  cases item with
  | turn card =>
    have hentries : card.entries.map (fun entry => absorb entry payload) = card.entries :=
      (List.map_congr_left fun entry _ => absorb_of_none hkey).trans (List.map_id _)
    rw [absorbItem, hentries]
  | stateChange | raw => rfl

theorem absorbView_of_none (hkey : patchKey payload = none) : absorbView view payload = view := by
  have hitem : (fun item => absorbItem item payload) = id := funext (absorbItem_of_none hkey)
  rw [absorbView, hitem]
  cases h : view.currentTurn <;> simp [← h]

theorem absorbView_open (hturn : view.currentTurn = some turn)
    (hcard : view.items[turn]? = some (.turn card)) :
    (absorbView view payload).currentTurn = some turn ∧
      (absorbView view payload).items[turn]? = some (.turn { card with
        entries := card.entries.map fun entry => absorb entry payload }) := by
  refine ⟨hturn, ?_⟩
  simp only [absorbView, hturn, List.getElem?_modify_eq, hcard]
  rfl

theorem openEntries_absorbView (hg : Good view) : openEntries (absorbView view payload) =
    (openEntries view).map fun entry => absorb entry payload := by
  cases hturn : view.currentTurn with
  | none =>
    have hsame : (absorbView view payload).currentTurn = none := hturn
    rw [openEntries_none hsame, openEntries_none hturn]
    rfl
  | some turn =>
    obtain ⟨card, hcard, -⟩ := hg turn hturn
    obtain ⟨hsame, hitem⟩ := @absorbView_open _ _ _ payload hturn hcard
    rw [openEntries_of hturn hcard, openEntries_of hsame hitem]

theorem openKeys_absorbView (hg : Good view) :
    openKeys (absorbView view payload) = openKeys view := by
  rw [openKeys, openEntries_absorbView hg, List.map_map]
  exact List.map_congr_left fun entry _ => entryKey_absorb

theorem ingestEvent_inert (hg : Good (ui.sessionViews ev.sessionId))
    (hnodup : (openKeys (ui.sessionViews ev.sessionId)).Nodup) (hinert : inert ev.payload = true)
    (hpresent : Present (ui.sessionViews ev.sessionId) ev.payload) :
    (ui.ingestEvent ev).1 =
      ui.setView ev.sessionId (absorbView (ui.sessionViews ev.sessionId) ev.payload) := by
  cases hkey : patchKey ev.payload with
  | none =>
    rw [ingestEvent_ignored hinert hkey, absorbView_of_none hkey, Ui.setView,
      Function.update_eq_self]
  | some key => exact ingestEvent_present hg hkey (hpresent key hkey) hnodup

theorem foldl_absorbView (hturn : view.currentTurn = some turn)
    (hcard : view.items[turn]? = some (.turn card)) : payloads.foldl absorbView view =
      { view with items := view.items.set turn (.turn { card with
          entries := card.entries.map fun entry => payloads.foldl absorb entry }) } := by
  obtain ⟨hlt, hget⟩ := List.getElem?_eq_some_iff.mp hcard
  induction payloads using List.reverseRecOn with
  | nil =>
    have hsame : view.items.set turn (.turn card) = view.items := by
      rw [← hget]
      exact List.set_getElem_self hlt
    simp only [List.foldl_nil, List.map_id', hsame]
  | append_singleton payloads payload ih =>
    rw [List.foldl_concat, ih, absorbView]
    simp only [hturn, List.modify_eq_set_getElem?, List.getElem?_set_self hlt, List.foldl_concat]
    simp only [absorbItem, Option.map_eq_map, Option.map_some, Option.getD_some, List.set_set,
      List.map_map]
    rfl

theorem settled_absorbView (hg : Good view)
    (h : ∀ entry ∈ openEntries view, Settled absorb payloads entry) :
    Settled absorbView payloads view := by
  cases hturn : view.currentTurn with
  | none =>
    refine settled_of_forall fun payload _ => ?_
    simp only [absorbView, hturn]
    rw [← hturn]
  | some turn =>
    obtain ⟨card, hcard, -⟩ := hg turn hturn
    obtain ⟨hlt, hget⟩ := List.getElem?_eq_some_iff.mp hcard
    rw [openEntries_of hturn hcard] at h
    have hentries : card.entries.map (fun entry => payloads.foldl absorb entry) = card.entries :=
      (List.map_congr_left h).trans (List.map_id _)
    have hsame : view.items.set turn (.turn card) = view.items := by
      rw [← hget]
      exact List.set_getElem_self hlt
    rw [Settled, foldl_absorbView hturn hcard, hentries, hsame]

theorem taken_empty (hturn : view.currentTurn = none) : Taken [] view where
  distinct := by
    rw [openKeys, openEntries_none hturn]
    exact List.nodup_nil
  present := fun _ hmem => absurd hmem List.not_mem_nil
  settled := fun _ _ => rfl

theorem absorb_fresh (number : ℕ) : absorb (fresh ev number) ev.payload = fresh ev number := by
  rw [absorb]
  split
  · rw [fresh]
    cases ev.payload with
    | toolCallUpdate id status output =>
      simp only [patch, Entry.updateTool, truthy_truthy, Option.or_self]
    | messageChunk | thoughtChunk | toolCall | plan | permissionRequest | permissionResponse
      | turnComplete | stateChange => rfl
  · rfl

theorem openEntries_absent (hg : Good (ui.sessionViews ev.sessionId))
    (hkey : patchKey ev.payload = some key)
    (hmem : some key ∉ openKeys (ui.sessionViews ev.sessionId)) :
    ∃ next, openEntries ((ui.ingestEvent ev).1.sessionViews ev.sessionId) =
      openEntries (ui.sessionViews ev.sessionId) ++ [fresh ev next] := by
  obtain ⟨hscoped, hdone⟩ := scoped_of_patchKey hkey
  obtain ⟨items, turn, card, next, hcard, -, hentries, -, hview⟩ := ingestEvent_scoped hg hscoped
  have hlt : turn < items.length := (List.getElem?_eq_some_iff.mp hcard).1
  have habsent : some key ∉ card.entries.map entryKey := by rwa [hentries]
  refine ⟨next, ?_⟩
  rw [hview, hdone, openEntries_of rfl (List.getElem?_set_self hlt), merge_absent hkey habsent,
    hentries]

theorem present_or_absent (view : SessionView) (payload : EventPayload) :
    Present view payload ∨ ∃ key, patchKey payload = some key ∧ some key ∉ openKeys view := by
  cases hkey : patchKey payload with
  | none => exact .inl fun key hsome => by cases hkey.symm.trans hsome
  | some key =>
    by_cases hmem : some key ∈ openKeys view
    · refine .inl fun key' hsome => ?_
      cases hkey.symm.trans hsome
      exact hmem
    · exact .inr ⟨key, rfl, hmem⟩

theorem taken_ingestEvent (hg : Good (ui.sessionViews ev.sessionId))
    (h : Taken payloads (ui.sessionViews ev.sessionId)) (hinert : inert ev.payload = true) :
    Taken (payloads ++ [ev.payload]) ((ui.ingestEvent ev).1.sessionViews ev.sessionId) := by
  rcases present_or_absent (ui.sessionViews ev.sessionId) ev.payload with
    hpresent | ⟨key, hkey, hmem⟩
  · rw [ingestEvent_inert hg h.distinct hinert hpresent, Ui.setView_self]
    refine ⟨?_, fun payload hp => ?_, fun entry he => ?_⟩
    · rw [openKeys_absorbView hg]
      exact h.distinct
    · rw [Present, openKeys_absorbView hg]
      rcases List.mem_append.mp hp with hp | hp
      · exact h.present payload hp
      · cases List.mem_singleton.mp hp
        exact hpresent
    · rw [openEntries_absorbView hg] at he
      obtain ⟨old, hold, rfl⟩ := List.mem_map.mp he
      exact absorb_overriding.settled_step (h.settled old hold)
  · obtain ⟨next, hentries⟩ := openEntries_absent hg hkey hmem
    have hfresh : entryKey (fresh ev next) = patchKey ev.payload :=
      (entryKey_fresh hkey next).trans hkey.symm
    have hkeys : openKeys ((ui.ingestEvent ev).1.sessionViews ev.sessionId) =
        openKeys (ui.sessionViews ev.sessionId) ++ [some key] := by
      rw [openKeys, hentries, List.map_append, List.map_singleton, entryKey_fresh hkey]
      rfl
    refine ⟨?_, fun payload hp => ?_, fun entry he => ?_⟩
    · rw [hkeys, ← List.concat_eq_append]
      exact h.distinct.concat hmem
    · rw [Present, hkeys]
      intro key' hkey'
      rcases List.mem_append.mp hp with hp | hp
      · exact List.mem_append_left _ (h.present payload hp key' hkey')
      · cases List.mem_singleton.mp hp
        cases hkey.symm.trans hkey'
        exact List.mem_append_right _ List.mem_cons_self
    · rw [hentries] at he
      rcases List.mem_append.mp he with he | he
      · refine (h.settled entry he).concat (absorb_of_ne fun hsame => hmem ?_)
        rw [← hkey, ← hsame]
        exact List.mem_map_of_mem he
      · cases List.mem_singleton.mp he
        refine Settled.concat (settled_of_forall fun payload hp => absorb_of_ne fun hsame => ?_) ?_
        · exact hmem (h.present payload hp key (hsame.symm.trans (hfresh.trans hkey)))
        · exact absorb_fresh next

theorem payloadsOf_singleton_self : payloadsOf ev.sessionId [ev] = [ev.payload] := by
  rw [payloadsOf, List.filter_cons_of_pos (by simp)]
  rfl

theorem payloadsOf_singleton_other (h : id ≠ ev.sessionId) : payloadsOf id [ev] = [] := by
  rw [payloadsOf, List.filter_cons_of_neg (by simp [h.symm])]
  rfl

theorem taken_ingestAll (hg : ∀ id, Good (ui.sessionViews id))
    (hclosed : ∀ id, (ui.sessionViews id).currentTurn = none)
    (hinert : ∀ ev ∈ evs, inert ev.payload = true) :
    Taken (payloadsOf id evs) ((ui.ingestAll evs).1.sessionViews id) := by
  induction evs using List.reverseRecOn with
  | nil => exact taken_empty (hclosed id)
  | append_singleton evs ev ih =>
    have htaken := ih fun e he => hinert e (List.mem_append_left _ he)
    rw [payloadsOf_append, Ui.ingestAll_concat]
    by_cases hid : id = ev.sessionId
    · subst hid
      rw [payloadsOf_singleton_self]
      exact taken_ingestEvent (ingestAll_tally (hg _)).1 htaken
        (hinert ev (List.mem_append_right _ List.mem_cons_self))
    · rw [payloadsOf_singleton_other hid, List.append_nil, Ui.ingestEvent_other hid]
      exact htaken

theorem ui_eq {ui ui' : Ui} (hviews : ∀ id, ui.sessionViews id = ui'.sessionViews id)
    (hnext : ui.nextDisplayId = ui'.nextDisplayId) : ui = ui' := by
  cases ui
  cases ui'
  cases hnext
  cases funext hviews
  rfl

theorem ingestAll_inert (hg : ∀ id, Good (ui.sessionViews id))
    (hnodup : ∀ id, (openKeys (ui.sessionViews id)).Nodup)
    (hinert : ∀ ev ∈ evs, inert ev.payload = true)
    (hpresent : ∀ ev ∈ evs, Present (ui.sessionViews ev.sessionId) ev.payload) :
    (ui.ingestAll evs).1.nextDisplayId = ui.nextDisplayId ∧
      ∀ id, (ui.ingestAll evs).1.sessionViews id =
        (payloadsOf id evs).foldl absorbView (ui.sessionViews id) := by
  induction evs generalizing ui with
  | nil => exact ⟨rfl, fun _ => rfl⟩
  | cons ev evs ih =>
    have hev := ingestEvent_inert (hg _) (hnodup _) (hinert ev List.mem_cons_self)
      (hpresent ev List.mem_cons_self)
    have hview : ∀ id, (ui.ingestEvent ev).1.sessionViews id =
        (payloadsOf id [ev]).foldl absorbView (ui.sessionViews id) := by
      intro id
      by_cases hid : id = ev.sessionId
      · subst hid
        rw [hev, Ui.setView_self, payloadsOf_singleton_self]
        rfl
      · rw [Ui.ingestEvent_other hid, payloadsOf_singleton_other hid]
        rfl
    have hkeys : ∀ id, openKeys ((ui.ingestEvent ev).1.sessionViews id) =
        openKeys (ui.sessionViews id) := by
      intro id
      by_cases hid : id = ev.sessionId
      · subst hid
        rw [hev, Ui.setView_self, openKeys_absorbView (hg _)]
      · rw [Ui.ingestEvent_other hid]
    obtain ⟨hnext, hviews⟩ := @ih (ui.ingestEvent ev).1
      (fun id => (@ingestAll_tally ui [ev] id (hg id)).1)
      (fun id => by rw [hkeys]; exact hnodup id)
      (fun e he => hinert e (List.mem_cons_of_mem ev he))
      (fun e he => by
        rw [Present, hkeys]
        exact hpresent e (List.mem_cons_of_mem ev he))
    refine ⟨hnext.trans (by rw [hev, Ui.setView]), fun id => ?_⟩
    rw [← List.singleton_append, payloadsOf_append, List.foldl_append, ← hview]
    exact hviews id

theorem ingestAll_again (hg : ∀ id, Good (ui.sessionViews id))
    (hinert : ∀ ev ∈ evs, inert ev.payload = true)
    (htaken : ∀ id, Taken (payloadsOf id evs) (ui.sessionViews id)) :
    (ui.ingestAll evs).1 = ui := by
  obtain ⟨hnext, hviews⟩ := ingestAll_inert hg (fun id => (htaken id).distinct) hinert
    fun ev hev => (htaken ev.sessionId).present _
      (List.mem_map_of_mem (List.mem_filter.mpr ⟨hev, decide_eq_true rfl⟩))
  exact ui_eq (fun id => (hviews id).trans (settled_absorbView (hg id) (htaken id).settled)) hnext

end Inert

theorem connectWs_eq (ui : Ui) (log : EventLog) (min : ℕ) :
    connectWs ui log min = (ui.ingestAll log.events).1 := by
  rw [connectWs, EventLog.replayFrom, if_neg (fun h => absurd h.1 (lt_irrefl 0))]
  simp only [ReplayResult.events, Nat.zero_le, decide_true, List.filter_true]

/-- The views after a reconnect are what they would be without it if and only if
all that the page had taken is inert. -/
theorem reconnect_same_iff (log : EventLog) (min : ℕ) (seen rest : List LogEvent)
    (h : log.events = (seen ++ rest).map LogEvent.event) :
    SameViews (connectWs (page seen) log min) (connectWs .new log min) ↔
      ∀ ev ∈ seen, inert ev.event.payload = true := by
  rw [connectWs_eq, connectWs_eq, h, List.map_append, page, ← ingestAll_append]
  constructor
  · intro hsame ev hev
    refine inert_of_sameViews (fun e he => ?_) hsame ev.event (List.mem_map_of_mem hev)
    obtain ⟨logged, -, rfl⟩ := List.mem_map.mp he
    exact logged.text
  · intro hinert
    have hevs : ∀ ev ∈ seen.map LogEvent.event, inert ev.payload = true := by
      intro ev hev
      obtain ⟨logged, hmem, rfl⟩ := List.mem_map.mp hev
      exact hinert logged hmem
    have hagain := ingestAll_again (fun id => (ingestAll_tally good_new).1) hevs
      fun id => taken_ingestAll (fun _ => good_new) (fun _ => rfl) hevs
    rw [← List.append_assoc, ingestAll_append, ingestAll_append, hagain, ← ingestAll_append]
    exact fun _ => rfl

def planned : LogEvent := ⟨⟨1, "s", "codex", .plan [⟨"Read the file", "Pending"⟩]⟩, rfl⟩

def begun : LogEvent := ⟨⟨2, "s", "codex", .messageChunk "Reading"⟩, by decide⟩

def finished : LogEvent := ⟨⟨3, "s", "codex", .turnComplete "end_turn"⟩, rfl⟩

def turnLog : EventLog := ⟨[planned.event, begun.event, finished.event], 1, 4, 10000⟩

theorem reconnect_same_iff_planned :
    SameViews (connectWs (page [planned]) turnLog 1) (connectWs .new turnLog 1) :=
  (reconnect_same_iff turnLog 1 [planned] [begun, finished] rfl).mpr fun ev hev => by
    cases List.mem_singleton.mp hev
    rfl

/-- A turn cut in the middle of its message has the text twice after the
reconnect, and a finished one has two cards. -/
theorem turnLog_twice :
    ¬ SameViews (connectWs (page [planned, begun]) turnLog 1) (connectWs .new turnLog 1) ∧
    ((connectWs (page [planned, begun]) turnLog 1).sessionViews "s").items =
      [.turn ⟨1, "codex", .complete, some "end_turn",
        [.plan 2 [⟨"Read the file", "Pending"⟩], .chunk 3 .message "ReadingReading"]⟩] ∧
    ((connectWs (page [planned, begun, finished]) turnLog 1).sessionViews "s").items.length = 2 ∧
    ((connectWs .new turnLog 1).sessionViews "s").items.length = 1 := by
  refine ⟨fun h => ?_, by decide, by decide, by decide⟩
  exact absurd (h "s") (by decide)

end Ccgonext.Reconnect
