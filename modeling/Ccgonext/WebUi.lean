import Ccgonext.Events
import Mathlib.Logic.Function.Basic

/-!
# The session views of the web page

What `ingestEvent` of `static/index.html` makes of the events: for each session
a list of items, of which a turn card takes all turn-scoped events until a
`turn_complete` closes it. `currentTurn` is the place of the open card in
`items`. A session without a view has an empty one. Numbers of items and entries
come from one counter. The timestamps are left out, and so is the drawing.
-/

namespace Ccgonext.WebUi
open Events

inductive ChunkType
  | message
  | thought
  deriving DecidableEq, Repr

inductive Entry
  | chunk (id : ℕ) (type : ChunkType) (text : String)
  | tool (id : ℕ) (toolId title status : String) (output : Option String)
  | plan (id : ℕ) (entries : List PlanEntry)
  | permission (id : ℕ) (permissionId sessionId method description : String) (resolved : Bool)
    (granted : Option Bool)
  deriving DecidableEq, Repr

inductive CardStatus
  | inProgress
  | complete
  deriving DecidableEq, Repr

structure TurnCard where
  id : ℕ
  agent : String
  status : CardStatus
  stopReason : Option String
  entries : List Entry
  deriving DecidableEq, Repr

inductive DisplayItem
  | turn (card : TurnCard)
  | stateChange (id : ℕ) (agent process turn : String)
  | raw (id : ℕ) (agent : String) (payload : EventPayload)
  deriving DecidableEq, Repr

structure SessionView where
  items : List DisplayItem
  currentTurn : Option ℕ
  deriving DecidableEq, Repr

structure Ui where
  sessionViews : String → SessionView
  nextDisplayId : ℕ

/-- The item that an event has gone into, by its place in the session's view. -/
inductive DisplayOp
  | ignore
  | upsert (sessionId : String) (item : ℕ)
  deriving DecidableEq, Repr

def Ui.new : Ui := ⟨fun _ => ⟨[], none⟩, 1⟩

def isTurnScopedEvent : EventPayload → Bool
  | .messageChunk _ | .thoughtChunk _ | .toolCall _ _ _ | .toolCallUpdate _ _ _ | .plan _
  | .permissionRequest _ _ _ | .permissionResponse _ _ | .turnComplete _ => true
  | .stateChange _ _ => false

def isTurnComplete : EventPayload → Bool
  | .turnComplete _ => true
  | _ => false

def shouldDisplayStateChange (process turn : String) : Bool :=
  process = "DEAD" ∨ process = "STARTING" ∨ process = "STOPPED" ∨ turn = "CANCELLING"

def isLineTerminator (c : Char) : Bool :=
  c = '\n' ∨ c = '\r' ∨ c.toNat = 0x2028 ∨ c.toNat = 0x2029

/-- `Some(x)` is taken for `x`. -/
def normalizeStatus (status : String) : String :=
  match status.toList with
  | 'S' :: 'o' :: 'm' :: 'e' :: '(' :: rest =>
    if rest.getLast? = some ')' ∧ rest.dropLast.all fun c => !isLineTerminator c then
      String.ofList rest.dropLast
    else status
  | _ => status

def truthy (text : Option String) : Option String := text.filter (· ≠ "")

def updateLast (test : Entry → Bool) (f : Entry → Entry) : List Entry → Option (List Entry)
  | [] => none
  | entry :: entries =>
    match updateLast test f entries with
    | some changed => some (entry :: changed)
    | none => if test entry then some (f entry :: entries) else none

namespace Entry

def isTool (toolId : String) : Entry → Bool
  | .tool _ id _ _ _ => id = toolId
  | _ => false

def isPlan : Entry → Bool
  | .plan _ _ => true
  | _ => false

def isPermission (permissionId : String) : Entry → Bool
  | .permission _ id _ _ _ _ _ => id = permissionId
  | _ => false

def updateTool (status : String) (output : Option String) : Entry → Entry
  | .tool id toolId title _ old =>
    .tool id toolId title (normalizeStatus status) ((truthy output).or (truthy old))
  | entry => entry

def updatePlan (entries : List PlanEntry) : Entry → Entry
  | .plan id _ => .plan id entries
  | entry => entry

def resolve (granted : Bool) : Entry → Entry
  | .permission id permissionId sessionId method description _ _ =>
    .permission id permissionId sessionId method description true (some granted)
  | entry => entry

end Entry

namespace TurnCard

def new (id : ℕ) (agent : String) : TurnCard := ⟨id, agent, .inProgress, none, []⟩

def push (card : TurnCard) (next : ℕ) (entry : ℕ → Entry) : TurnCard × ℕ :=
  ({ card with entries := card.entries ++ [entry next] }, next + 1)

def updateOrPush (card : TurnCard) (next : ℕ) (test : Entry → Bool) (f : Entry → Entry)
    (entry : ℕ → Entry) : TurnCard × ℕ :=
  match updateLast test f card.entries with
  | some entries => ({ card with entries := entries }, next)
  | none => card.push next entry

def mergeText (card : TurnCard) (next : ℕ) (type : ChunkType) (text : String) : TurnCard × ℕ :=
  match card.entries.getLast? with
  | some (.chunk id type' old) =>
    if type' = type then
      ({ card with entries := card.entries.dropLast ++ [.chunk id type (old ++ text)] }, next)
    else card.push next fun id => .chunk id type text
  | _ => card.push next fun id => .chunk id type text

end TurnCard

def mergeTurnEvent (card : TurnCard) (next : ℕ) (ev : SessionEvent) : TurnCard × ℕ :=
  match ev.payload with
  | .messageChunk text => card.mergeText next .message text
  | .thoughtChunk text => card.mergeText next .thought text
  | .toolCall toolId title status =>
    card.push next fun id => .tool id toolId title (normalizeStatus status) none
  | .toolCallUpdate toolId status output =>
    card.updateOrPush next (Entry.isTool toolId) (Entry.updateTool status output) fun id =>
      .tool id toolId toolId (normalizeStatus status) (truthy output)
  | .plan entries =>
    card.updateOrPush next Entry.isPlan (Entry.updatePlan entries) fun id => .plan id entries
  | .permissionRequest permissionId method description =>
    card.push next fun id =>
      .permission id permissionId ev.sessionId method description false none
  | .permissionResponse permissionId granted =>
    card.updateOrPush next (Entry.isPermission permissionId) (Entry.resolve granted) fun id =>
      .permission id permissionId ev.sessionId "permission" "" true (some granted)
  | .turnComplete stopReason =>
    ({ card with
        status := .complete
        stopReason := some (if stopReason = "" then "unknown" else stopReason) }, next)
  | .stateChange _ _ => (card, next)

def toDisplayItem (next : ℕ) (ev : SessionEvent) : DisplayItem :=
  match ev.payload with
  | .stateChange process turn => .stateChange next ev.agent process turn
  | payload => .raw next ev.agent payload

namespace Ui

def setView (ui : Ui) (sessionId : String) (view : SessionView) : Ui :=
  { ui with sessionViews := Function.update ui.sessionViews sessionId view }

def ensureCurrentTurn (ui : Ui) (ev : SessionEvent) : Ui × ℕ :=
  let view := ui.sessionViews ev.sessionId
  match view.currentTurn with
  | some turn => (ui, turn)
  | none =>
    let card := TurnCard.new ui.nextDisplayId ev.agent
    ({ ui.setView ev.sessionId ⟨view.items ++ [.turn card], some view.items.length⟩ with
        nextDisplayId := ui.nextDisplayId + 1 }, view.items.length)

def mergeAt (ui : Ui) (turn : ℕ) (ev : SessionEvent) : Ui :=
  let view := ui.sessionViews ev.sessionId
  match view.items[turn]? with
  | some (.turn card) =>
    let (card, next) := mergeTurnEvent card ui.nextDisplayId ev
    { ui.setView ev.sessionId { view with items := view.items.set turn (.turn card) } with
      nextDisplayId := next }
  | _ => ui

def closeTurn (ui : Ui) (sessionId : String) : Ui :=
  ui.setView sessionId { ui.sessionViews sessionId with currentTurn := none }

def pushItem (ui : Ui) (ev : SessionEvent) : Ui × DisplayOp :=
  let view := ui.sessionViews ev.sessionId
  let item := toDisplayItem ui.nextDisplayId ev
  ({ ui.setView ev.sessionId { view with items := view.items ++ [item] } with
      nextDisplayId := ui.nextDisplayId + 1 }, .upsert ev.sessionId view.items.length)

def ingestEvent (ui : Ui) (ev : SessionEvent) : Ui × DisplayOp :=
  if isTurnScopedEvent ev.payload then
    let (ui, turn) := ui.ensureCurrentTurn ev
    let ui := ui.mergeAt turn ev
    (if isTurnComplete ev.payload then ui.closeTurn ev.sessionId else ui,
      .upsert ev.sessionId turn)
  else
    match ev.payload with
    | .stateChange process turn =>
      if shouldDisplayStateChange process turn then ui.pushItem ev else (ui, .ignore)
    | _ => ui.pushItem ev

def ingestAll (ui : Ui) : List SessionEvent → Ui × List DisplayOp
  | [] => (ui, [])
  | ev :: evs =>
    let (ui, op) := ui.ingestEvent ev
    let (ui, ops) := ui.ingestAll evs
    (ui, op :: ops)

end Ui

def SessionView.cardAt (view : SessionView) : ℕ := view.currentTurn.getD view.items.length

def SessionView.Valid (view : SessionView) : Prop :=
  ∀ turn, view.currentTurn = some turn → turn < view.items.length

section UpdateLast
variable {test : Entry → Bool} {f : Entry → Entry} {entries entries' : List Entry}

theorem updateLast_none (h : updateLast test f entries = none) :
    ∀ entry ∈ entries, test entry = false := by
  induction entries with
  | nil => exact fun _ he => absurd he List.not_mem_nil
  | cons entry entries ih =>
    rw [updateLast] at h
    split at h
    · cases h
    · next hrest =>
      split at h
      · cases h
      · next htest =>
        intro e he
        rcases List.mem_cons.mp he with rfl | he
        · exact Bool.eq_false_iff.mpr htest
        · exact ih hrest e he

theorem updateLast_some (h : updateLast test f entries = some entries') :
    ∃ before entry after, entries = before ++ entry :: after ∧ test entry = true ∧
      (∀ e ∈ after, test e = false) ∧ entries' = before ++ f entry :: after := by
  induction entries generalizing entries' with
  | nil => cases h
  | cons first entries ih =>
    rw [updateLast] at h
    split at h
    · next changed hrest =>
      cases h
      obtain ⟨before, entry, after, rfl, htest, hafter, rfl⟩ := ih hrest
      exact ⟨first :: before, entry, after, rfl, htest, hafter, rfl⟩
    · next hrest =>
      split at h
      · next htest =>
        cases h
        exact ⟨[], first, entries, rfl, htest, updateLast_none hrest, rfl⟩
      · cases h

end UpdateLast

namespace Ui
variable {ui : Ui} {ev : SessionEvent} {evs : List SessionEvent} {id : String} {turn : ℕ}

theorem ingestAll_concat : ui.ingestAll (evs ++ [ev]) =
    (((ui.ingestAll evs).1.ingestEvent ev).1,
      (ui.ingestAll evs).2 ++ [((ui.ingestAll evs).1.ingestEvent ev).2]) := by
  induction evs generalizing ui with
  | nil => rfl
  | cons e evs ih => simp only [List.cons_append, ingestAll, ih]

theorem length_ingestAll : (ui.ingestAll evs).2.length = evs.length := by
  induction evs generalizing ui with
  | nil => rfl
  | cons e evs ih => simp only [ingestAll, List.length_cons, ih]

theorem setView_self (view : SessionView) : (ui.setView id view).sessionViews id = view := by
  unfold setView
  exact Function.update_self ..

theorem setView_other {id' : String} (h : id' ≠ id) (view : SessionView) :
    (ui.setView id view).sessionViews id' = ui.sessionViews id' := by
  unfold setView
  exact Function.update_of_ne h ..

theorem ensureCurrentTurn_other (h : id ≠ ev.sessionId) :
    (ui.ensureCurrentTurn ev).1.sessionViews id = ui.sessionViews id := by
  unfold ensureCurrentTurn
  dsimp only
  split
  · rfl
  · exact setView_other h _

theorem mergeAt_other (h : id ≠ ev.sessionId) :
    (ui.mergeAt turn ev).sessionViews id = ui.sessionViews id := by
  unfold mergeAt
  dsimp only
  split
  · exact setView_other h _
  · rfl

theorem ingestEvent_other (h : id ≠ ev.sessionId) :
    (ui.ingestEvent ev).1.sessionViews id = ui.sessionViews id := by
  unfold ingestEvent
  split
  · dsimp only
    split
    · exact (setView_other h _).trans ((mergeAt_other h).trans (ensureCurrentTurn_other h))
    · exact (mergeAt_other h).trans (ensureCurrentTurn_other h)
  · split
    · split
      · exact setView_other h _
      · rfl
    · exact setView_other h _

theorem ensureCurrentTurn_own (hv : (ui.sessionViews ev.sessionId).Valid) :
    (ui.ensureCurrentTurn ev).2 = (ui.sessionViews ev.sessionId).cardAt ∧
      ((ui.ensureCurrentTurn ev).1.sessionViews ev.sessionId).currentTurn =
        some (ui.sessionViews ev.sessionId).cardAt ∧
      (ui.sessionViews ev.sessionId).items.length ≤
        ((ui.ensureCurrentTurn ev).1.sessionViews ev.sessionId).items.length ∧
      (ui.sessionViews ev.sessionId).cardAt <
        ((ui.ensureCurrentTurn ev).1.sessionViews ev.sessionId).items.length := by
  unfold ensureCurrentTurn SessionView.cardAt
  dsimp only
  cases hc : (ui.sessionViews ev.sessionId).currentTurn with
  | some turn => exact ⟨rfl, hc, le_rfl, hv turn hc⟩
  | none =>
    refine ⟨rfl, ?_, ?_, ?_⟩
    · exact congrArg SessionView.currentTurn (setView_self _)
    · rw [show _ = _ from setView_self _]
      simp
    · rw [show _ = _ from setView_self _]
      simp

theorem mergeAt_own :
    ((ui.mergeAt turn ev).sessionViews ev.sessionId).currentTurn =
        (ui.sessionViews ev.sessionId).currentTurn ∧
      ((ui.mergeAt turn ev).sessionViews ev.sessionId).items.length =
        (ui.sessionViews ev.sessionId).items.length := by
  unfold mergeAt
  dsimp only
  split
  · rw [show _ = _ from setView_self _]
    exact ⟨rfl, List.length_set⟩
  · exact ⟨rfl, rfl⟩

theorem ingestEvent_turn (hv : (ui.sessionViews ev.sessionId).Valid)
    (h : isTurnScopedEvent ev.payload = true) :
    (ui.ingestEvent ev).2 = .upsert ev.sessionId (ui.sessionViews ev.sessionId).cardAt ∧
      ((ui.ingestEvent ev).1.sessionViews ev.sessionId).currentTurn =
        (if isTurnComplete ev.payload then none
          else some (ui.sessionViews ev.sessionId).cardAt) ∧
      (ui.sessionViews ev.sessionId).items.length ≤
        ((ui.ingestEvent ev).1.sessionViews ev.sessionId).items.length ∧
      (ui.sessionViews ev.sessionId).cardAt <
        ((ui.ingestEvent ev).1.sessionViews ev.sessionId).items.length := by
  obtain ⟨hat, hcur, hle, hlt⟩ := ensureCurrentTurn_own hv
  obtain ⟨hcur', hlen⟩ := @mergeAt_own (ui.ensureCurrentTurn ev).1 ev (ui.ensureCurrentTurn ev).2
  rw [← hlen] at hle hlt
  rw [← hcur'] at hcur
  unfold ingestEvent
  simp only [h, ↓reduceIte]
  refine ⟨by rw [hat], ?_⟩
  split
  · rw [closeTurn, setView_self]
    exact ⟨rfl, hle, hlt⟩
  · exact ⟨hcur, hle, hlt⟩

theorem ingestEvent_item (h : isTurnScopedEvent ev.payload = false) :
    ((ui.ingestEvent ev).1.sessionViews ev.sessionId).currentTurn =
        (ui.sessionViews ev.sessionId).currentTurn ∧
      (ui.sessionViews ev.sessionId).items.length ≤
        ((ui.ingestEvent ev).1.sessionViews ev.sessionId).items.length := by
  have hpush : ((ui.pushItem ev).1.sessionViews ev.sessionId).currentTurn =
        (ui.sessionViews ev.sessionId).currentTurn ∧
      (ui.sessionViews ev.sessionId).items.length ≤
        ((ui.pushItem ev).1.sessionViews ev.sessionId).items.length := by
    unfold pushItem
    dsimp only
    rw [show _ = _ from setView_self _]
    simp
  unfold ingestEvent
  simp only [h, Bool.false_eq_true, ↓reduceIte]
  split
  · split
    · exact hpush
    · exact ⟨rfl, le_rfl⟩
  · exact hpush

theorem isTurnScopedEvent_of_complete {payload : EventPayload}
    (h : isTurnComplete payload = true) : isTurnScopedEvent payload = true := by
  cases payload <;> first | rfl | cases h

theorem cardAt_open {view : SessionView} (h : view.cardAt < view.items.length) :
    view.currentTurn = some view.cardAt := by
  unfold SessionView.cardAt at h ⊢
  cases hc : view.currentTurn with
  | some turn => rfl
  | none =>
    rw [hc] at h
    exact absurd h (lt_irrefl _)

theorem ingestEvent_view (hv : (ui.sessionViews id).Valid) :
    ((ui.ingestEvent ev).1.sessionViews id).Valid ∧
      (ui.sessionViews id).items.length ≤ ((ui.ingestEvent ev).1.sessionViews id).items.length ∧
      ∀ card < (ui.sessionViews id).items.length,
        ((ui.ingestEvent ev).1.sessionViews id).currentTurn = some card →
          (ui.sessionViews id).currentTurn = some card ∧
            ¬ (ev.sessionId = id ∧ isTurnComplete ev.payload = true) := by
  by_cases hid : id = ev.sessionId
  · subst hid
    cases hscoped : isTurnScopedEvent ev.payload with
    | true =>
      obtain ⟨-, hcur, hle, hlt⟩ := ingestEvent_turn hv hscoped
      cases hdone : isTurnComplete ev.payload with
      | true =>
        have hnone : ((ui.ingestEvent ev).1.sessionViews ev.sessionId).currentTurn = none := by
          rw [hcur, hdone, if_pos rfl]
        refine ⟨fun turn ht => ?_, hle, fun card _ hc => ?_⟩
        · rw [hnone] at ht
          cases ht
        · rw [hnone] at hc
          cases hc
      | false =>
        have hsome : ((ui.ingestEvent ev).1.sessionViews ev.sessionId).currentTurn =
            some (ui.sessionViews ev.sessionId).cardAt := by
          rw [hcur, hdone, if_neg Bool.false_ne_true]
        refine ⟨fun turn ht => ?_, hle, fun card hcard hc => ?_⟩
        · rw [hsome] at ht
          cases ht
          exact hlt
        · rw [hsome] at hc
          cases hc
          exact ⟨cardAt_open hcard, by simp⟩
    | false =>
      obtain ⟨hcur, hle⟩ := ingestEvent_item hscoped
      refine ⟨fun turn ht => ?_, hle, fun card _ hc => ⟨hcur ▸ hc, ?_⟩⟩
      · rw [hcur] at ht
        exact Nat.lt_of_lt_of_le (hv turn ht) hle
      · rintro ⟨-, hdone⟩
        rw [isTurnScopedEvent_of_complete hdone] at hscoped
        cases hscoped
  · rw [ingestEvent_other hid]
    exact ⟨hv, le_rfl, fun card _ hc => ⟨hc, fun h => hid h.1.symm⟩⟩

end Ui

end Ccgonext.WebUi
