import Ccgonext.Updates
import Ccgonext.WebUi

/-!
# The status of a tool call

What becomes of the status of a tool call between the agent and the page. A
notification may leave the status out: in a `tool_call` it is `pending` then, in
a `tool_call_update` it stays as it was. `handle_session_update` does not read
the first and makes `unknown` of an update without one, and the page shows what
it is given.
-/

namespace Ccgonext.ToolStatus
open Events Updates WebUi

/-- The two notifications of the agent about a tool call, as it writes them. -/
inductive ToolNotification
  | toolCall (toolCallId title : String) (status : Option ToolCallStatus)
  | toolCallUpdate (toolCallId : String) (status : Option ToolCallStatus)
    (content : Option (List ToolCallContent)) (rawOutput : Option RawOutput)
  deriving DecidableEq, Repr

namespace ToolNotification

def toolCallId : ToolNotification → String
  | .toolCall id _ _ | .toolCallUpdate id _ _ _ => id

def status : ToolNotification → Option ToolCallStatus
  | .toolCall _ _ status | .toolCallUpdate _ status _ _ => status

def parse : ToolNotification → SessionUpdate
  | .toolCall id title status => .toolCall id title (status.getD .pending)
  | .toolCallUpdate id status content rawOutput =>
    .toolCallUpdate id ⟨status.map fun s => some s.wireName, content, rawOutput⟩

def isCall : ToolNotification → Bool
  | .toolCall _ _ _ => true
  | .toolCallUpdate _ _ _ _ => false

end ToolNotification

def isToolPayload : EventPayload → Bool
  | .toolCall _ _ _ | .toolCallUpdate _ _ _ => true
  | _ => false

structure OtherPayload where
  payload : EventPayload
  notTool : isToolPayload payload = false
  deriving DecidableEq, Repr

inductive TurnUpdate
  | tool (note : ToolNotification)
  | other (event : OtherPayload)
  deriving DecidableEq, Repr

def TurnUpdate.payload : TurnUpdate → Option EventPayload
  | .tool note => handleSessionUpdate note.parse
  | .other event => some event.payload

def TurnUpdate.note : TurnUpdate → Option ToolNotification
  | .tool note => some note
  | .other _ => none

/-- The card of a turn after the updates, and the next number to give out. The
events are numbered from `seq`. -/
def showTurn (sessionId agent : String) (seq next : ℕ) (updates : List TurnUpdate) :
    TurnCard × ℕ :=
  ((updates.filterMap TurnUpdate.payload).mapIdx
      fun k payload => (⟨seq + k, sessionId, agent, payload⟩ : SessionEvent)).foldl
    (fun turn ev => mergeTurnEvent turn.1 turn.2 ev) (TurnCard.new next agent, next + 1)

/-- `entry.status || 'pending'`. -/
def statusLabel (status : String) : String := if status = "" then "pending" else status

def shownStatus (toolId : String) : Entry → Option String
  | .tool _ id _ status _ => if id = toolId then some (statusLabel status) else none
  | _ => none

def shownStatuses (card : TurnCard) (toolId : String) : List String :=
  card.entries.filterMap (shownStatus toolId)

def notesOf (toolId : String) (updates : List TurnUpdate) : List ToolNotification :=
  (updates.filterMap TurnUpdate.note).filter fun note => note.toolCallId = toolId

def latestStatus (toolId : String) (updates : List TurnUpdate) : Option ToolCallStatus :=
  ((notesOf toolId updates).filterMap ToolNotification.status).getLast?

def ShowsLatest (sessionId agent : String) (seq next : ℕ) (updates : List TurnUpdate) : Prop :=
  ∀ toolId status, latestStatus toolId updates = some status →
    shownStatuses (showTurn sessionId agent seq next updates).1 toolId ≠ [] ∧
      ∀ text ∈ shownStatuses (showTurn sessionId agent seq next updates).1 toolId,
        text = status.wireName

def closing : List ToolNotification → List ToolNotification
  | [] => []
  | [note] => [note]
  | note :: note' :: notes =>
    if note'.isCall then note :: closing (note' :: notes) else closing (note' :: notes)

def ToolNotification.Gives (status : ToolCallStatus) : ToolNotification → Prop
  | .toolCall _ _ _ => status = .inProgress
  | .toolCallUpdate _ own _ _ => own = some status

def ToolNotification.text : ToolNotification → String
  | .toolCall _ _ _ => "in_progress"
  | .toolCallUpdate _ status _ _ => (status.map ToolCallStatus.wireName).getD "unknown"

theorem wireName_injective {s t : ToolCallStatus} (h : s.wireName = t.wireName) : s = t := by
  cases s <;> cases t <;> first | rfl | (revert h; decide)

theorem wireName_ne_unknown (s : ToolCallStatus) : s.wireName ≠ "unknown" := by
  cases s <;> decide

theorem statusLabel_wireName (s : ToolCallStatus) :
    statusLabel (normalizeStatus s.wireName) = s.wireName := by
  cases s <;> decide

theorem statusLabel_serialized (own : Option ToolCallStatus) :
    statusLabel (normalizeStatus
        (serializeOptionalEnum (own.map fun s => some s.wireName))) =
      (own.map ToolCallStatus.wireName).getD "unknown" := by
  cases own with
  | none => decide
  | some own => exact statusLabel_wireName own

theorem text_eq_iff (note : ToolNotification) (s : ToolCallStatus) :
    note.text = s.wireName ↔ note.Gives s := by
  cases note with
  | toolCall id title own =>
    constructor
    · intro h
      exact (wireName_injective (s := .inProgress) h).symm
    · intro h
      exact congrArg ToolCallStatus.wireName h.symm
  | toolCallUpdate id own content rawOutput =>
    cases own with
    | none =>
      constructor
      · intro h
        exact absurd h.symm (wireName_ne_unknown s)
      · intro h
        cases h
    | some own =>
      constructor
      · intro h
        exact congrArg some (wireName_injective h)
      · intro h
        cases h
        rfl

section Closing
variable {note : ToolNotification} {notes : List ToolNotification}

theorem closing_ne_nil : closing (note :: notes) ≠ [] := by
  induction notes generalizing note with
  | nil => exact List.cons_ne_nil _ _
  | cons note' notes ih =>
    rw [closing]
    split
    · exact List.cons_ne_nil _ _
    · exact ih

theorem closing_concat : closing (notes ++ [note]) =
    (if note.isCall then closing notes else (closing notes).dropLast) ++ [note] := by
  induction notes with
  | nil => cases hcall : note.isCall <;> simp [closing]
  | cons first notes ih =>
    cases notes with
    | nil => cases hcall : note.isCall <;> simp [closing, hcall]
    | cons second notes =>
      rw [List.cons_append, List.cons_append, closing, closing]
      rw [List.cons_append] at ih
      rw [ih]
      cases second.isCall with
      | true =>
        cases note.isCall with
        | true => rfl
        | false => simp [List.dropLast_cons_of_ne_nil closing_ne_nil]
      | false => rfl

end Closing

section Entries
variable {toolId : String} {entries entries' : List Entry} {f : Entry → Entry}

theorem shownStatus_none {entry : Entry} (h : entry.isTool toolId = false) :
    shownStatus toolId entry = none := by
  cases entry with
  | tool id own title status output =>
    rw [Entry.isTool, decide_eq_false_iff_not] at h
    exact if_neg h
  | chunk | plan | permission => rfl

theorem shownStatus_some {entry : Entry} (h : entry.isTool toolId = true) :
    ∃ text, shownStatus toolId entry = some text := by
  cases entry with
  | tool id own title status output =>
    rw [Entry.isTool, decide_eq_true_iff] at h
    exact ⟨_, if_pos h⟩
  | chunk | plan | permission => cases h

theorem shown_nil (h : ∀ entry ∈ entries, entry.isTool toolId = false) :
    entries.filterMap (shownStatus toolId) = [] :=
  List.filterMap_eq_nil_iff.mpr fun entry he => shownStatus_none (h entry he)

theorem shown_updateLast {text : String}
    (hf : ∀ entry, entry.isTool toolId = true → shownStatus toolId (f entry) = some text)
    (h : updateLast (Entry.isTool toolId) f entries = some entries') :
    entries'.filterMap (shownStatus toolId) =
      (entries.filterMap (shownStatus toolId)).dropLast ++ [text] := by
  obtain ⟨before, entry, after, rfl, htest, hafter, rfl⟩ := updateLast_some h
  obtain ⟨old, hold⟩ := shownStatus_some htest
  simp only [List.filterMap_append, List.filterMap_cons, hf entry htest, hold, shown_nil hafter,
    List.dropLast_concat]

theorem shown_updateLast_same {test : Entry → Bool}
    (hf : ∀ entry, test entry = true → shownStatus toolId (f entry) = shownStatus toolId entry)
    (h : updateLast test f entries = some entries') :
    entries'.filterMap (shownStatus toolId) = entries.filterMap (shownStatus toolId) := by
  obtain ⟨before, entry, after, rfl, htest, -, rfl⟩ := updateLast_some h
  simp only [List.filterMap_append, List.filterMap_cons, hf entry htest]

end Entries

section Merge
variable {toolId : String} {card : TurnCard} {next : ℕ} {ev : SessionEvent}

theorem shown_push (entry : ℕ → Entry) : shownStatuses (card.push next entry).1 toolId =
    shownStatuses card toolId ++ (shownStatus toolId (entry next)).toList := by
  rw [shownStatuses, TurnCard.push, List.filterMap_append]
  cases h : shownStatus toolId (entry next) <;> simp [shownStatuses, h]

theorem shown_updateOrPush_same {test : Entry → Bool} {f : Entry → Entry} {entry : ℕ → Entry}
    (hf : ∀ e, test e = true → shownStatus toolId (f e) = shownStatus toolId e)
    (hnew : shownStatus toolId (entry next) = none) :
    shownStatuses (card.updateOrPush next test f entry).1 toolId = shownStatuses card toolId := by
  rw [TurnCard.updateOrPush]
  split
  · next hchange => exact shown_updateLast_same hf hchange
  · rw [shown_push, hnew]
    exact List.append_nil _

theorem shown_mergeText {type : ChunkType} {text : String} :
    shownStatuses (card.mergeText next type text).1 toolId = shownStatuses card toolId := by
  rw [TurnCard.mergeText]
  split
  · next id type' old hlast =>
    split
    · obtain ⟨entries, hentries⟩ := List.getLast?_eq_some_iff.mp hlast
      simp only [shownStatuses, hentries, List.dropLast_concat, List.filterMap_append]
      rfl
    · exact (shown_push _).trans (List.append_nil _)
  · exact (shown_push _).trans (List.append_nil _)

theorem shown_other (h : isToolPayload ev.payload = false) :
    shownStatuses (mergeTurnEvent card next ev).1 toolId = shownStatuses card toolId := by
  rw [mergeTurnEvent]
  cases hp : ev.payload with
  | messageChunk | thoughtChunk => exact shown_mergeText
  | toolCall | toolCallUpdate =>
    rw [hp] at h
    cases h
  | plan =>
    refine shown_updateOrPush_same (fun e he => ?_) rfl
    cases e with
    | plan => rfl
    | chunk | tool | permission => cases he
  | permissionRequest => exact (shown_push _).trans (List.append_nil _)
  | permissionResponse =>
    refine shown_updateOrPush_same (fun e he => ?_) rfl
    cases e with
    | permission => rfl
    | chunk | tool | plan => cases he
  | turnComplete | stateChange => rfl

theorem shown_toolCall {id title status : String} (hp : ev.payload = .toolCall id title status) :
    shownStatuses (mergeTurnEvent card next ev).1 toolId =
      if id = toolId then shownStatuses card toolId ++ [statusLabel (normalizeStatus status)]
      else shownStatuses card toolId := by
  rw [mergeTurnEvent, hp]
  refine (shown_push _).trans ?_
  rw [shownStatus]
  split
  · rfl
  · exact List.append_nil _

theorem shown_toolCallUpdate {id status : String} {output : Option String}
    (hp : ev.payload = .toolCallUpdate id status output) :
    shownStatuses (mergeTurnEvent card next ev).1 toolId =
      if id = toolId then
        (shownStatuses card toolId).dropLast ++ [statusLabel (normalizeStatus status)]
      else shownStatuses card toolId := by
  rw [mergeTurnEvent, hp]
  dsimp only
  by_cases hid : id = toolId
  · subst hid
    rw [if_pos rfl, TurnCard.updateOrPush]
    split
    · next entries hchange =>
      refine shown_updateLast (fun entry he => ?_) hchange
      cases entry with
      | tool number own title old output' =>
        rw [Entry.isTool, decide_eq_true_iff] at he
        exact if_pos he
      | chunk | plan | permission => cases he
    · next hnone =>
      have hnil : shownStatuses card id = [] := shown_nil (updateLast_none hnone)
      rw [shown_push, hnil]
      exact congrArg Option.toList (if_pos rfl)
  · rw [if_neg hid]
    refine shown_updateOrPush_same (fun entry he => ?_) (if_neg hid)
    cases entry with
    | tool number own title old output' =>
      rw [Entry.isTool, decide_eq_true_iff] at he
      subst he
      exact (if_neg hid).trans (if_neg hid).symm
    | chunk | plan | permission => cases he

theorem shown_note {note : ToolNotification}
    (h : handleSessionUpdate note.parse = some ev.payload) :
    shownStatuses (mergeTurnEvent card next ev).1 toolId =
      if note.toolCallId = toolId then
        (if note.isCall then shownStatuses card toolId
          else (shownStatuses card toolId).dropLast) ++ [note.text]
      else shownStatuses card toolId := by
  cases note with
  | toolCall id title own =>
    have hlabel : statusLabel (normalizeStatus "in_progress") = "in_progress" :=
      statusLabel_wireName .inProgress
    rw [shown_toolCall (Option.some.inj h).symm, hlabel]
    rfl
  | toolCallUpdate id own content rawOutput =>
    rw [shown_toolCallUpdate (Option.some.inj h).symm, show _ = _ from statusLabel_serialized own]
    rfl

end Merge

section Turn
variable {sessionId agent : String} {seq next : ℕ} {updates : List TurnUpdate}

theorem handleSessionUpdate_note (note : ToolNotification) :
    ∃ payload, handleSessionUpdate note.parse = some payload := by
  cases note <;> exact ⟨_, rfl⟩

theorem showTurn_concat (update : TurnUpdate) {payload : EventPayload}
    (h : update.payload = some payload) :
    showTurn sessionId agent seq next (updates ++ [update]) =
      mergeTurnEvent (showTurn sessionId agent seq next updates).1
        (showTurn sessionId agent seq next updates).2
        ⟨seq + (updates.filterMap TurnUpdate.payload).length, sessionId, agent, payload⟩ := by
  rw [showTurn, List.filterMap_append, List.filterMap_cons_some h, List.filterMap_nil,
    List.mapIdx_concat, List.foldl_concat]
  rfl

theorem notesOf_tool (toolId : String) (note : ToolNotification) :
    notesOf toolId (updates ++ [.tool note]) =
      if note.toolCallId = toolId then notesOf toolId updates ++ [note]
      else notesOf toolId updates := by
  simp only [notesOf, List.filterMap_append, List.filter_append]
  by_cases hid : note.toolCallId = toolId <;> simp [TurnUpdate.note, hid]

theorem notesOf_other (toolId : String) (event : OtherPayload) :
    notesOf toolId (updates ++ [.other event]) = notesOf toolId updates := by
  simp only [notesOf, List.filterMap_append, List.filter_append]
  exact List.append_nil _

theorem shown_closing (toolId : String) :
    shownStatuses (showTurn sessionId agent seq next updates).1 toolId =
      (closing (notesOf toolId updates)).map ToolNotification.text := by
  induction updates using List.reverseRecOn with
  | nil => rfl
  | append_singleton updates update ih =>
    cases update with
    | tool note =>
      obtain ⟨payload, hpayload⟩ := handleSessionUpdate_note note
      rw [showTurn_concat (.tool note) hpayload, shown_note hpayload, ih, notesOf_tool]
      by_cases hid : note.toolCallId = toolId
      · rw [if_pos hid, if_pos hid, closing_concat]
        cases note.isCall <;> simp [List.map_dropLast]
      · rw [if_neg hid, if_neg hid]
    | other event =>
      rw [showTurn_concat (.other event) rfl, shown_other event.notTool, ih,
        notesOf_other]

/-- The page shows every tool call with the latest status it was told if and only
if each notification that closes an entry gives that status: an update that
carries it, or a `tool_call` where it is `in_progress`. -/
theorem shows_latest_iff (sessionId agent : String) (seq next : ℕ) (updates : List TurnUpdate) :
    ShowsLatest sessionId agent seq next updates ↔
      ∀ toolId status, latestStatus toolId updates = some status →
        ∀ note ∈ closing (notesOf toolId updates), note.Gives status := by
  constructor
  · intro h toolId status hlatest note hnote
    obtain ⟨-, hall⟩ := h toolId status hlatest
    rw [shown_closing] at hall
    exact (text_eq_iff note status).mp (hall _ (List.mem_map_of_mem hnote))
  · intro h toolId status hlatest
    rw [shown_closing]
    refine ⟨fun hnil => ?_, fun text htext => ?_⟩
    · have hnone : closing (notesOf toolId updates) = [] := List.map_eq_nil_iff.mp hnil
      cases hnotes : notesOf toolId updates with
      | nil =>
        rw [latestStatus, hnotes] at hlatest
        cases hlatest
      | cons note notes =>
        rw [hnotes] at hnone
        exact closing_ne_nil hnone
    · obtain ⟨note, hnote, rfl⟩ := List.mem_map.mp htext
      exact (text_eq_iff note status).mpr (h toolId status hlatest note hnote)

def patchedTurn : List TurnUpdate :=
  [.tool (.toolCall "call_1" "Read file" none),
    .tool (.toolCallUpdate "call_1" (some .completed) none none),
    .tool (.toolCallUpdate "call_1" none (some [.content (.text "12 lines")]) none),
    .tool (.toolCall "call_2" "Cached search" (some .completed))]

/-- An update that brings the output of a completed call makes it `unknown`, and
a call that is announced as completed is in progress. -/
theorem patchedTurn_shown :
    ¬ ShowsLatest "s" "codex" 1 1 patchedTurn ∧
    latestStatus "call_1" patchedTurn = some .completed ∧
    shownStatuses (showTurn "s" "codex" 1 1 patchedTurn).1 "call_1" = ["unknown"] ∧
    latestStatus "call_2" patchedTurn = some .completed ∧
    shownStatuses (showTurn "s" "codex" 1 1 patchedTurn).1 "call_2" = ["in_progress"] := by
  have hshown : shownStatuses (showTurn "s" "codex" 1 1 patchedTurn).1 "call_1" = ["unknown"] := by
    decide
  refine ⟨fun h => ?_, by decide, hshown, by decide, by decide⟩
  obtain ⟨-, hall⟩ := h "call_1" .completed (by decide)
  rw [hshown] at hall
  exact absurd (hall "unknown" List.mem_cons_self) (by decide)

end Turn

end Ccgonext.ToolStatus
