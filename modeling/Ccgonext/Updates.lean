import Ccgonext.Events

/-!
# Session updates

`handle_session_update` of `acp/mod.rs`: what the reader task appends to the log
for a `session/update` notification of the agent. Where the source asks the
serializer for a text (`to_string`, `to_value`), the value carries the answer.
-/

namespace Ccgonext.Updates
open Events

inductive ContentBlock
  | text (text : String)
  | other (json : Option String)
  deriving DecidableEq, Repr

inductive ToolCallContent
  | content (content : ContentBlock)
  | diff (json : Option String)
  | terminal (terminalId : String)
  | other
  deriving DecidableEq, Repr

inductive RawOutput
  | string (text : String)
  | value (json : String)
  deriving DecidableEq, Repr

inductive ToolCallStatus
  | pending
  | inProgress
  | completed
  | failed
  deriving DecidableEq, Repr

def ToolCallStatus.wireName : ToolCallStatus → String
  | .pending => "pending"
  | .inProgress => "in_progress"
  | .completed => "completed"
  | .failed => "failed"

structure ToolCallUpdateFields where
  status : Option (Option String)
  content : Option (List ToolCallContent)
  rawOutput : Option RawOutput
  deriving DecidableEq, Repr

inductive SessionUpdate
  | agentMessageChunk (content : ContentBlock)
  | agentThoughtChunk (content : ContentBlock)
  | toolCall (toolCallId title : String) (status : ToolCallStatus)
  | toolCallUpdate (toolCallId : String) (fields : ToolCallUpdateFields)
  | plan (entries : List PlanEntry)
  | other
  deriving DecidableEq, Repr

/-- The wire name of an optional value, where serializing it gives a string. -/
def serializeOptionalEnum (value : Option (Option String)) : String :=
  value.join.getD "unknown"

def ToolCallContent.part : ToolCallContent → Option String
  | .content (.text text) => some text
  | .content (.other json) => json
  | .diff json => json
  | .terminal terminalId => some ("terminal: " ++ terminalId)
  | .other => none

def RawOutput.text : RawOutput → String
  | .string text => text
  | .value json => json

def formatToolCallOutput (fields : ToolCallUpdateFields) : Option String :=
  match (fields.content.getD []).filterMap ToolCallContent.part |>.filter (· ≠ "") with
  | [] => fields.rawOutput.map RawOutput.text
  | parts => some ("\n".intercalate parts)

def handleSessionUpdate : SessionUpdate → Option EventPayload
  | .agentMessageChunk (.text text) => if text = "" then none else some (.messageChunk text)
  | .agentMessageChunk (.other _) => none
  | .agentThoughtChunk (.text text) => if text = "" then none else some (.thoughtChunk text)
  | .agentThoughtChunk (.other _) => none
  | .toolCall toolCallId title _ => some (.toolCall toolCallId title "in_progress")
  | .toolCallUpdate toolCallId fields =>
    some (.toolCallUpdate toolCallId (serializeOptionalEnum fields.status)
      (formatToolCallOutput fields))
  | .plan entries => some (.plan entries)
  | .other => none

theorem handleSessionUpdate_chunkText {update : SessionUpdate} {payload : EventPayload}
    {text : String} (h : handleSessionUpdate update = some payload)
    (ht : payload.chunkText = some text) :
    update = .agentMessageChunk (.text text) ∧ text ≠ "" := by
  unfold handleSessionUpdate at h
  split at h
  · split at h
    · cases h
    · next hne =>
      cases h
      cases ht
      exact ⟨rfl, hne⟩
  · cases h
  · split at h
    · cases h
    · cases h
      cases ht
  all_goals
    cases h
    try cases ht

end Ccgonext.Updates
