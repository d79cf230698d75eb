import Mathlib.Data.List.Basic
import Mathlib.Data.List.Perm.Basic
import Mathlib.Data.List.Range

/-!
# Asking several agents

`execute_ask_agents` of `mcp/tools.rs`: a task for each request, joined in the
order in which they finish. A task that was not cancelled returns the place of
its result, the place of one that was is looked up by the id of the task. The
ids are tokio's, which gives no two tasks of the set the same.
-/

namespace Ccgonext.AskAgents

structure AgentRequest where
  agent : String
  message : String
  deriving DecidableEq, Repr

structure AgentResult where
  agent : String
  success : Bool
  response : Option String
  error : Option String
  deriving DecidableEq, Repr

abbrev TaskId := ℕ

/-- What becomes of a task: `ask_single_agent` returns or panics, with a message
or with another payload, or the task is cancelled. -/
inductive Outcome
  | answer (response : String)
  | error (error : String)
  | panicked (message : Option String)
  | cancelled (joinError : String)
  deriving DecidableEq, Repr

structure Task where
  id : TaskId
  request : AgentRequest
  outcome : Outcome
  deriving DecidableEq, Repr

/-- What `join_next_with_id` gives. -/
inductive Joined
  | ok (taskId : TaskId) (idx : ℕ) (result : AgentResult)
  | err (taskId : TaskId) (joinError : String)
  deriving DecidableEq, Repr

def AgentResult.answered (agent response : String) : AgentResult :=
  ⟨agent, true, some response, none⟩

def AgentResult.failed (agent error : String) : AgentResult := ⟨agent, false, none, some error⟩

def Task.join (task : Task) (idx : ℕ) : Joined :=
  match task.outcome with
  | .answer response => .ok task.id idx (.answered task.request.agent response)
  | .error error => .ok task.id idx (.failed task.request.agent error)
  | .panicked message =>
    .ok task.id idx (.failed task.request.agent
      ("task panicked: " ++ message.getD "unknown panic"))
  | .cancelled joinError => .err task.id joinError

/-- `task_id_to_idx` after the tasks have been spawned, the first at `idx`. -/
def taskIdToIdx (map : List (TaskId × ℕ)) (idx : ℕ) : List Task → List (TaskId × ℕ)
  | [] => map
  | task :: tasks => taskIdToIdx ((task.id, idx) :: map) (idx + 1) tasks

def collect (map : List (TaskId × ℕ)) (agentNames : List String)
    (results : List (Option AgentResult)) : Joined → List (Option AgentResult)
  | .ok _ idx result => results.set idx (some result)
  | .err taskId joinError =>
    match map.lookup taskId with
    | some idx =>
      results.set idx (some (.failed (agentNames.getD idx "") ("task cancelled: " ++ joinError)))
    | none => results

def finish (agentNames : List String) (results : List (Option AgentResult)) : List AgentResult :=
  results.zipIdx.map fun (result, idx) =>
    result.getD (.failed (agentNames.getD idx "") "internal error: result not collected")

/-- The results where the tasks finish in the given order. -/
def executeAskAgents (tasks : List Task) (order : List ℕ) : List AgentResult :=
  let agentNames := tasks.map fun task => task.request.agent
  let map := taskIdToIdx [] 0 tasks
  let joined := order.filterMap fun idx => tasks[idx]?.map fun task => task.join idx
  finish agentNames (joined.foldl (collect map agentNames) (List.replicate tasks.length none))

def Outcome.response : Outcome → Option String
  | .answer response => some response
  | .error _ | .panicked _ | .cancelled _ => none

def Outcome.fault : Outcome → Option String
  | .answer _ => none
  | .error e => some e
  | .panicked (some message) => some ("task panicked: " ++ message)
  | .panicked none => some "task panicked: unknown panic"
  | .cancelled joinError => some ("task cancelled: " ++ joinError)

def Task.result (task : Task) : AgentResult where
  agent := task.request.agent
  success := task.outcome.fault.isNone
  response := task.outcome.response
  error := task.outcome.fault

/-- Each request has its agent's result, which comes of its own task alone. -/
def ByTask (tasks : List Task) (results : List AgentResult) : Prop :=
  results.length = tasks.length ∧
    ∀ (i : ℕ) (task : Task), tasks[i]? = some task → ∃ result : AgentResult,
      results[i]? = some result ∧ result.agent = task.request.agent ∧ result = task.result ∧
      (result.success = true ↔ result.response.isSome = true ∧ result.error = none)

section Collect
variable {tasks : List Task} {map : List (TaskId × ℕ)} {order : List ℕ}
  {results : List (Option AgentResult)} {names : List String} {task : Task} {idx k : ℕ}

theorem lookup_taskIdToIdx_of_not_mem {taskId : TaskId} (h : taskId ∉ tasks.map Task.id) :
    (taskIdToIdx map idx tasks).lookup taskId = map.lookup taskId := by
  induction tasks generalizing map idx with
  | nil => rfl
  | cons task tasks ih =>
    rw [List.map_cons, List.mem_cons, not_or] at h
    rw [taskIdToIdx, ih h.2, List.lookup_cons, beq_eq_false_iff_ne.mpr h.1]

theorem lookup_taskIdToIdx (hids : (tasks.map Task.id).Nodup) (hk : tasks[k]? = some task) :
    (taskIdToIdx map idx tasks).lookup task.id = some (idx + k) := by
  induction tasks generalizing map idx k with
  | nil => cases hk
  | cons first tasks ih =>
    rw [List.map_cons, List.nodup_cons] at hids
    cases k with
    | zero =>
      rw [List.getElem?_cons_zero, Option.some.injEq] at hk
      subst hk
      rw [taskIdToIdx, lookup_taskIdToIdx_of_not_mem hids.1, List.lookup_cons, beq_self_eq_true]
      rfl
    | succ k =>
      rw [List.getElem?_cons_succ] at hk
      rw [taskIdToIdx, ih hids.2 hk, Nat.add_assoc, Nat.add_comm 1]

theorem collect_join (hids : (tasks.map Task.id).Nodup) (hk : tasks[k]? = some task)
    (results : List (Option AgentResult)) :
    collect (taskIdToIdx [] 0 tasks) (tasks.map fun task => task.request.agent) results
      (task.join k) = results.set k (some task.result) := by
  unfold Task.join Task.result
  cases task.outcome with
  | answer response | error e => rfl
  | panicked message => cases message <;> rfl
  | cancelled joinError =>
    have hname : (tasks.map fun task => task.request.agent).getD k "" = task.request.agent := by
      rw [List.getD_eq_getElem?_getD, List.getElem?_map, hk]
      rfl
    rw [collect, lookup_taskIdToIdx hids hk]
    dsimp only
    rw [Nat.zero_add, hname]
    rfl

theorem foldl_join (hids : (tasks.map Task.id).Nodup) (hlen : results.length = tasks.length)
    (k : ℕ) :
    ((order.filterMap fun idx => tasks[idx]?.map fun task => task.join idx).foldl
        (collect (taskIdToIdx [] 0 tasks) (tasks.map fun task => task.request.agent))
        results)[k]? =
      if k ∈ order then tasks[k]?.map fun task => some task.result else results[k]? := by
  induction order generalizing results with
  | nil => rfl
  | cons idx order ih =>
    cases htask : tasks[idx]? with
    | none =>
      rw [List.filterMap_cons_none (by rw [htask]; rfl), ih hlen]
      by_cases hk : k = idx
      · subst hk
        have hout : results[k]? = none := by
          rw [List.getElem?_eq_none_iff, hlen]
          exact List.getElem?_eq_none_iff.mp htask
        rw [htask, hout, Option.map_none, ite_self, ite_self]
      · simp only [List.mem_cons, hk, false_or]
    | some task =>
      rw [List.filterMap_cons_some (b := task.join idx) (by rw [htask]; rfl), List.foldl_cons,
        collect_join hids htask, ih (by rw [List.length_set, hlen])]
      by_cases hk : k = idx
      · subst hk
        have hlt : k < results.length := by
          rw [hlen]
          exact (List.getElem?_eq_some_iff.mp htask).1
        rw [List.getElem?_set_self hlt, htask, Option.map_some, ite_self,
          if_pos List.mem_cons_self]
      · rw [List.getElem?_set_ne (Ne.symm hk)]
        simp only [List.mem_cons, hk, false_or]

theorem getElem?_finish (names : List String) (results : List (Option AgentResult)) (k : ℕ) :
    (finish names results)[k]? = results[k]?.map fun result =>
      result.getD (.failed (names.getD k "") "internal error: result not collected") := by
  rw [finish, List.getElem?_map, List.getElem?_zipIdx, Option.map_map, Nat.zero_add]
  rfl

theorem executeAskAgents_eq (hids : (tasks.map Task.id).Nodup)
    (horder : order.Perm (List.range tasks.length)) :
    executeAskAgents tasks order = tasks.map Task.result := by
  have hlen : (List.replicate tasks.length (none : Option AgentResult)).length = tasks.length :=
    List.length_replicate
  refine List.ext_getElem? fun k => ?_
  rw [executeAskAgents, getElem?_finish, foldl_join hids hlen, List.getElem?_map]
  cases htask : tasks[k]? with
  | some task =>
    have hlt : k < tasks.length := (List.getElem?_eq_some_iff.mp htask).1
    rw [if_pos (horder.mem_iff.mpr (List.mem_range.mpr hlt))]
    rfl
  | none =>
    have hle : tasks.length ≤ k := List.getElem?_eq_none_iff.mp htask
    have hout : k ∉ order := fun hmem =>
      absurd (List.mem_range.mp (horder.mem_iff.mp hmem)) (Nat.not_lt_of_le hle)
    rw [if_neg hout, List.getElem?_eq_none_iff.mpr (hlen.trans_le hle)]
    rfl

theorem result_success (task : Task) :
    task.result.success = true ↔ task.result.response.isSome = true ∧ task.result.error = none := by
  cases h : task.outcome with
  | panicked message => cases message <;> simp [Task.result, h, Outcome.fault, Outcome.response]
  | _ => simp [Task.result, h, Outcome.fault, Outcome.response]

/-- Each request has one result, that of its own task, whatever the others come to
and whichever is first. -/
theorem results_by_task (tasks : List Task) (order : List ℕ) (hids : (tasks.map Task.id).Nodup)
    (horder : order.Perm (List.range tasks.length)) :
    ByTask tasks (executeAskAgents tasks order) := by
  rw [executeAskAgents_eq hids horder]
  refine ⟨List.length_map .., fun i task htask => ⟨task.result, ?_, ?_⟩⟩
  · rw [List.getElem?_map, htask]
    rfl
  · exact ⟨rfl, rfl, result_success task⟩

def threeTasks : List Task :=
  [⟨11, ⟨"codex", "review"⟩, .cancelled "task 11 was cancelled"⟩,
    ⟨12, ⟨"gemini", "review"⟩, .answer "fine"⟩,
    ⟨13, ⟨"opencode", "review"⟩, .panicked none⟩]

theorem results_by_task_threeTasks :
    ByTask threeTasks (executeAskAgents threeTasks [2, 0, 1]) ∧
    executeAskAgents threeTasks [2, 0, 1] =
      [⟨"codex", false, none, some "task cancelled: task 11 was cancelled"⟩,
        ⟨"gemini", true, some "fine", none⟩,
        ⟨"opencode", false, none, some "task panicked: unknown panic"⟩] :=
  ⟨results_by_task threeTasks [2, 0, 1] (by decide) (by decide), by decide⟩

end Collect

end Ccgonext.AskAgents
