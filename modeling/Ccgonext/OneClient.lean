import Ccgonext.Manager
import Ccgonext.Lib.Runs
import Ccgonext.Lib.Pool

/-!
# One client for each key

The registry holds one session for each key, but a session that the reaper took
out of it still has its client until its shutdown takes that, and whoever was
handed the session can ask it again. At most one session of a key has a client or
starts one as long as `get_or_create` replaces a session only after it has come
to rest, and nobody asks a session that has been replaced.
-/

namespace Ccgonext.OneClient
open Lib Lib.Runs Lib.Pool Session Manager

def starting : AskPc → Bool
  | .setProcess next =>
    match next with
    | .fail _ | .prompting => true
    | .spawn | .startSeq | .touch .. | .touchFailed _ | .terminate .. => false
  | .setTurn .spawn | .emit .spawn | .spawn | .trackPid .. | .initializeClient _ | .newSession _
  | .abandon .. | .untrackPid _ | .storeSessionId .. | .storeClient _ => true
  | _ => false

def mayStart : AskPc → Bool
  | .tryLock | .canPrompt | .touchFirst | .storeFirst _ | .ensureRunning | .setProcess .spawn => true
  | pc => starting pc

theorem mayStart_of_starting {pc : AskPc} (h : starting pc = true) : mayStart pc = true := by
  cases pc
  case setProcess next => cases next <;> first | rfl | exact h
  all_goals first
    | rfl
    | exact h

def Live (s : Sys) : Prop :=
  s.session.client.isSome = true ∨ s.session.processState = .starting ∨
    ∃ pc ∈ s.asks, starting pc = true

def Still (s : Sys) : Prop :=
  s.session.client = none ∧ ∀ pc ∈ s.asks, mayStart pc = false

instance (s : Sys) : Decidable (Live s) := inferInstanceAs (Decidable (_ ∨ _ ∨ ∃ _ ∈ _, _))

instance (s : Sys) : Decidable (Still s) := inferInstanceAs (Decidable (_ ∧ _))

def AtMostOne (m : SessionManager) : Prop :=
  m.objs.Pairwise fun a b => a.key = b.key → ¬ (Live a.sys ∧ Live b.sys)

instance (m : SessionManager) : Decidable (AtMostOne m) :=
  inferInstanceAs (Decidable (m.objs.Pairwise _))

/-- A session is replaced only once it is still, and not asked after that. -/
def Replaces (m : SessionManager) : Manager.Action → Prop
  | .ask g => ∀ o ∈ m.handle g, ∀ obj ∈ m.objs[o]?,
      ∀ later ∈ m.objs.drop (o + 1), later.key ≠ obj.key
  | .getStep g => ∀ key ∈ m.creating g, ∀ obj ∈ m.objs, obj.key = key → Still obj.sys
  | _ => True

instance (m : SessionManager) (a : Manager.Action) : Decidable (Replaces m a) := by
  rcases a <;> dsimp only [Replaces] <;> infer_instance

def Owned (s : Sys) : Prop :=
  s.session.processState = .starting → ∃ pc ∈ s.asks, starting pc = true

theorem askStep_starting {i : ℕ} {s s' : AcpSession} {pc pc' : AskPc} {o : Outcome} {D : Prop}
    (h : askStep i s pc o = some (s', pc'))
    (hs : s.processState = .starting → D ∨ starting pc = true)
    (hs' : s'.processState = .starting) : D ∨ starting pc' = true := by
  have hlift : starting pc = false → s.processState = .starting → D := by
    intro hf hp
    rcases hs hp with hD | ho
    · exact hD
    · rw [hf] at ho
      cases ho
  cases pc
  case setProcess next =>
    cases h
    cases next
    case spawn => exact .inr rfl
    all_goals cases hs'
  case setTurn next =>
    cases h
    cases next
    case spawn => exact .inr rfl
    all_goals exact .inl (hlift rfl hs')
  case emit next =>
    cases h
    cases next
    case spawn => exact .inr rfl
    all_goals exact .inl (hlift rfl hs')
  all_goals
    simp only [askStep] at h
    repeat' split at h
    all_goals
      cases h
      try first
        | exact .inr rfl
        | exact .inl (hlift rfl hs')

theorem askStep_mayStart {i : ℕ} {s s' : AcpSession} {pc pc' : AskPc} {o : Outcome}
    (h : askStep i s pc o = some (s', pc')) (hm : mayStart pc = false) : mayStart pc' = false := by
  cases pc
  case setProcess next =>
    cases h
    cases next
    case spawn | fail | prompting => cases hm
    all_goals rfl
  case setTurn next =>
    cases h
    cases next
    case spawn => cases hm
    all_goals rfl
  case emit next =>
    cases h
    cases next
    case spawn => cases hm
    all_goals rfl
  all_goals first
    | cases hm; done
    | skip
  all_goals
    simp only [askStep] at h
    repeat' split at h
    all_goals
      cases h
      try rfl

theorem Still.askStep {s s' : Sys} {i : ℕ} {o : Outcome} (h : Still s)
    (hs : s.step (.askStep i o) = some s') : Still s' := by
  obtain ⟨pc, session, pc', hpc, hstep, rfl⟩ := Sys.step_askStep hs
  have hm : mayStart pc = false := h.2 pc (List.mem_of_getElem? hpc)
  refine ⟨?_, forall_set h.2 (askStep_mayStart hstep hm)⟩
  rcases askStep_client hstep h.1 with hn | ⟨client, rfl⟩
  · exact hn
  · cases hm

theorem Still.shutdownStep {s s' : Sys} {j : ℕ} (h : Still s)
    (hs : s.step (.shutdownStep j) = some s') : Still s' := by
  obtain ⟨q, session, q', hq, hstep, rfl⟩ := Sys.step_shutdownStep hs
  exact ⟨shutdownStep_client hstep h.1, h.2⟩

theorem Still.not_live {s : Sys} (h : Still s) (ho : Owned s) : ¬ Live s := by
  have hno : ¬ ∃ pc ∈ s.asks, starting pc = true := by
    rintro ⟨pc, hpc, hst⟩
    have hm := mayStart_of_starting hst
    rw [h.2 pc hpc] at hm
    cases hm
  rintro (hc | hp | hex)
  · rw [h.1] at hc
    cases hc
  · exact hno (ho hp)
  · exact hno hex

theorem Owned.askStep {s s' : Sys} {i : ℕ} {o : Outcome} (h : Owned s)
    (hs : s.step (.askStep i o) = some s') : Owned s' := by
  obtain ⟨pc, session, pc', hpc, hstep, rfl⟩ := Sys.step_askStep hs
  intro hp'
  have hp : s.session.processState = .starting →
      (∃ r ∈ s.asks.set i pc', starting r = true) ∨ starting pc = true :=
    fun hp => exists_set hpc pc' (h hp)
  rcases askStep_starting hstep hp hp' with hex | hst
  · exact hex
  · exact ⟨pc', mem_of_step hpc pc', hst⟩

theorem Owned.shutdownStep {s s' : Sys} {j : ℕ} (h : Owned s)
    (hs : s.step (.shutdownStep j) = some s') : Owned s' := by
  obtain ⟨q, session, q', hq, hstep, rfl⟩ := Sys.step_shutdownStep hs
  intro hp'
  rcases shutdownStep_processState hstep with hp | hp
  · exact h (hp ▸ hp')
  · rw [hp] at hp'
    cases hp'

structure Inv (m : SessionManager) : Prop where
  owned : ∀ obj ∈ m.objs, Owned obj.sys
  still : m.objs.Pairwise fun a b => a.key = b.key → Still a.sys

theorem inv_new (configs : List (String × ℕ)) : Inv (.new configs) := ⟨nofun, .nil⟩

theorem Inv.set {m m' : SessionManager} {o : ObjId} {obj obj' : Obj} (h : Inv m)
    (hobj : m.objs[o]? = some obj) (hobjs : m'.objs = m.objs.set o obj')
    (hkey : obj'.key = obj.key) (howned : Owned obj.sys → Owned obj'.sys)
    (hstill : (∃ later ∈ m.objs.drop (o + 1), later.key = obj.key) → Still obj.sys →
      Still obj'.sys) : Inv m' := by
  constructor <;> rw [hobjs]
  · exact forall_set h.owned (howned (h.owned obj (List.mem_of_getElem? hobj)))
  · refine pairwise_set h.still hobj (fun r hr => by rwa [hkey]) ?_
    intro later hlater hr heq
    have heq' : obj.key = later.key := hkey.symm.trans heq
    exact hstill ⟨later, hlater, heq'.symm⟩ (hr heq')

theorem step_inv (m : SessionManager) (a : Manager.Action) (m' : SessionManager) (h : Inv m)
    (hC : Replaces m a) (hs : m.step a = some m') : Inv m' := by
  have hstep := SessionManager.step_objs hs
  generalize hobjs : m'.objs = objs at hstep
  cases hstep with
  | same =>
    constructor <;> rw [hobjs]
    · exact h.owned
    · exact h.still
  | create hcreating =>
    constructor <;> rw [hobjs]
    · exact forall_spawn h.owned nofun
    · rw [List.pairwise_append]
      refine ⟨h.still, List.pairwise_singleton _ _, ?_⟩
      intro obj hobj new hnew hkey
      rw [List.mem_singleton] at hnew
      subst hnew
      exact hC _ hcreating obj hobj hkey
  | set hobj hstep =>
    refine h.set hobj hobjs hstep.key ?_ ?_
    · intro hown
      cases hstep with
      | same | shutdown => exact hown
      | ask hhandle => exact fun hp => exists_spawn _ (hown hp)
      | askStep hsys htime => exact hown.askStep hsys
      | shutdownStep hsys => exact hown.shutdownStep hsys
    · rintro ⟨later, hlater, hkey⟩ hstill
      cases hstep with
      | same | shutdown => exact hstill
      | ask hhandle => exact absurd hkey (hC _ hhandle _ hobj later hlater)
      | askStep hsys htime => exact hstill.askStep hsys
      | shutdownStep hsys => exact hstill.shutdownStep hsys

theorem Inv.atMostOne {m : SessionManager} (h : Inv m) : AtMostOne m := by
  refine List.Pairwise.imp_of_mem ?_ h.still
  intro a b ha _ hstill hkey hlive
  exact (hstill hkey).not_live (h.owned a ha) hlive.1

/-- Sessions that are replaced when they are still and not asked any more leave
at most one live session for each key. -/
theorem atMostOne_of_replaces (configs : List (String × ℕ)) (acts : List Manager.Action)
    (m : SessionManager) (hrun : run SessionManager.step (.new configs) acts = some m)
    (hreplaces : Along SessionManager.step Replaces (.new configs) acts) : AtMostOne m :=
  (invariant step_inv (inv_new configs) hreplaces hrun).atMostOne

/-- A session is asked, reaped and asked for anew. -/
def askedAnew : List Manager.Action :=
  getNew 0 ++ .ask 0 :: askSteps 0 0 (toRunning 0 ++ toWait ++ toReturn 0) ++ .tick 601 :: reap 0 ++
    getNew 1 ++ .ask 1 :: askSteps 1 0 (toRunning 601)

theorem atMostOne_askedAnew :
    ∃ m, run SessionManager.step (.new [("codex", 600)]) askedAnew = some m ∧ AtMostOne m := by
  obtain ⟨m, hm, -⟩ := exists_run (s := SessionManager.new [("codex", 600)]) (fun _ => True)
    (by decide : (run SessionManager.step (.new [("codex", 600)]) askedAnew).any _ = true)
  exact ⟨m, hm, atMostOne_of_replaces _ askedAnew m hm (by decide)⟩

theorem askedAgain_not_atMostOne :
    ∃ m, run SessionManager.step (.new [("codex", 600)])
        (askedAnew ++ .ask 0 :: askSteps 0 1 (toRunning 601)) = some m ∧
      (m.objs.map fun obj => (obj.key, obj.sys.session.client)) =
        [(project, some 1), (project, some 0)] ∧
      ¬ AtMostOne m :=
  exists_run _ (by decide)

end Ccgonext.OneClient
