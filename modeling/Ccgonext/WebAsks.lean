import Ccgonext.WebHandlers

/-!
# The asks of the web server

Every prompt that is not rejected makes one ask of the session that its request names,
and it replies with what this ask has come to.
-/

namespace Ccgonext.WebServer
open Lib Lib.Runs Lib.Pool Session Manager Indexes

section Asks
variable {cfg : Config} {s s' t : Server} {a : Action} {acts : List Action}

def Pc.prompted : Pc → Bool
  | .ask .. | .replied (.prompt ..) => true
  | _ => false

def Handler.Made (h : Handler) (id : ObjId) (timeout : Option ℕ) : Prop :=
  (∃ text, h.request.call = .promptSession id text timeout ∧ promptError text timeout = none) ∧
    h.pc.prompted = true

def Action.other : Action → Bool
  | .manager (.ask _) => true
  | _ => false

section Manager
variable {m m' : SessionManager} {r r' : Registrar} {obj : ObjId} {k : ℕ}

theorem Asked.lt {m : SessionManager} {id timeout i : ℕ} {pc : Pc} {o : Obj}
    (h : Asked m id timeout i pc) (ho : m.objs[id]? = some o) : i < o.sys.asks.length := by
  have hlt : ∀ {pc : AskPc}, askAt m id i = some pc → i < o.sys.asks.length := by
    intro pc hi
    rw [askAt, ho, Option.bind_some] at hi
    exact (List.getElem?_eq_some_iff.mp hi).1
  cases h with
  | waits hi | answered hi => exact hlt hi

theorem Asked.registrar {id timeout i : ℕ} {pc : Pc}
    (h : Asked r.m id timeout i pc) (hr : r' = r ∨ ∃ a, r.step (.manager a) = some r') :
    Asked r'.m id timeout i pc := by
  rcases hr with rfl | ⟨a, hr⟩
  · exact h
  · exact h.step hr

end Manager

inductive Course (cfg : Config) (s t : Server) (h : Handler) (pc' : Pc) : Prop
  | keeps (hmade : ∀ id timeout, Handler.Made { h with pc := pc' } id timeout ↔ h.Made id timeout)
      (hasked : ∀ id timeout i, h.Made id timeout →
        Asked s.r.m id (timeout.getD cfg.defaultTimeout) i h.pc →
        Asked t.r.m id (timeout.getD cfg.defaultTimeout) i pc')
      (hasks : ∀ obj k, (askAt t.r.m obj k).isSome = true → (askAt s.r.m obj k).isSome = true)
  | asks {id : ObjId} {o : Obj} {timeout : Option ℕ} (ho : s.r.m.objs[id]? = some o)
      (hbefore : ∀ id timeout, ¬ h.Made id timeout)
      (hmade : ∀ id' timeout', Handler.Made { h with pc := pc' } id' timeout' ↔
        id' = id ∧ timeout' = timeout)
      (hasked : Asked t.r.m id (timeout.getD cfg.defaultTimeout) o.sys.asks.length pc')
      (hasks : ∀ obj k, (askAt t.r.m obj k).isSome = true →
        (askAt s.r.m obj k).isSome = true ∨ obj = id ∧ k = o.sys.asks.length)

section Handle
variable {h : Handler} {i : ℕ} {pc' : Pc} {f : ℕ → ℕ}

variable {id : ObjId} {o : Obj} {timeout : Option ℕ}

end Handle

end Asks

end Ccgonext.WebServer
