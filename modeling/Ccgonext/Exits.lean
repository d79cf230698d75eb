import Ccgonext.TurnGuard
import Ccgonext.Lib.Pool

/-!
# What an ask leaves behind

Asks alone, none of them dropped. One of them works on the session at a time, a
call that finds the guard taken changes nothing, and every exit leaves the
session never started, up, or down for good. A client that is given up, because
its prompt timed out or it was found disconnected, is taken out of the session
at once and is never stored again, so no later ask can prompt it.
-/

namespace Ccgonext.Exits
open Lib Lib.Runs Lib.Pool Lib.CriticalSection Session TurnGuard

def onlyAsks : Action → Bool
  | .ask | .askStep .. => true
  | .drop _ | .shutdown | .shutdownStep _ => false

def OneInside (s : Sys) : Prop :=
  ∀ (i j : ℕ) (p q : AskPc), s.asks[i]? = some p → s.asks[j]? = some q → p.inside = true →
    q.inside = true → i = j

def Consistent (s : AcpSession) : Prop :=
  s.turnState = .idle ∧
    (s.processState = .stopped ∧ s.spawned = 0 ∧ Empty s ∨ Up s ∨ s.processState = .dead ∧ Empty s)

def busy : AskError → Bool
  | .busy _ => true
  | _ => false

def Refused (s : Sys) (i : ℕ) : Prop :=
  ∃ turn, s.asks[i]? = some (.returned (.err (.busy turn)))

/-- The step gives up the client: its prompt timed out, or failed and the client
is found disconnected. -/
def GivesUp (s : Sys) (client : ClientId) : Action → Prop
  | .askStep i .timedOut => ∃ start, s.asks[i]? = some (.awaitPrompt start client)
  | .askStep i (.connected false) =>
    (∃ error, s.asks[i]? = some (.checkConnected error)) ∧ s.session.client = some client
  | _ => False

def prompts (client : ClientId) : AskPc → Bool
  | .prompt _ c _ | .awaitPrompt _ c => c = client
  | _ => false

section Started

def Unstarted (s : AcpSession) : Prop := s.processState = .stopped → s.spawned = 0

theorem askStep_unstarted {i : ℕ} {s s' : AcpSession} {pc pc' : AskPc} {o : Outcome}
    (h : askStep i s pc o = some (s', pc')) (hat : pc.inside = true → At pc s)
    (hs : Unstarted s) : Unstarted s' := by
  cases pc
  case setProcess next =>
    cases h
    intro hp
    cases next <;> cases hp
  case spawn =>
    have hstarting : s.processState = .starting := (hat rfl).2.1
    simp only [askStep] at h
    split at h <;> cases h
    · intro hp
      rw [show s.processState = .stopped from hp] at hstarting
      cases hstarting
    · exact hs
  all_goals
    simp only [askStep] at h
    repeat' split at h
    all_goals
      cases h
      try exact hs

end Started

section Refusals

def nextError : Next → Option AskError
  | .fail error | .touchFailed error | .terminate _ error => some error
  | .spawn | .prompting | .startSeq | .touch .. => none

def errorOf : AskPc → Option AskError
  | .setProcess next | .setTurn next | .emit next => nextError next
  | .abandon _ error | .untrackPid error | .checkConnected error | .takeClient error
  | .clearSessionId _ error | .clearPid _ error | .terminate _ error | .detach _ error
  | .touchFailed error | .storeFailed error _ | .returning (.err error)
  | .returned (.err error) => some error
  | _ => none

def admitted : AskPc → Bool
  | .tryLock | .busy | .dropped => false
  | pc => (errorOf pc).all fun error => !busy error

theorem askStep_admitted {i : ℕ} {s s' : AcpSession} {pc pc' : AskPc} {o : Outcome}
    (h : askStep i s pc o = some (s', pc')) (hat : pc.inside = true → At pc s)
    (hadm : admitted pc = true) : admitted pc' = true := by
  cases pc
  case canPrompt =>
    have hidle : s.turnState = .idle := (hat rfl).1
    simp only [askStep, hidle] at h
    cases h
    rfl
  case emit next =>
    cases h
    cases next <;> exact hadm
  case setProcess next =>
    cases h
    exact hadm
  case setTurn next =>
    cases h
    exact hadm
  case returning result =>
    cases h
    cases result <;> exact hadm
  case tryLock | busy | dropped => cases hadm
  all_goals
    simp only [askStep] at h
    repeat' split at h
    all_goals
      cases h
      try first
        | exact hadm
        | rfl

end Refusals

section Clients

def carried : AskPc → Option ClientId
  | .trackPid client _ | .initializeClient client | .newSession client | .abandon client _
  | .storeSessionId client _ | .storeClient client | .readSessionId _ client
  | .prompt _ client _ | .awaitPrompt _ client => some client
  | _ => none

def Spawned (s : AcpSession) : Prop := ∀ client ∈ s.client, client < s.spawned

def SpawnedAt (pc : AskPc) (s : AcpSession) : Prop :=
  Spawned s ∧ ∀ client ∈ carried pc, client < s.spawned

def Gone (client : ClientId) (s : AcpSession) : Prop :=
  client < s.spawned ∧ s.client ≠ some client

def GoneAt (client : ClientId) : AskPc → AcpSession → Prop
  | .takeClient _, s => client < s.spawned
  | pc, s => Gone client s ∧ carried pc ≠ some client

inductive Hands (s : AcpSession) (pc : AskPc) (s' : AcpSession) (pc' : AskPc) : Prop
  | spawned (hspawned : s'.spawned = s.spawned + 1) (hclient : s'.client = s.client)
      (hcarried : carried pc' = some s.spawned) : Hands s pc s' pc'
  | stored {client : ClientId} (hpc : carried pc = some client)
      (hspawned : s'.spawned = s.spawned) (hclient : s'.client = some client)
      (hcarried : carried pc' = none) : Hands s pc s' pc'
  | taken {error : AskError} (hpc : pc = .takeClient error) (hspawned : s'.spawned = s.spawned)
      (hclient : s'.client = none) (hcarried : carried pc' = none) : Hands s pc s' pc'
  | kept (hspawned : s'.spawned = s.spawned) (hclient : s'.client = s.client)
      (hcarried : carried pc' = none ∨ carried pc' = carried pc ∨ carried pc' = s.client) :
      Hands s pc s' pc'

theorem askStep_hands {i : ℕ} {s s' : AcpSession} {pc pc' : AskPc} {o : Outcome}
    (h : askStep i s pc o = some (s', pc')) : Hands s pc s' pc' := by
  cases pc
  case spawn =>
    simp only [askStep] at h
    split at h <;> cases h
    · exact .spawned rfl rfl rfl
    · exact .kept rfl rfl (.inl rfl)
  case storeClient client =>
    cases h
    exact .stored rfl rfl rfl rfl
  case readClient start =>
    simp only [askStep] at h
    split at h <;> cases h
    · next client hclient => exact .kept rfl rfl (.inr (.inr hclient.symm))
    · exact .kept rfl rfl (.inl rfl)
  case takeClient error =>
    cases h
    exact .taken rfl rfl rfl rfl
  case emit next =>
    cases h
    cases next <;> exact .kept rfl rfl (.inl rfl)
  all_goals
    simp only [askStep] at h
    repeat' split at h
    all_goals
      cases h
      try first
        | exact .kept rfl rfl (.inl rfl)
        | exact .kept rfl rfl (.inr (.inl rfl))

theorem askStep_spawned : Sound AcpSession.turnGuard AskPc.inside Spawned SpawnedAt askStep := by
  refine ⟨askStep_disciplined, ?_, ?_, ?_⟩
  · intro i s pc o s' pc' h hin hin' hrest
    obtain ⟨rfl, rfl⟩ := askStep_enters h hin hin'
    exact ⟨hrest, fun client hc => by cases hc⟩
  · intro i s pc o s' pc' h hin hin' hat
    have hands := askStep_hands h
    unfold SpawnedAt Spawned
    cases hands with
    | spawned hspawned hclient hcarried =>
      rw [hspawned, hclient, hcarried]
      refine ⟨fun client hc => Nat.lt_succ_of_lt (hat.1 client hc), fun client hc => ?_⟩
      cases hc
      exact Nat.lt_succ_self _
    | stored hpc hspawned hclient hcarried =>
      rw [hspawned, hclient, hcarried]
      exact ⟨fun client hc => hat.2 client (hpc.trans hc), fun client hc => by cases hc⟩
    | taken hpc hspawned hclient hcarried =>
      rw [hclient, hcarried]
      exact ⟨fun client hc => (by cases hc), fun client hc => by cases hc⟩
    | kept hspawned hclient hcarried =>
      rw [hspawned, hclient]
      refine ⟨hat.1, fun client hc => ?_⟩
      rcases hcarried with hnone | hsame | hread
      · rw [hnone] at hc
        cases hc
      · exact hat.2 client (hsame ▸ hc)
      · exact hat.1 client (hread ▸ hc)
  · intro i s pc o s' pc' h hin hout hat
    obtain ⟨result, rfl⟩ := askStep_leaves h hin hout
    cases h
    exact hat.1

theorem goneAt_of_gone {client : ClientId} {pc : AskPc} {s : AcpSession}
    (hs : Gone client s) (hpc : carried pc ≠ some client) : GoneAt client pc s := by
  cases pc
  case takeClient => exact hs.1
  all_goals exact ⟨hs, hpc⟩

theorem GoneAt.gone {client : ClientId} {pc : AskPc} {s : AcpSession} (h : GoneAt client pc s)
    (hpc : ∀ error, pc ≠ .takeClient error) : Gone client s ∧ carried pc ≠ some client := by
  cases pc
  case takeClient error => exact absurd rfl (hpc error)
  all_goals exact h

theorem askStep_gone (client : ClientId) :
    Sound AcpSession.turnGuard AskPc.inside (Gone client) (GoneAt client) askStep := by
  have hno : none ≠ some client := (Option.some_ne_none client).symm
  refine ⟨askStep_disciplined, ?_, ?_, ?_⟩
  · intro i s pc o s' pc' h hin hin' hrest
    obtain ⟨rfl, rfl⟩ := askStep_enters h hin hin'
    exact goneAt_of_gone hrest hno
  · intro i s pc o s' pc' h hin hin' hat
    by_cases htake : ∃ error, pc = .takeClient error
    · obtain ⟨error, rfl⟩ := htake
      cases h
      exact goneAt_of_gone ⟨hat, hno⟩ hno
    obtain ⟨hgone, hother⟩ := hat.gone fun error hpc => htake ⟨error, hpc⟩
    cases askStep_hands h with
    | spawned hspawned hclient hcarried =>
      refine goneAt_of_gone ⟨?_, by rw [hclient]; exact hgone.2⟩ fun heq => ?_
      · rw [hspawned]
        exact Nat.lt_succ_of_lt hgone.1
      · rw [hcarried] at heq
        cases heq
        exact Nat.lt_irrefl _ hgone.1
    | stored hpc hspawned hclient hcarried =>
      refine goneAt_of_gone ⟨by rw [hspawned]; exact hgone.1, ?_⟩ (by rw [hcarried]; exact hno)
      rw [hclient, ← hpc]
      exact hother
    | taken hpc => exact absurd ⟨_, hpc⟩ htake
    | kept hspawned hclient hcarried =>
      refine goneAt_of_gone ⟨by rw [hspawned]; exact hgone.1, by rw [hclient]; exact hgone.2⟩ ?_
      rcases hcarried with hnone | hsame | hread
      · rw [hnone]
        exact hno
      · rw [hsame]
        exact hother
      · rw [hread]
        exact hgone.2
  · intro i s pc o s' pc' h hin hout hat
    obtain ⟨result, rfl⟩ := askStep_leaves h hin hout
    cases h
    exact hat.1

end Clients

section Runs
variable {now : ℕ} {acts after : List Action} {s u u' : Sys} {a : Action} {i : ℕ}
  {client : ClientId}

theorem step_asks (ha : onlyAsks a = true) (h : s.step a = some u) :
    (a = .ask ∧ u = { s with asks := s.asks ++ [.tryLock] }) ∨
      ∃ i o pc session pc', a = .askStep i o ∧ s.asks[i]? = some pc ∧
        askStep i s.session pc o = some (session, pc') ∧
        u = { s with session := session, asks := s.asks.set i pc' } := by
  cases a with
  | ask =>
    cases h
    exact .inl ⟨rfl, rfl⟩
  | askStep i o =>
    obtain ⟨pc, session, pc', hpc, hstep, rfl⟩ := Sys.step_askStep h
    exact .inr ⟨i, o, pc, session, pc', rfl, hpc, hstep, rfl⟩
  | drop i | shutdown | shutdownStep j => cases ha

theorem step_annotated {Rest : AcpSession → Prop} {At : AskPc → AcpSession → Prop}
    (hsound : Sound AcpSession.turnGuard AskPc.inside Rest At askStep) (ha : onlyAsks a = true)
    (h : s.step a = some u) (hs : Annotated AcpSession.turnGuard AskPc.inside Rest At s.session s.asks) :
    Annotated AcpSession.turnGuard AskPc.inside Rest At u.session u.asks := by
  rcases step_asks ha h with ⟨-, rfl⟩ | ⟨i, o, pc, session, pc', -, hpc, hstep, rfl⟩
  · exact hs.spawn rfl
  · exact hs.step hsound hpc hstep

theorem inProgress_of_inside {pc : AskPc} (h : pc.inside = true) : pc.inProgress = true := by
  cases pc <;> first | rfl | cases h

structure Inv (s : Sys) : Prop where
  guard : TurnGuard.Inv s
  spawned : Annotated AcpSession.turnGuard AskPc.inside Spawned SpawnedAt s.session s.asks
  unstarted : Unstarted s.session
  accepted : ∀ pc ∈ s.asks, pc.inside = true → admitted pc = true

theorem inv_new (now : ℕ) : Inv (.new now) :=
  ⟨TurnGuard.inv_new now, .nil rfl nofun, fun _ => rfl, nofun⟩

theorem Inv.at_pc (h : Inv s) {pc : AskPc} (hpc : s.asks[i]? = some pc) :
    pc.inside = true → At pc s.session :=
  h.guard.at_inside i pc hpc

theorem step_inv (s : Sys) (a : Action) (u : Sys) (hs : Inv s) (ha : onlyAsks a = true)
    (h : s.step a = some u) : Inv u := by
  refine ⟨step_annotated askStep_sound ha h hs.guard,
    step_annotated askStep_spawned ha h hs.spawned, ?_, ?_⟩
  · rcases step_asks ha h with ⟨-, rfl⟩ | ⟨i, o, pc, session, pc', -, hpc, hstep, rfl⟩
    · exact hs.unstarted
    · exact askStep_unstarted hstep (hs.at_pc hpc) hs.unstarted
  · rcases step_asks ha h with ⟨-, rfl⟩ | ⟨i, o, pc, session, pc', -, hpc, hstep, rfl⟩
    · exact forall_spawn hs.accepted nofun
    · refine forall_set hs.accepted fun hin' => ?_
      cases hin : pc.inside with
      | true =>
        exact askStep_admitted hstep (hs.at_pc hpc) (hs.accepted pc (List.mem_of_getElem? hpc) hin)
      | false =>
        obtain ⟨-, rfl⟩ := askStep_enters hstep hin hin'
        rfl

theorem Inv.oneInside (h : Inv s) : OneInside s := by
  intro i j p q hp hq hpin hqin
  have hi := (h.guard.exclusive.inside_iff hp).mp hpin
  have hj := (h.guard.exclusive.inside_iff hq).mp hqin
  exact Option.some.inj (hi.symm.trans hj)

theorem Inv.consistent (h : Inv s) (hidle : ∀ pc ∈ s.asks, pc.inProgress = false) :
    Consistent s.session := by
  have hfree : s.session.turnGuard = none := by
    cases hheld : s.session.turnGuard with
    | none => rfl
    | some i =>
      obtain ⟨pc, hpc, hin⟩ := (h.guard.exclusive i).mp hheld
      have hout := hidle pc (List.mem_of_getElem? hpc)
      rw [inProgress_of_inside hin] at hout
      cases hout
  obtain ⟨hturn, hup | ⟨hcan, hempty⟩⟩ := h.guard.rest hfree
  · exact ⟨hturn, .inr (.inl hup)⟩
  · refine ⟨hturn, ?_⟩
    cases hp : s.session.processState with
    | stopped => exact .inl ⟨rfl, h.unstarted hp, hempty⟩
    | dead => exact .inr (.inr ⟨rfl, hempty⟩)
    | _ =>
      rw [hp] at hcan
      cases hcan

def Admitted (i : ℕ) (s : Sys) : Prop := ∃ pc, s.asks[i]? = some pc ∧ admitted pc = true

theorem step_admitted (s : Sys) (a : Action) (u : Sys) (hs : Inv s ∧ Admitted i s)
    (ha : onlyAsks a = true) (h : s.step a = some u) : Inv u ∧ Admitted i u := by
  obtain ⟨hinv, pc, hpc, hadm⟩ := hs
  refine ⟨step_inv s a u hinv ha h, ?_⟩
  rcases step_asks ha h with ⟨-, rfl⟩ | ⟨j, o, pc₁, session, pc', -, hpc₁, hstep, rfl⟩
  · exact ⟨pc, by rwa [List.getElem?_append_left (List.getElem?_eq_some_iff.mp hpc).1], hadm⟩
  · by_cases hij : j = i
    · subst hij
      rw [hpc] at hpc₁
      cases hpc₁
      exact ⟨pc', List.getElem?_set_self (List.getElem?_eq_some_iff.mp hpc).1,
        askStep_admitted hstep (hinv.at_pc hpc) hadm⟩
    · exact ⟨pc, by rwa [List.getElem?_set_ne hij], hadm⟩

theorem not_refused_of_admitted (h : Admitted i s) : ¬ Refused s i := by
  rintro ⟨turn, hpc⟩
  obtain ⟨pc, hpc', hadm⟩ := h
  rw [hpc] at hpc'
  cases hpc'
  cases hadm

theorem Inv.unchanged (hs : Inv s) {o : Outcome} (h : s.step (.askStep i o) = some u)
    (hno : ¬ Admitted i u) : u.session = s.session := by
  obtain ⟨pc, session, pc', hpc, hstep, rfl⟩ := Sys.step_askStep h
  have hself : (s.asks.set i pc')[i]? = some pc' :=
    List.getElem?_set_self (List.getElem?_eq_some_iff.mp hpc).1
  have hno' : admitted pc' = false := by
    rw [← Bool.not_eq_true]
    exact fun hadm => hno ⟨pc', hself, hadm⟩
  cases hin : pc.inside with
  | true =>
    have hadm := hs.accepted pc (List.mem_of_getElem? hpc) hin
    rw [askStep_admitted hstep (hs.at_pc hpc) hadm] at hno'
    cases hno'
  | false =>
    rcases askStep_disciplined.outside i _ pc o _ pc' hstep hin with ⟨heq, -⟩ | ⟨-, -, hin'⟩
    · exact heq
    · obtain ⟨-, rfl⟩ := askStep_enters hstep hin hin'
      cases hno'

theorem Inv.givesUp (hs : Inv s) (h : s.step a = some u) (hgives : GivesUp s client a) :
    ∃ (i : ℕ) (error : AskError), u.session = s.session ∧
      u.asks[i]? = some (.takeClient error) ∧
      client < s.session.spawned := by
  cases a with
  | askStep i o =>
    obtain ⟨pc, session, pc', hpc, hstep, rfl⟩ := Sys.step_askStep h
    have hself : (s.asks.set i pc')[i]? = some pc' :=
      List.getElem?_set_self (List.getElem?_eq_some_iff.mp hpc).1
    cases o with
    | timedOut =>
      obtain ⟨start, hawait⟩ := hgives
      rw [hpc] at hawait
      cases hawait
      cases hstep
      exact ⟨i, .timedOut, rfl, hself, (hs.spawned.at_inside i _ hpc rfl).2 client rfl⟩
    | connected isConnected =>
      cases isConnected with
      | true => cases hgives
      | false =>
        obtain ⟨⟨error, hcheck⟩, hclient⟩ := hgives
        rw [hpc] at hcheck
        cases hcheck
        simp only [askStep, hclient] at hstep
        cases hstep
        exact ⟨i, error, rfl, hself, (hs.spawned.at_inside i _ hpc rfl).1 client hclient⟩
    | _ => cases hgives
  | _ => cases hgives

theorem Inv.gone (hs : Inv s) (ha : onlyAsks a = true) (h : s.step a = some u)
    (hgives : GivesUp s client a) :
    Annotated AcpSession.turnGuard AskPc.inside (Gone client) (GoneAt client) u.session u.asks := by
  have hu := step_inv s a u hs ha h
  obtain ⟨i, error, hsession, hi, hlt⟩ := hs.givesUp h hgives
  have hheld : u.session.turnGuard = some i := (hu.guard.exclusive.inside_iff hi).mp rfl
  refine ⟨hu.guard.exclusive, fun hfree => ?_, fun j pc hpc hin => ?_⟩
  · rw [hheld] at hfree
    cases hfree
  · have hji := hu.oneInside j i pc _ hpc hi hin rfl
    subst hji
    rw [hi] at hpc
    cases hpc
    rw [hsession]
    exact hlt

theorem step_gone (s : Sys) (a : Action) (u : Sys)
    (hs : Annotated AcpSession.turnGuard AskPc.inside (Gone client) (GoneAt client) s.session s.asks)
    (ha : onlyAsks a = true) (h : s.step a = some u) :
    Annotated AcpSession.turnGuard AskPc.inside (Gone client) (GoneAt client) u.session u.asks :=
  step_annotated (askStep_gone client) ha h hs

theorem prompts_carried {pc : AskPc} (h : prompts client pc = true) :
    carried pc = some client ∧ pc.inside = true := by
  cases pc <;> simp_all [prompts, carried, AskPc.inside]

theorem not_prompts_of_gone
    (hs : Annotated AcpSession.turnGuard AskPc.inside (Gone client) (GoneAt client) s.session s.asks) :
    ∀ pc ∈ s.asks, prompts client pc = false := by
  intro pc hpc
  rw [← Bool.not_eq_true]
  intro hp
  obtain ⟨hcarried, hin⟩ := prompts_carried hp
  obtain ⟨i, hi⟩ := List.mem_iff_getElem?.mp hpc
  have hat := hs.at_inside i pc hi hin
  cases pc
  case prompt start c sessionId => exact hat.2 hcarried
  case awaitPrompt start c => exact hat.2 hcarried
  all_goals cases hp

end Runs

/-- Whatever the asks on a session do, in whatever order, at most one is past
the guard; once none is in progress the session is consistent; a call that is
refused as busy changes nothing; and a client that was given up is prompted by
nobody from then on. -/
theorem exits_consistent (now : ℕ) (acts : List Action) (s : Sys)
    (hasks : ∀ a ∈ acts, onlyAsks a = true) (hrun : run Sys.step (.new now) acts = some s) :
    OneInside s ∧
    ((∀ pc ∈ s.asks, pc.inProgress = false) → Consistent s.session) ∧
    ∀ u a u' after, Visit Sys.step (.new now) acts u a u' after →
      (∀ i o, a = .askStep i o → Refused s i → u'.session = u.session) ∧
      ∀ client, GivesUp u client a → ∀ pc ∈ s.asks, prompts client pc = false := by
  have hC : Along Sys.step (fun _ a => onlyAsks a = true) (.new now) acts :=
    along_of_forall fun a ha _ => hasks a ha
  have hs : Inv s := invariant step_inv (inv_new now) hC hrun
  refine ⟨hs.oneInside, hs.consistent, ?_⟩
  intro u a u' after hvisit
  obtain ⟨hu, ha, hafter⟩ := hvisit.invariant step_inv (inv_new now) hC
  have hu' := step_inv u a u' hu ha hvisit.step
  have hrest := hvisit.rest hrun
  constructor
  · rintro i o rfl hrefused
    refine hu.unchanged hvisit.step fun hadm => ?_
    exact not_refused_of_admitted (invariant step_admitted ⟨hu', hadm⟩ hafter hrest).2 hrefused
  · intro client hgives
    exact not_prompts_of_gone (invariant step_gone (hu.gone ha hvisit.step hgives) hafter hrest)

/-- The second ask is refused while the first one waits for its prompt, which
times out; the third starts a new client and gets its answer. -/
def restarted : List Action :=
  [.ask, .ask] ++ askSteps 0 toPrompt ++ askSteps 1 [.go, .go] ++
    askSteps 0 [.timedOut, .go, .go, .go, .go, .go, .go, .go, .go, .go] ++ [.ask] ++
    askSteps 2 (toPrompt ++ toAnswer)

theorem exits_consistent_restarted :
    ∃ s, run Sys.step (.new 0) restarted = some s ∧ Refused s 1 ∧
      s.asks[0]? = some (.returned (.err .timedOut)) ∧
      s.asks[2]? = some (.returned (.ok "hello")) ∧ Consistent s.session := by
  obtain ⟨s, hrun, hidle, hbusy, h0, h2⟩ := exists_run (s := Sys.new 0)
    (fun s => (∀ pc ∈ s.asks, pc.inProgress = false) ∧
      s.asks[1]? = some (.returned (.err (.busy .prompting))) ∧
      s.asks[0]? = some (.returned (.err .timedOut)) ∧
      s.asks[2]? = some (.returned (.ok "hello")))
    (by decide : (run Sys.step (.new 0) restarted).any _ = true)
  have h := exits_consistent 0 restarted s (by decide) hrun
  exact ⟨s, hrun, ⟨_, hbusy⟩, h0, h2, h.2.1 hidle⟩

end Ccgonext.Exits
