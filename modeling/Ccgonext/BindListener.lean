import Mathlib.Data.List.Basic
import Mathlib.Data.UInt

/-!
# The port the web server listens on

`bind_listener` of `web/mod.rs`. Whether an address can be bound is for the
system to say: it is a parameter, any function of the address. A counter that
leaves `u16` is an outcome of its own, `overflow`, and each round of the loop
takes one unit of fuel.
-/

namespace Ccgonext.BindListener

variable {H L E : Type*}

structure SocketAddr (H : Type*) where
  ip : H
  port : UInt16
  deriving DecidableEq, Repr

inductive BindError (E : Type*)
  | io (e : E)
  | message (text : String)
  deriving DecidableEq, Repr

inductive Outcome (L E : Type*)
  | returned (r : Except (BindError E) L)
  | overflow

inductive Round (L E : Type*)
  | done (o : Outcome L E)
  | again (retriesLeft port : UInt16)

/-- A finished call, with the addresses it tried in order. -/
structure Attempts (H L E : Type*) where
  tried : List (SocketAddr H)
  outcome : Outcome L E

def Attempts.after (addr : SocketAddr H) (a : Attempts H L E) : Attempts H L E :=
  { a with tried := addr :: a.tried }

def checkedAdd (a b : UInt16) : Option UInt16 :=
  if a.toNat + b.toNat < UInt16.size then some (a + b) else none

def checkedSub (a b : UInt16) : Option UInt16 :=
  if b ≤ a then some (a - b) else none

def cannotRetry (port : UInt16) : BindError E :=
  .message s!"Port {port} is in use and cannot retry past u16::MAX"

section Source
variable (bind : SocketAddr H → Except E L) (addrInUse : E → Bool) (host : H)

def bindRound (retriesLeft port : UInt16) : Round L E :=
  match bind ⟨host, port⟩ with
  | .ok listener => .done (.returned (.ok listener))
  | .error e =>
    if addrInUse e = true ∧ 0 < retriesLeft then
      if port = 65535 then .done (.returned (.error (cannotRetry port)))
      else
        match checkedAdd port 1 with
        | none => .done .overflow
        | some nextPort =>
          match checkedSub retriesLeft 1 with
          | none => .done .overflow
          | some retriesLeft => .again retriesLeft nextPort
    else .done (.returned (.error (.io e)))

/-- `none` is a call that is not through yet. -/
def bindLoop : ℕ → UInt16 → UInt16 → Option (Attempts H L E)
  | 0, _, _ => none
  | fuel + 1, retriesLeft, port =>
    match bindRound bind addrInUse host retriesLeft port with
    | .done o => some ⟨[⟨host, port⟩], o⟩
    | .again retriesLeft nextPort =>
      (bindLoop fuel retriesLeft nextPort).map (.after ⟨host, port⟩)

def bindListener (fuel : ℕ) (basePort portRetry : UInt16) : Option (Attempts H L E) :=
  if basePort = 0 ∨ portRetry = 0 then
    some ⟨[⟨host, basePort⟩], .returned ((bind ⟨host, basePort⟩).mapError .io)⟩
  else bindLoop bind addrInUse host fuel portRetry basePort

end Source

section Counters

theorem checkedAdd_one {port : UInt16} (h : port ≠ 65535) :
    ∃ next, checkedAdd port 1 = some next ∧ next.toNat = port.toNat + 1 := by
  have hlt : port.toNat + 1 < UInt16.size := by
    have := port.toNat_lt
    have hne : port.toNat ≠ 65535 := fun he => h (UInt16.toNat_inj.mp he)
    simp only [UInt16.size]
    omega
  refine ⟨port + 1, if_pos hlt, ?_⟩
  rw [UInt16.toNat_add]
  exact Nat.mod_eq_of_lt hlt

theorem checkedSub_one {retriesLeft : UInt16} (h : 0 < retriesLeft) :
    ∃ next, checkedSub retriesLeft 1 = some next ∧ next.toNat + 1 = retriesLeft.toNat := by
  have hpos : 0 < retriesLeft.toNat := UInt16.lt_iff_toNat_lt.mp h
  have hle : (1 : UInt16) ≤ retriesLeft := UInt16.le_iff_toNat_le.mpr hpos
  refine ⟨retriesLeft - 1, if_pos hle, ?_⟩
  rw [UInt16.toNat_sub_of_le _ _ hle]
  exact Nat.sub_add_cancel hpos

end Counters

section Rounds
variable (bind : SocketAddr H → Except E L) (addrInUse : E → Bool) (host : H)

def InUse (port : UInt16) : Prop :=
  ∃ e, bind ⟨host, port⟩ = .error e ∧ addrInUse e = true

def lastPort (port retries : UInt16) : ℕ := min (port.toNat + retries.toNat) 65535

/-- What a call that may go on to port `limit` returns for its last address. -/
def answer (limit : ℕ) : Except E L → Except (BindError E) L
  | .ok listener => .ok listener
  | .error e =>
    if addrInUse e = true ∧ 65535 < limit then .error (cannotRetry 65535) else .error (.io e)

theorem answer_ok {addrInUse : E → Bool} {limit : ℕ} {b : Except E L} {listener : L} :
    answer addrInUse limit b = .ok listener ↔ b = .ok listener := by
  cases b with
  | ok l => simp only [answer, Except.ok.injEq]
  | error e =>
    simp only [answer, reduceCtorEq, iff_false]
    split
    · exact fun h => by cases h
    · exact fun h => by cases h

/-- The call tried the ports from `first` to `first + n` and no other. It left the
ones before the last because they were in use. -/
structure Scan (first limit n : ℕ) (a : Attempts H L E) : Prop where
  tried : a.tried = (List.range' first (n + 1)).map fun port => ⟨host, .ofNat port⟩
  bounded : first + n ≤ min limit 65535
  passed : ∀ i < n, InUse bind addrInUse host (.ofNat (first + i))
  stopped : InUse bind addrInUse host (.ofNat (first + n)) → first + n = min limit 65535
  outcome : a.outcome =
    .returned (answer addrInUse limit (bind ⟨host, .ofNat (first + n)⟩))

variable {bind addrInUse host}

/-- A round either passes a port in use and takes one of the retries or ends the
call. It ends it at a port in use only if that is the last one. -/
theorem bindRound_cases (bind : SocketAddr H → Except E L) (addrInUse : E → Bool) (host : H)
    (retriesLeft port : UInt16) :
    (InUse bind addrInUse host port ∧ ∃ left next,
      bindRound bind addrInUse host retriesLeft port = .again left next ∧
        next.toNat = port.toNat + 1 ∧ left.toNat + 1 = retriesLeft.toNat) ∨
    (bindRound bind addrInUse host retriesLeft port =
        .done (.returned (answer addrInUse (port.toNat + retriesLeft.toNat) (bind ⟨host, port⟩))) ∧
      (InUse bind addrInUse host port → port.toNat = lastPort port retriesLeft)) := by
  have hmax := port.toNat_lt
  simp only [bindRound, lastPort]
  cases hb : bind ⟨host, port⟩ with
  | ok listener =>
    refine .inr ⟨rfl, ?_⟩
    rintro ⟨e, he, -⟩
    rw [hb] at he
    cases he
  | error e =>
    by_cases hagain : addrInUse e = true ∧ 0 < retriesLeft
    · obtain ⟨huse, hleft⟩ := hagain
      have hpos : 0 < retriesLeft.toNat := UInt16.lt_iff_toNat_lt.mp hleft
      simp only [huse, hleft, and_self, if_true]
      by_cases htop : port = 65535
      · have h65535 : port.toNat = 65535 := by rw [htop]; rfl
        refine .inr ⟨?_, fun _ => by omega⟩
        rw [if_pos htop, answer, if_pos ⟨huse, by omega⟩, htop]
      · obtain ⟨next, hadd, hnext⟩ := checkedAdd_one htop
        obtain ⟨left, hsub, hone⟩ := checkedSub_one hleft
        refine .inl ⟨⟨e, hb, huse⟩, left, next, ?_, hnext, hone⟩
        rw [if_neg htop, hadd]
        simp only [hsub]
    · have hdone : addrInUse e = true → retriesLeft.toNat = 0 := fun huse => by
        by_contra hne
        exact hagain ⟨huse, UInt16.lt_iff_toNat_lt.mpr (Nat.pos_of_ne_zero hne)⟩
      have hnot : ¬ (addrInUse e = true ∧ 65535 < port.toNat + retriesLeft.toNat) := by
        rintro ⟨huse, hlt⟩
        have := hdone huse
        omega
      simp only [if_neg hagain]
      refine .inr ⟨by rw [answer, if_neg hnot], ?_⟩
      rintro ⟨e', he', huse⟩
      rw [hb] at he'
      cases he'
      have := hdone huse
      omega

theorem scan_one {port : UInt16} {limit : ℕ} (hport : port.toNat ≤ limit)
    (hlast : InUse bind addrInUse host port → port.toNat = min limit 65535) :
    Scan bind addrInUse host port.toNat limit 0
      ⟨[⟨host, port⟩], .returned (answer addrInUse limit (bind ⟨host, port⟩))⟩ where
  tried := by
    simp only [List.range', List.map_cons, List.map_nil, UInt16.ofNat_toNat]
  bounded := by
    have := port.toNat_lt
    omega
  passed := fun i hi => absurd hi (Nat.not_lt_zero i)
  stopped := by
    rw [Nat.add_zero, UInt16.ofNat_toNat]
    exact hlast
  outcome := by
    rw [Nat.add_zero, UInt16.ofNat_toNat]

theorem Scan.after {port next : UInt16} {limit n : ℕ} {a : Attempts H L E}
    (huse : InUse bind addrInUse host port)
    (hnext : next.toNat = port.toNat + 1)
    (h : Scan bind addrInUse host next.toNat limit n a) :
    Scan bind addrInUse host port.toNat limit (n + 1) (a.after ⟨host, port⟩) := by
  have hsum : port.toNat + (n + 1) = next.toNat + n := by omega
  constructor
  case tried =>
    rw [List.range'_succ, List.map_cons, UInt16.ofNat_toNat, ← hnext, ← h.tried]
    rfl
  case bounded => exact hsum ▸ h.bounded
  case passed =>
    intro i hi
    cases i with
    | zero => rwa [Nat.add_zero, UInt16.ofNat_toNat]
    | succ i =>
      have heq : port.toNat + (i + 1) = next.toNat + i := by omega
      exact heq ▸ h.passed i (Nat.lt_of_succ_lt_succ hi)
  case stopped => exact hsum ▸ h.stopped
  case outcome => exact hsum ▸ h.outcome

/-- Each round keeps `port + retries_left`, the port the call may go on to, and
takes one of the retries. -/
theorem bindLoop_scan (bind : SocketAddr H → Except E L) (addrInUse : E → Bool) (host : H)
    {fuel : ℕ} (retriesLeft port : UInt16) (hfuel : retriesLeft.toNat < fuel) :
    ∃ a n, bindLoop bind addrInUse host fuel retriesLeft port = some a ∧
      Scan bind addrInUse host port.toNat (port.toNat + retriesLeft.toNat) n a := by
  induction fuel generalizing retriesLeft port with
  | zero => exact absurd hfuel (Nat.not_lt_zero _)
  | succ fuel ih =>
    rcases bindRound_cases bind addrInUse host retriesLeft port with
      ⟨huse, left, next, hround, hnext, hone⟩ | ⟨hround, hlast⟩
    · have hleft : left.toNat < fuel := by omega
      obtain ⟨a, n, ha, hscan⟩ := ih left next hleft
      have hlimit : next.toNat + left.toNat = port.toNat + retriesLeft.toNat := by omega
      rw [hlimit] at hscan
      refine ⟨a.after ⟨host, port⟩, n + 1, ?_, hscan.after huse hnext⟩
      simp only [bindLoop, hround, ha, Option.map_some]
    · refine ⟨_, 0, ?_, scan_one (Nat.le_add_right _ _) hlast⟩
      simp only [bindLoop, hround]

theorem bindLoop_more {fuel more : ℕ} {retriesLeft port : UInt16} {a : Attempts H L E}
    (hmore : fuel ≤ more) (h : bindLoop bind addrInUse host fuel retriesLeft port = some a) :
    bindLoop bind addrInUse host more retriesLeft port = some a := by
  induction fuel generalizing more retriesLeft port a with
  | zero => cases h
  | succ fuel ih =>
    obtain ⟨more, rfl⟩ : ∃ m, more = m + 1 := ⟨more - 1, by omega⟩
    simp only [bindLoop] at h ⊢
    cases hround : bindRound bind addrInUse host retriesLeft port with
    | done o => simpa only [hround] using h
    | again left next =>
      simp only [hround] at h ⊢
      obtain ⟨r, hr, rfl⟩ := Option.map_eq_some_iff.mp h
      rw [ih (Nat.le_of_succ_le_succ hmore) hr, Option.map_some]

variable (bind addrInUse host) in
structure FirstFree (basePort portRetry port : UInt16) : Prop where
  base_le : basePort ≤ port
  le_last : port.toNat ≤ lastPort basePort portRetry
  free : ¬ InUse bind addrInUse host port
  before : ∀ q, basePort ≤ q → q < port → InUse bind addrInUse host q

namespace Scan
variable {basePort portRetry : UInt16} {n : ℕ} {a : Attempts H L E}

theorem getLast {first limit : ℕ} (h : Scan bind addrInUse host first limit n a) :
    a.tried.getLast? = some ⟨host, .ofNat (first + n)⟩ := by
  rw [h.tried, List.range'_1_concat, List.map_append, List.map_singleton,
    List.getLast?_append, List.getLast?_singleton]
  rfl

theorem toNat_last {first limit : ℕ} (h : Scan bind addrInUse host first limit n a) :
    (UInt16.ofNat (first + n)).toNat = first + n := by
  have := h.bounded
  rw [UInt16.toNat_ofNat']
  exact Nat.mod_eq_of_lt (by omega)

theorem firstFree (h : Scan bind addrInUse host basePort.toNat
      (basePort.toNat + portRetry.toNat) n a)
    (hfree : ¬ InUse bind addrInUse host (.ofNat (basePort.toNat + n))) :
    FirstFree bind addrInUse host basePort portRetry (.ofNat (basePort.toNat + n)) where
  base_le := by
    rw [UInt16.le_iff_toNat_le, h.toNat_last]
    exact Nat.le_add_right _ _
  le_last := by
    rw [h.toNat_last]
    exact h.bounded
  free := hfree
  before := by
    intro q hbase hq
    rw [UInt16.le_iff_toNat_le] at hbase
    rw [UInt16.lt_iff_toNat_lt, h.toNat_last] at hq
    obtain ⟨i, hi⟩ := Nat.exists_eq_add_of_le hbase
    have hpassed := h.passed i (by omega)
    rwa [← hi, UInt16.ofNat_toNat] at hpassed

theorem eq_of_firstFree (h : Scan bind addrInUse host basePort.toNat
      (basePort.toNat + portRetry.toNat) n a) {port : UInt16}
    (hport : FirstFree bind addrInUse host basePort portRetry port) :
    port = .ofNat (basePort.toNat + n) := by
  have hbase := UInt16.le_iff_toNat_le.mp hport.base_le
  obtain ⟨i, hi⟩ := Nat.exists_eq_add_of_le hbase
  have hle : port.toNat ≤ min (basePort.toNat + portRetry.toNat) 65535 := hport.le_last
  rcases Nat.lt_trichotomy i n with hlt | rfl | hgt
  · have hpassed := h.passed i hlt
    rw [← hi, UInt16.ofNat_toNat] at hpassed
    exact absurd hpassed hport.free
  · rw [← hi, UInt16.ofNat_toNat]
  · have huse := hport.before (.ofNat (basePort.toNat + n))
      (UInt16.le_iff_toNat_le.mpr (by rw [h.toNat_last]; omega))
      (UInt16.lt_iff_toNat_lt.mpr (by rw [h.toNat_last]; omega))
    have := h.stopped huse
    omega

theorem ok_iff (h : Scan bind addrInUse host basePort.toNat
      (basePort.toNat + portRetry.toNat) n a) (port : UInt16) (listener : L) :
    (a.tried.getLast? = some ⟨host, port⟩ ∧
        answer addrInUse (basePort.toNat + portRetry.toNat)
          (bind ⟨host, .ofNat (basePort.toNat + n)⟩) = .ok listener) ↔
      (FirstFree bind addrInUse host basePort portRetry port ∧
        bind ⟨host, port⟩ = .ok listener) := by
  rw [h.getLast, answer_ok]
  constructor
  · rintro ⟨hlast, hb⟩
    cases hlast
    refine ⟨h.firstFree ?_, hb⟩
    rintro ⟨e, he, -⟩
    rw [hb] at he
    cases he
  · rintro ⟨hfirst, hb⟩
    obtain rfl := h.eq_of_firstFree hfirst
    exact ⟨rfl, hb⟩

end Scan

end Rounds

/-- With a port and retries to go on with, the call returns after at most one
round more than it has retries. It tries the ports from `base_port` up in order,
up to the first that is not in use or the last of the range, and returns the first
that is not in use if that one can be bound, else an error. -/
theorem bindListener_firstFree (bind : SocketAddr H → Except E L) (addrInUse : E → Bool)
    (host : H) (basePort portRetry : UInt16) (hbase : basePort ≠ 0) (hretry : portRetry ≠ 0) :
    ∃ a n r,
      (∀ fuel, portRetry.toNat < fuel →
        bindListener bind addrInUse host fuel basePort portRetry = some a) ∧
      a.outcome = .returned r ∧
      a.tried = (List.range' basePort.toNat (n + 1)).map (fun port => ⟨host, .ofNat port⟩) ∧
      basePort.toNat + n ≤ lastPort basePort portRetry ∧
      (∀ i < n, InUse bind addrInUse host (.ofNat (basePort.toNat + i))) ∧
      (InUse bind addrInUse host (.ofNat (basePort.toNat + n)) →
        basePort.toNat + n = lastPort basePort portRetry) ∧
      (∀ port listener,
        (a.tried.getLast? = some ⟨host, port⟩ ∧ r = .ok listener) ↔
          (FirstFree bind addrInUse host basePort portRetry port ∧
            bind ⟨host, port⟩ = .ok listener)) ∧
      ((∃ e, r = .error e) ↔
        ¬ ∃ port listener, FirstFree bind addrInUse host basePort portRetry port ∧
          bind ⟨host, port⟩ = .ok listener) := by
  obtain ⟨a, n, ha, hscan⟩ :=
    bindLoop_scan bind addrInUse host portRetry basePort (Nat.lt_succ_self _)
  have hok := hscan.ok_iff
  refine ⟨a, n, _, ?_, hscan.outcome, hscan.tried, hscan.bounded, hscan.passed, hscan.stopped,
    hok, ?_⟩
  · intro fuel hfuel
    rw [bindListener, if_neg (not_or.mpr ⟨hbase, hretry⟩)]
    exact bindLoop_more hfuel ha
  · constructor
    · rintro ⟨e, he⟩ ⟨port, listener, hport⟩
      rw [((hok port listener).mpr hport).2] at he
      cases he
    · intro hnone
      cases hr : answer addrInUse _ (bind ⟨host, .ofNat (basePort.toNat + n)⟩) with
      | ok listener => exact absurd ⟨_, listener, (hok _ listener).mp ⟨hscan.getLast, hr⟩⟩ hnone
      | error e => exact ⟨e, rfl⟩

def oneTaken (addr : SocketAddr Unit) : Except Bool UInt16 :=
  if addr.port = 8080 then .error true else .ok addr.port

theorem bindListener_firstFree_oneTaken :
    (8080 : UInt16) ≠ 0 ∧ (3 : UInt16) ≠ 0 ∧ ∃ a,
      (∀ fuel, 3 < fuel → bindListener oneTaken id () fuel 8080 3 = some a) ∧
      a.tried.getLast? = some ⟨(), 8081⟩ ∧ a.outcome = .returned (.ok 8081) := by
  refine ⟨by decide, by decide, ?_⟩
  obtain ⟨a, n, r, ha, hr, -, -, -, -, hok, -⟩ :=
    bindListener_firstFree oneTaken id () 8080 3 (by decide) (by decide)
  have hfirst : FirstFree oneTaken id () 8080 3 8081 := by
    refine ⟨by decide, by decide, ?_, ?_⟩
    · rintro ⟨e, he, -⟩
      cases he
    · intro q hbase hq
      rw [UInt16.le_iff_toNat_le] at hbase
      rw [UInt16.lt_iff_toNat_lt] at hq
      obtain rfl : q = 8080 := UInt16.toNat_inj.mp (Nat.le_antisymm (Nat.le_of_lt_succ hq) hbase)
      exact ⟨true, rfl, rfl⟩
  obtain ⟨hlast, rfl⟩ := (hok 8081 8081).mpr ⟨hfirst, rfl⟩
  exact ⟨a, ha, hlast, hr⟩

end Ccgonext.BindListener
