import Ccgonext.Lib.Text

/-!
# The Origin header

`validate_origin` of `web/auth.rs`, which guards every request. It is to let
through a page of this host alone, with a port it serves. A header that is no
text counts as none, and a port that is no number counts as none.
-/

namespace Ccgonext.Origin
open Lib Text

/-- What the `http` crate takes for the value of a header. -/
def isHeaderByte (b : UInt8) : Bool := (32 ≤ b.toNat && b.toNat != 127) || b.toNat == 9

structure HeaderValue where
  bytes : List UInt8
  valid : ∀ b ∈ bytes, isHeaderByte b = true

def isVisibleAscii (b : UInt8) : Bool := (32 ≤ b.toNat && b.toNat < 127) || b.toNat == 9

def HeaderValue.toStr (value : HeaderValue) : Option (List Char) :=
  if value.bytes.all isVisibleAscii then some (value.bytes.map fun b => Char.ofNat b.toNat)
  else none

def allowedHosts : List (List Char) := ["localhost".toList, "127.0.0.1".toList, "::1".toList]

def stripPrefix (start text : List Char) : Option (List Char) :=
  if start.isPrefixOf text then some (text.drop start.length) else none

def stripScheme (origin : List Char) : List Char :=
  match stripPrefix "http://".toList origin with
  | some rest => rest
  | none => (stripPrefix "https://".toList origin).getD origin

def hostPort (origin : List Char) : List Char := (stripScheme origin).takeWhile (· ≠ '/')

def splitHostPort : List Char → Option (List Char × Option ℕ)
  | '[' :: text =>
    if ']' ∈ text then
      let host := text.takeWhile (· ≠ ']')
      some (host, (stripPrefix [':'] (text.drop (host.length + 1))).bind parseU16)
    else none
  | text =>
    match rsplitOnce ':' text with
    | some (host, port) => some (host, parseU16 port)
    | none => some (text, none)

def portAllowed (allowedPort : UInt16) (port : ℕ) : Bool :=
  port = allowedPort.toNat ∨ port = 80 ∨ port = 443

def passes (allowedPort : UInt16) (hostPort : List Char) : Bool :=
  match splitHostPort hostPort with
  | some (host, port) => host ∈ allowedHosts ∧ port.all (portAllowed allowedPort)
  | none => false

def validateOrigin (origin : Option HeaderValue) (allowedPort : UInt16) : Bool :=
  match origin.bind HeaderValue.toStr with
  | some origin => passes allowedPort (hostPort (trim origin))
  | none => true

def writtenHosts : List (List Char) :=
  ["localhost".toList, "127.0.0.1".toList, "[::1]".toList]

def IsPort (allowedPort : UInt16) (text : List Char) : Prop :=
  text = [] ∨ ∃ digits, text = ':' :: digits ∧ digits ≠ [] ∧ (∀ c ∈ digits, c.isDigit = true) ∧
    portAllowed allowedPort (Nat.ofDigitChars 10 digits 0) = true

def IsHostPort (allowedPort : UInt16) (text : List Char) : Prop :=
  ∃ host ∈ writtenHosts, ∃ port, IsPort allowedPort port ∧ text = host ++ port

/-- An origin of a page of this host: scheme, host and port, and a path. -/
def IsOrigin (allowedPort : UInt16) (text : List Char) : Prop :=
  ∃ scheme ∈ ["".toList, "http://".toList, "https://".toList], ∃ hostPort path,
    IsHostPort allowedPort hostPort ∧ (path = [] ∨ ∃ rest, path = '/' :: rest) ∧
    text = scheme ++ hostPort ++ path

/-- What is let through as host and port and is none. -/
inductive Slip (allowedPort : UInt16) : List Char → Prop
  | bracketedName {host rest : List Char} (hhost : host ∈ ["localhost".toList, "127.0.0.1".toList])
      (hrest : ∀ port n, rest = ':' :: port → parseU16 port = some n →
        portAllowed allowedPort n = true) : Slip allowedPort ('[' :: (host ++ ']' :: rest))
  | afterBracket {rest : List Char} (hne : rest ≠ [])
      (hrest : ∀ port, rest = ':' :: port → parseU16 port = none) :
      Slip allowedPort ("[::1]".toList ++ rest)
  | noNumber {host port : List Char} (hhost : host ∈ allowedHosts) (hlast : ':' ∉ port)
      (hport : parseU16 port = none) : Slip allowedPort (host ++ ':' :: port)
  | plusSign {host port : List Char} {n : ℕ} (hhost : host ∈ writtenHosts)
      (hport : parseU16 ('+' :: port) = some n) (hn : portAllowed allowedPort n = true) :
      Slip allowedPort (host ++ ':' :: '+' :: port)
  | bareIpv6 {port : List Char} {n : ℕ} (hport : parseU16 port = some n)
      (hn : portAllowed allowedPort n = true) : Slip allowedPort ("::1:".toList ++ port)

def dissect : List Char → Bool × List Char × List Char
  | '[' :: text =>
    (true, text.takeWhile (· ≠ ']'), text.drop ((text.takeWhile (· ≠ ']')).length + 1))
  | text =>
    match rsplitOnce ':' text with
    | some (host, port) => (false, host, ':' :: port)
    | none => (false, text, [])

section HostPort
variable {allowedPort : UInt16} {host port rest text : List Char} {n : ℕ}

theorem stripPrefix_append (start rest : List Char) :
    stripPrefix start (start ++ rest) = some rest := by
  rw [stripPrefix, if_pos (List.isPrefixOf_iff_prefix.mpr (List.prefix_append start rest)),
    List.drop_left]

theorem stripPrefix_some {start : List Char} (h : stripPrefix start text = some rest) :
    text = start ++ rest := by
  unfold stripPrefix at h
  split at h
  · next hstart =>
    obtain ⟨more, rfl⟩ := List.isPrefixOf_iff_prefix.mp hstart
    cases h
    rw [List.drop_left]
  · cases h

theorem takeWhile_until {c : Char} {before : List Char} (h : c ∉ before) (after : List Char) :
    (before ++ c :: after).takeWhile (· ≠ c) = before := by
  rw [List.takeWhile_append_of_pos, List.takeWhile_cons_of_neg, List.append_nil]
  · simp
  · intro d hd
    exact decide_eq_true fun heq => h (heq ▸ hd)

theorem shape_bracket (h : ']' ∉ host) (rest : List Char) :
    splitHostPort ('[' :: (host ++ ']' :: rest)) =
        some (host, (stripPrefix [':'] rest).bind parseU16) ∧
      dissect ('[' :: (host ++ ']' :: rest)) = (true, host, rest) := by
  have htake := takeWhile_until h rest
  have hdrop : (host ++ ']' :: rest).drop (host.length + 1) = rest := by simp
  constructor
  · rw [splitHostPort, if_pos (by simp)]
    dsimp only
    rw [htake, hdrop]
  · rw [dissect, htake, hdrop]

theorem not_bracket (hhost : ∀ more, host ≠ '[' :: more) (more : List Char) :
    host ++ ':' :: port ≠ '[' :: more := by
  intro heq
  cases host with
  | nil => exact absurd (List.cons.inj heq).1 (by decide)
  | cons c host => exact hhost host (by rw [(List.cons.inj heq).1])

theorem shape_colon (hhost : ∀ more, host ≠ '[' :: more) (hlast : ':' ∉ port) :
    splitHostPort (host ++ ':' :: port) = some (host, parseU16 port) ∧
      dissect (host ++ ':' :: port) = (false, host, ':' :: port) := by
  have hsplit := rsplitOnce_append hlast host
  constructor
  · unfold splitHostPort
    split
    · next heq => exact absurd heq (not_bracket hhost _)
    · rw [hsplit]
  · unfold dissect
    split
    · next heq => exact absurd heq (not_bracket hhost _)
    · rw [hsplit]

theorem shape_plain (hhost : ∀ more, host ≠ '[' :: more) (hno : ':' ∉ host) :
    splitHostPort host = some (host, none) ∧ dissect host = (false, host, []) := by
  have hsplit := rsplitOnce_none.mpr hno
  constructor
  · unfold splitHostPort
    split
    · exact absurd rfl (hhost _)
    · rw [hsplit]
  · unfold dissect
    split
    · exact absurd rfl (hhost _)
    · rw [hsplit]

theorem splitHostPort_some {number : Option ℕ} (h : splitHostPort text = some (host, number)) :
    (∃ rest, text = '[' :: (host ++ ']' :: rest) ∧ ']' ∉ host ∧
        number = (stripPrefix [':'] rest).bind parseU16) ∨
      (∀ more, text ≠ '[' :: more) ∧
        ((∃ port, text = host ++ ':' :: port ∧ ':' ∉ port ∧ number = parseU16 port) ∨
          text = host ∧ ':' ∉ text ∧ number = none) := by
  unfold splitHostPort at h
  split at h
  · next more =>
    split at h
    · next hclose =>
      obtain ⟨before, after, rfl, hnot⟩ := List.eq_append_cons_of_mem hclose
      have hdrop : (before ++ ']' :: after).drop (before.length + 1) = after := by simp
      dsimp only at h
      rw [takeWhile_until hnot, hdrop] at h
      cases h
      exact .inl ⟨after, rfl, hnot, rfl⟩
    · cases h
  · next hne =>
    right
    refine ⟨fun more heq => hne more heq, ?_⟩
    split at h
    · next before port hsplit =>
      cases h
      obtain ⟨heq, hlast⟩ := rsplitOnce_some hsplit
      exact .inl ⟨port, heq, hlast, rfl⟩
    · next hsplit =>
      cases h
      exact .inr ⟨rfl, rsplitOnce_none.mp hsplit, rfl⟩

theorem passes_of_split {number : Option ℕ} (h : splitHostPort text = some (host, number))
    (hhost : host ∈ allowedHosts)
    (hport : ∀ n, number = some n → portAllowed allowedPort n = true) :
    passes allowedPort text = true := by
  rw [passes, h]
  refine decide_eq_true ⟨hhost, ?_⟩
  cases number with
  | none => rfl
  | some n => exact hport n rfl

theorem split_of_passes (h : passes allowedPort text = true) :
    ∃ host number, splitHostPort text = some (host, number) ∧ host ∈ allowedHosts ∧
      ∀ n, number = some n → portAllowed allowedPort n = true := by
  unfold passes at h
  split at h
  · next host number hsplit =>
    obtain ⟨hhost, hport⟩ := of_decide_eq_true h
    refine ⟨host, number, hsplit, hhost, fun n hn => ?_⟩
    rw [hn] at hport
    exact hport
  · cases h

theorem lt_of_portAllowed (h : portAllowed allowedPort n = true) : n < 2 ^ 16 := by
  have hlt := allowedPort.toNat_lt
  rcases of_decide_eq_true h with rfl | rfl | rfl
  · exact hlt
  · decide
  · decide

theorem port_cases (hport : ∀ n, parseU16 port = some n → portAllowed allowedPort n = true) :
    IsPort allowedPort (':' :: port) ∨ parseU16 port = none ∨
      ∃ rest n, port = '+' :: rest ∧ parseU16 port = some n ∧
        portAllowed allowedPort n = true := by
  cases hparse : parseU16 port with
  | none => exact .inr (.inl rfl)
  | some n =>
    have hn := hport n hparse
    by_cases hplus : ∃ rest, port = '+' :: rest
    · obtain ⟨rest, hrest⟩ := hplus
      exact .inr (.inr ⟨rest, n, hrest, rfl, hn⟩)
    · obtain ⟨hne, hdigits, hvalue, -⟩ := parseUnsigned_eq_some hparse
      rw [stripPlus_eq (not_exists.mp hplus)] at hne hdigits hvalue
      rw [hvalue] at hn
      exact .inl (.inr ⟨port, rfl, hne, hdigits, hn⟩)

theorem IsPort.number (h : IsPort allowedPort (':' :: port)) :
    ∃ n, parseU16 port = some n ∧ portAllowed allowedPort n = true ∧ ':' ∉ port ∧
      ∀ rest, port ≠ '+' :: rest := by
  rcases h with hnil | ⟨digits, heq, hne, hdigits, hallowed⟩
  · cases hnil
  · cases heq
    refine ⟨_, parseUnsigned_digits hne hdigits (lt_of_portAllowed hallowed), hallowed, ?_, ?_⟩
    · intro hcolon
      exact absurd (hdigits _ hcolon) (by decide)
    · rintro rest rfl
      exact absurd (hdigits '+' List.mem_cons_self) (by decide)

theorem mem_writtenHosts_of_name (h : host ∈ ["localhost".toList, "127.0.0.1".toList]) :
    host ∈ allowedHosts ∧ host ∈ writtenHosts ∧ (∀ more, host ≠ '[' :: more) ∧ ']' ∉ host ∧
      ':' ∉ host ∧ host ≠ "::1".toList := by
  rcases List.mem_cons.mp h with rfl | h
  · refine ⟨by decide, by decide, fun more heq => ?_, by decide, by decide, by decide⟩
    exact absurd (List.cons.inj heq).1 (by decide)
  · cases List.mem_singleton.mp h
    refine ⟨by decide, by decide, fun more heq => ?_, by decide, by decide, by decide⟩
    exact absurd (List.cons.inj heq).1 (by decide)

theorem allowedHosts_cases (h : host ∈ allowedHosts) :
    host ∈ ["localhost".toList, "127.0.0.1".toList] ∨ host = "::1".toList := by
  rcases List.mem_cons.mp h with rfl | h
  · exact .inl List.mem_cons_self
  · rcases List.mem_cons.mp h with rfl | h
    · exact .inl (List.mem_cons_of_mem _ List.mem_cons_self)
    · exact .inr (List.mem_singleton.mp h)

theorem writtenHosts_cases (h : host ∈ writtenHosts) :
    host ∈ ["localhost".toList, "127.0.0.1".toList] ∨ host = "[::1]".toList := by
  rcases List.mem_cons.mp h with rfl | h
  · exact .inl List.mem_cons_self
  · rcases List.mem_cons.mp h with rfl | h
    · exact .inl (List.mem_cons_of_mem _ List.mem_cons_self)
    · exact .inr (List.mem_singleton.mp h)

theorem ipv6_allowed : "::1".toList ∈ allowedHosts := by decide

theorem ipv6_no_bracket : ']' ∉ "::1".toList := by decide

theorem ipv6_mem : "[::1]".toList ∈ writtenHosts := by decide

theorem hostPort_or_slip (h : passes allowedPort text = true) :
    IsHostPort allowedPort text ∨ Slip allowedPort text := by
  obtain ⟨host, number, hsplit, hhost, hport⟩ := split_of_passes h
  rcases splitHostPort_some hsplit with ⟨rest, rfl, hnot, rfl⟩ | ⟨hbracket, hshape⟩
  · -- in brackets
    rcases allowedHosts_cases hhost with hname | rfl
    · refine .inr (.bracketedName hname fun port n hrest hn => hport n ?_)
      rw [hrest,
        show stripPrefix [':'] (':' :: port) = some port from stripPrefix_append [':'] port]
      exact hn
    · by_cases hcolon : ∃ port, rest = ':' :: port
      · obtain ⟨port, rfl⟩ := hcolon
        rw [show stripPrefix [':'] (':' :: port) = some port from
          stripPrefix_append [':'] port] at hport
        rcases port_cases hport with hisPort | hnone | ⟨more, n, rfl, hn, hallowed⟩
        · exact .inl ⟨_, ipv6_mem, _, hisPort, rfl⟩
        · refine .inr (.afterBracket (List.cons_ne_nil ':' port) fun port' heq => ?_)
          cases heq
          exact hnone
        · exact .inr (.plusSign ipv6_mem hn hallowed)
      · by_cases hnil : rest = []
        · subst hnil
          exact .inl ⟨_, ipv6_mem, [], .inl rfl, rfl⟩
        · exact .inr (.afterBracket hnil fun port heq => absurd ⟨port, heq⟩ hcolon)
  · rcases hshape with ⟨port, rfl, hlast, rfl⟩ | ⟨rfl, hno, rfl⟩
    · rcases port_cases hport with hisPort | hnone | ⟨more, n, rfl, hn, hallowed⟩
      · rcases allowedHosts_cases hhost with hname | rfl
        · exact .inl ⟨host, (mem_writtenHosts_of_name hname).2.1, _, hisPort, rfl⟩
        · obtain ⟨n, hn, hallowed, -⟩ := hisPort.number
          exact .inr (.bareIpv6 hn hallowed)
      · exact .inr (.noNumber hhost hlast hnone)
      · rcases allowedHosts_cases hhost with hname | rfl
        · exact .inr (.plusSign (mem_writtenHosts_of_name hname).2.1 hn hallowed)
        · exact .inr (.bareIpv6 hn hallowed)
    · rcases allowedHosts_cases hhost with hname | rfl
      · exact .inl ⟨text, (mem_writtenHosts_of_name hname).2.1, [], .inl rfl,
          (List.append_nil text).symm⟩
      · exact absurd hno (by decide)

def Proper (allowedPort : UInt16) (parts : Bool × List Char × List Char) : Prop :=
  (parts.1 = true ↔ parts.2.1 = "::1".toList) ∧ IsPort allowedPort parts.2.2

theorem hostPort_passes (h : IsHostPort allowedPort text) :
    passes allowedPort text = true ∧ Proper allowedPort (dissect text) := by
  obtain ⟨host, hhost, rest, hrest, rfl⟩ := h
  rcases writtenHosts_cases hhost with hname | rfl
  · obtain ⟨hallowed, -, hbracket, -, hcolon, hne⟩ := mem_writtenHosts_of_name hname
    rcases hrest with rfl | ⟨digits, rfl, hrest⟩
    · rw [List.append_nil]
      obtain ⟨hsplit, hdissect⟩ := shape_plain hbracket hcolon
      refine ⟨passes_of_split hsplit hallowed fun n hn => (by cases hn), ?_⟩
      rw [hdissect]
      exact ⟨iff_of_false Bool.false_ne_true hne, .inl rfl⟩
    · have hport : IsPort allowedPort (':' :: digits) := .inr ⟨digits, rfl, hrest⟩
      obtain ⟨n, hn, hok, hlast, -⟩ := hport.number
      obtain ⟨hsplit, hdissect⟩ := shape_colon hbracket hlast
      refine ⟨passes_of_split hsplit hallowed fun m hm => ?_, ?_⟩
      · rw [hn] at hm
        cases hm
        exact hok
      · rw [hdissect]
        exact ⟨iff_of_false Bool.false_ne_true hne, hport⟩
  · obtain ⟨hsplit, hdissect⟩ := shape_bracket ipv6_no_bracket rest
    refine ⟨passes_of_split hsplit ipv6_allowed fun m hm => ?_, ?_⟩
    · rcases hrest with rfl | ⟨digits, rfl, hrest⟩
      · cases hm
      · have hport : IsPort allowedPort (':' :: digits) := .inr ⟨digits, rfl, hrest⟩
        obtain ⟨n, hn, hok, -⟩ := hport.number
        rw [show stripPrefix [':'] (':' :: digits) = some digits from
          stripPrefix_append [':'] digits] at hm
        cases hn.symm.trans hm
        exact hok
    · exact hdissect ▸ ⟨iff_of_true rfl rfl, hrest⟩

theorem not_bracket_of_allowed (h : host ∈ allowedHosts) : ∀ more, host ≠ '[' :: more := by
  rcases allowedHosts_cases h with hname | rfl
  · exact (mem_writtenHosts_of_name hname).2.2.1
  · intro more heq
    exact absurd (List.cons.inj heq).1 (by decide)

theorem colon_not_mem (h : parseU16 port = some n) : ':' ∉ port := by
  obtain ⟨-, hdigits, -, -⟩ := parseUnsigned_eq_some h
  intro hcolon
  have hkept : ':' ∈ stripPlus port := by
    unfold stripPlus
    split
    · exact (List.mem_cons.mp hcolon).resolve_left (by decide)
    · exact hcolon
  exact absurd (hdigits _ hkept) (by decide)

theorem slip_passes (h : Slip allowedPort text) :
    passes allowedPort text = true ∧ ¬ Proper allowedPort (dissect text) := by
  cases h with
  | @bracketedName host rest hhost hrest =>
    obtain ⟨hallowed, -, -, hclose, -, hne⟩ := mem_writtenHosts_of_name hhost
    obtain ⟨hsplit, hdissect⟩ := shape_bracket hclose rest
    refine ⟨passes_of_split hsplit hallowed fun n hn => ?_, fun hproper => ?_⟩
    · obtain ⟨port, hport, hparse⟩ := Option.bind_eq_some_iff.mp hn
      exact hrest port n (stripPrefix_some hport) hparse
    · rw [hdissect] at hproper
      exact hne (hproper.1.mp rfl)
  | @afterBracket rest hne hrest =>
    obtain ⟨hsplit, hdissect⟩ := shape_bracket ipv6_no_bracket rest
    refine ⟨passes_of_split hsplit ipv6_allowed fun n hn => ?_, fun hproper => ?_⟩
    · obtain ⟨port, hport, hparse⟩ := Option.bind_eq_some_iff.mp hn
      rw [hrest port (stripPrefix_some hport)] at hparse
      cases hparse
    · have hport : IsPort allowedPort rest := (hdissect ▸ hproper).2
      rcases hport with hnil | ⟨digits, rfl, hdigits⟩
      · exact hne hnil
      · obtain ⟨n, hn, -⟩ := IsPort.number (.inr ⟨digits, rfl, hdigits⟩)
        rw [hrest digits rfl] at hn
        cases hn
  | @noNumber host port hhost hlast hport =>
    obtain ⟨hsplit, hdissect⟩ := shape_colon (not_bracket_of_allowed hhost) hlast
    rw [hport] at hsplit
    refine ⟨passes_of_split hsplit hhost fun n hn => (by cases hn), fun hproper => ?_⟩
    rw [hdissect] at hproper
    obtain ⟨n, hn, -⟩ := hproper.2.number
    rw [hport] at hn
    cases hn
  | @plusSign host port n hhost hport hn =>
    have hpasses : ∀ m, parseU16 ('+' :: port) = some m → portAllowed allowedPort m = true := by
      intro m hm
      cases hport.symm.trans hm
      exact hn
    have hsign : ¬ IsPort allowedPort (':' :: '+' :: port) := by
      intro hisPort
      obtain ⟨-, -, -, -, hno⟩ := hisPort.number
      exact hno port rfl
    rcases writtenHosts_cases hhost with hname | rfl
    · obtain ⟨hallowed, -, hbracket, -⟩ := mem_writtenHosts_of_name hname
      obtain ⟨hsplit, hdissect⟩ := shape_colon hbracket (colon_not_mem hport)
      refine ⟨passes_of_split hsplit hallowed hpasses, fun hproper => hsign ?_⟩
      rw [hdissect] at hproper
      exact hproper.2
    · obtain ⟨hsplit, hdissect⟩ := shape_bracket ipv6_no_bracket (':' :: '+' :: port)
      refine ⟨passes_of_split hsplit ipv6_allowed hpasses, fun hproper => hsign ?_⟩
      exact (hdissect ▸ hproper).2
  | @bareIpv6 port n hport hn =>
    obtain ⟨hsplit, hdissect⟩ :=
      shape_colon (not_bracket_of_allowed ipv6_allowed) (colon_not_mem hport)
    refine ⟨passes_of_split hsplit ipv6_allowed fun m hm => ?_, fun hproper => ?_⟩
    · cases hport.symm.trans hm
      exact hn
    · have hbracket := (hdissect ▸ hproper).1
      exact Bool.false_ne_true (hbracket.mpr rfl)

theorem passes_iff : passes allowedPort text = true ↔
    IsHostPort allowedPort text ∨ Slip allowedPort text := by
  constructor
  · exact hostPort_or_slip
  · rintro (h | h)
    · exact (hostPort_passes h).1
    · exact (slip_passes h).1

theorem slip_not_hostPort (h : Slip allowedPort text) : ¬ IsHostPort allowedPort text :=
  fun hproper => (slip_passes h).2 (hostPort_passes hproper).2

end HostPort

section Origin
variable {allowedPort : UInt16} {text : List Char}

theorem IsHostPort.plain (h : IsHostPort allowedPort text) :
    text ≠ [] ∧ ∀ c ∈ text, ¬ isWhitespace c ∧ c ≠ '/' := by
  obtain ⟨host, hhost, port, hport, rfl⟩ := h
  have hchars : (∀ host ∈ writtenHosts, host ≠ []) ∧ writtenHosts.all fun host =>
      host.all fun c => !isWhitespace c && c != '/' := by decide
  obtain ⟨hne, hplain⟩ := hchars
  refine ⟨fun hnil => hne host hhost (List.append_eq_nil_iff.mp hnil).1, fun c hc => ?_⟩
  rcases List.mem_append.mp hc with hc | hc
  · have hmem := List.all_eq_true.mp (List.all_eq_true.mp hplain host hhost) c hc
    rw [Bool.and_eq_true, Bool.not_eq_true', bne_iff_ne] at hmem
    exact ⟨Bool.eq_false_iff.mp hmem.1, hmem.2⟩
  · rcases hport with rfl | ⟨digits, rfl, -, hdigits, -⟩
    · cases hc
    · rcases List.mem_cons.mp hc with rfl | hc
      · exact ⟨by decide, by decide⟩
      · have hdigit := hdigits c hc
        refine ⟨isWhitespace_digit hdigit, ?_⟩
        rintro rfl
        cases hdigit

theorem IsHostPort.head (h : IsHostPort allowedPort text) :
    ∃ c more, text = c :: more ∧ c ≠ 'h' := by
  obtain ⟨host, hhost, port, -, rfl⟩ := h
  rcases writtenHosts_cases hhost with hname | rfl
  · rcases List.mem_cons.mp hname with rfl | hname
    · exact ⟨_, _, rfl, by decide⟩
    · cases List.mem_singleton.mp hname
      exact ⟨_, _, rfl, by decide⟩
  · exact ⟨_, _, rfl, by decide⟩

theorem stripScheme_cons {c : Char} (hc : c ≠ 'h') (more : List Char) :
    stripScheme (c :: more) = c :: more := by
  have hnone : ∀ start, stripPrefix ('h' :: start) (c :: more) = none := by
    intro start
    rw [stripPrefix, List.isPrefixOf_cons_cons, beq_eq_false_iff_ne.mpr hc.symm]
    rfl
  have hhttp : stripPrefix "http://".toList (c :: more) = none := hnone "ttp://".toList
  have hhttps : stripPrefix "https://".toList (c :: more) = none := hnone "ttps://".toList
  rw [stripScheme, hhttp, hhttps]
  rfl

theorem stripScheme_cases (text : List Char) :
    ∃ scheme ∈ ["".toList, "http://".toList, "https://".toList],
      text = scheme ++ stripScheme text := by
  rw [stripScheme]
  cases hhttp : stripPrefix "http://".toList text with
  | some rest => exact ⟨_, by decide, stripPrefix_some hhttp⟩
  | none =>
    cases hhttps : stripPrefix "https://".toList text with
    | some rest => exact ⟨_, by decide, stripPrefix_some hhttps⟩
    | none => exact ⟨_, List.mem_cons_self, rfl⟩

theorem stripScheme_append {scheme rest : List Char}
    (hscheme : scheme ∈ ["".toList, "http://".toList, "https://".toList])
    (hrest : ∃ c more, rest = c :: more ∧ c ≠ 'h') : stripScheme (scheme ++ rest) = rest := by
  obtain ⟨c, more, rfl, hc⟩ := hrest
  rcases List.mem_cons.mp hscheme with rfl | hscheme
  · exact stripScheme_cons hc more
  rcases List.mem_cons.mp hscheme with rfl | hscheme
  · rw [stripScheme, stripPrefix_append]
  · cases List.mem_singleton.mp hscheme
    have hhttp : stripPrefix "http://".toList ("https://".toList ++ c :: more) = none := rfl
    rw [stripScheme, hhttp, stripPrefix_append]
    rfl

theorem isOrigin_iff : IsOrigin allowedPort text ↔ IsHostPort allowedPort (hostPort text) := by
  constructor
  · rintro ⟨scheme, hscheme, authority, path, hauthority, hpath, rfl⟩
    obtain ⟨c, more, hhead, hc⟩ := hauthority.head
    have hstrip : stripScheme (scheme ++ authority ++ path) = authority ++ path := by
      rw [List.append_assoc]
      exact stripScheme_append hscheme ⟨c, more ++ path, by rw [hhead]; rfl, hc⟩
    have hno : '/' ∉ authority := fun hmem => (hauthority.plain.2 _ hmem).2 rfl
    have htake : hostPort (scheme ++ authority ++ path) = authority := by
      rw [hostPort, hstrip]
      rcases hpath with rfl | ⟨rest, rfl⟩
      · rw [List.append_nil, List.takeWhile_eq_self_iff]
        intro d hd
        exact decide_eq_true (hauthority.plain.2 d hd).2
      · exact takeWhile_until hno rest
    rw [htake]
    exact hauthority
  · intro h
    obtain ⟨scheme, hscheme, htext⟩ := stripScheme_cases text
    refine ⟨scheme, hscheme, hostPort text, (stripScheme text).dropWhile (· ≠ '/'), h, ?_, ?_⟩
    · cases hdrop : (stripScheme text).dropWhile (· ≠ '/') with
      | nil => exact .inl rfl
      | cons c rest =>
        have hhead := List.head_dropWhile_not (p := fun c => decide (c ≠ '/'))
          (l := stripScheme text) (by rw [hdrop]; exact List.cons_ne_nil c rest)
        simp only [hdrop, List.head_cons, decide_eq_false_iff_not, not_not] at hhead
        exact .inr ⟨rest, by rw [hhead]⟩
    · rw [List.append_assoc, hostPort, List.takeWhile_append_dropWhile]
      exact htext

/-- White space can only be behind an origin that has a path, and there it is one too. -/
theorem isOrigin_trim (h : IsOrigin allowedPort text) : IsOrigin allowedPort (trim text) := by
  obtain ⟨scheme, hscheme, authority, path, hauthority, hpath, rfl⟩ := h
  have hfront : ∀ c ∈ scheme ++ authority, ¬ isWhitespace c := by
    intro c hc
    rcases List.mem_append.mp hc with hc | hc
    · have hplain : ["".toList, "http://".toList, "https://".toList].all fun scheme =>
          scheme.all fun c => !isWhitespace c := by decide
      have hmem := List.all_eq_true.mp (List.all_eq_true.mp hplain scheme hscheme) c hc
      exact Bool.eq_false_iff.mp (Bool.not_eq_true' _ ▸ hmem)
    · exact (hauthority.plain.2 c hc).1
  rcases hpath with rfl | ⟨rest, rfl⟩
  · rw [List.append_nil, trim_eq_self hfront]
    exact ⟨scheme, hscheme, authority, [], hauthority, .inl rfl, (List.append_nil _).symm⟩
  · cases hstart : scheme ++ authority with
    | nil => exact absurd (List.append_eq_nil_iff.mp hstart).2 hauthority.plain.1
    | cons first before =>
      rw [hstart] at hfront
      rw [List.cons_append, trim_cons_append (hfront first List.mem_cons_self) (by decide)]
      refine ⟨scheme, hscheme, authority, '/' :: rest.rdropWhile isWhitespace, hauthority,
        .inr ⟨_, rfl⟩, ?_⟩
      rw [hstart, List.cons_append]

def Misread (allowedPort : UInt16) (text : List Char) : Prop :=
  Slip allowedPort (hostPort (trim text)) ∨
    IsOrigin allowedPort (trim text) ∧ ¬ IsOrigin allowedPort text

theorem validateOrigin_text {value : HeaderValue} (h : value.toStr = some text) :
    validateOrigin (some value) allowedPort = true ↔
      IsOrigin allowedPort (trim text) ∨ Slip allowedPort (hostPort (trim text)) := by
  rw [validateOrigin, Option.bind_some, h, isOrigin_iff]
  exact passes_iff

/-- Whatever is let through is an origin of this host if and only if the header is
readable, and is none of the slips and no origin between white space. -/
theorem origin_guard_iff (allowedPort : UInt16) (value : HeaderValue) :
    (validateOrigin (some value) allowedPort = true →
      ∃ text, value.toStr = some text ∧ IsOrigin allowedPort text) ↔
    ∃ text, value.toStr = some text ∧ ¬ Misread allowedPort text := by
  cases htext : value.toStr with
  | none =>
    have hpass : validateOrigin (some value) allowedPort = true := by
      rw [validateOrigin, Option.bind_some, htext]
    refine iff_of_false (fun h => ?_) ?_
    · obtain ⟨text, hnone, -⟩ := h hpass
      cases hnone
    · rintro ⟨text, hnone, -⟩
      cases hnone
  | some text =>
    rw [validateOrigin_text htext]
    constructor
    · refine fun h => ⟨text, rfl, fun hmisread => ?_⟩
      rcases hmisread with hslip | ⟨htrim, hno⟩
      · obtain ⟨text', heq, horigin⟩ := h (.inr hslip)
        cases heq
        exact slip_not_hostPort hslip (isOrigin_iff.mp (isOrigin_trim horigin))
      · obtain ⟨text', heq, horigin⟩ := h (.inl htrim)
        cases heq
        exact hno horigin
    · rintro ⟨text', heq, hread⟩ hpass
      cases heq
      rw [Misread, not_or, not_and_not_right] at hread
      exact ⟨text, rfl, hread.2 (hpass.resolve_right hread.1)⟩

def ascii (text : String) : List UInt8 := text.toList.map fun c => UInt8.ofNat c.toNat

def badPort : HeaderValue :=
  ⟨ascii "http://localhost:evil", List.all_eq_true.mp (by decide)⟩

def bracketedPage : HeaderValue :=
  ⟨ascii "http://[::1].evil.example", List.all_eq_true.mp (by decide)⟩

def unreadable : HeaderValue :=
  ⟨ascii "http://evil.example" ++ [0xE9], List.all_eq_true.mp (by decide)⟩

/-- A port that is no number is no port, a name may go on behind the brackets, and
one byte that is not ASCII opens the guard to any page. -/
theorem strangers_let_through :
    (validateOrigin (some badPort) 8080 = true ∧
      ¬ ∃ text, badPort.toStr = some text ∧ IsOrigin 8080 text) ∧
    (validateOrigin (some bracketedPage) 8080 = true ∧
      ¬ ∃ text, bracketedPage.toStr = some text ∧ IsOrigin 8080 text) ∧
    (validateOrigin (some unreadable) 8080 = true ∧
      ¬ ∃ text, unreadable.toStr = some text ∧ IsOrigin 8080 text) := by
  refine ⟨⟨by decide, ?_⟩, ⟨by decide, ?_⟩, by decide, ?_⟩
  · rintro ⟨text, htext, horigin⟩
    cases (show badPort.toStr = some "http://localhost:evil".toList by decide).symm.trans htext
    refine slip_not_hostPort ?_ (isOrigin_iff.mp horigin)
    exact .noNumber (show "localhost".toList ∈ allowedHosts by decide)
      (show ':' ∉ "evil".toList by decide) (by decide)
  · rintro ⟨text, htext, horigin⟩
    cases (show bracketedPage.toStr = some "http://[::1].evil.example".toList by decide).symm.trans
      htext
    refine slip_not_hostPort ?_ (isOrigin_iff.mp horigin)
    refine .afterBracket (show ".evil.example".toList ≠ [] by decide) fun port heq => ?_
    exact absurd (List.cons.inj heq).1 (by decide)
  · rintro ⟨text, htext, -⟩
    cases (show unreadable.toStr = none by decide).symm.trans htext

end Origin

end Ccgonext.Origin
