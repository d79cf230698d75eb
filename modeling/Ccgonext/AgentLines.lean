import Ccgonext.Client
import Ccgonext.Lib.Text
import Ccgonext.Lib.Utf8
import Ccgonext.Updates

/-!
# The lines of an agent

The loops of `reader_task` and `drain_stderr` over the bytes an agent writes. The
steps that other tasks take in between, on the table of pending requests or
anything else, are part of the input of the reader. A line is given without its
line feed, which `read_line` leaves at its end and both loops trim. What
`serde_json` makes of a text and of the parameters of a notification is a
parameter.
-/

namespace Ccgonext.AgentLines
open Lib Lib.Text Lib.Utf8 Events Updates Client

structure Decoders (Value : Type) where
  null : Value
  incoming : List Char → Option (IncomingMessage Value)
  notification : Value → Option SessionUpdate

/-- What `read_line` comes to; a task may be aborted there. -/
inductive Got
  | line (bytes : List UInt8)
  | eof
  | ioError
  | aborted
  deriving DecidableEq, Repr

inductive Ending
  | eof
  | ioError
  | aborted
  | notUtf8
  deriving DecidableEq, Repr

/-- Out of its loop the reader closes the client, unless it was aborted. -/
def Ending.next : Ending → ReaderPc
  | .eof | .ioError | .notUtf8 => .storeClosed
  | .aborted => .cancelled

inductive Produced (Value : Type)
  | outcome (call : ℕ) (result : ResponseResult Value)
  | event (payload : EventPayload)
  | callback (id : RequestId) (method : String) (params : Value)
  deriving DecidableEq, Repr

structure Reader (Value : Type) where
  sys : Sys Value
  produced : List (Produced Value)
  ended : Option Ending

inductive Input (Value : Type)
  | got (g : Got)
  | others (change : Sys Value → Sys Value)

section Reading
variable {Value : Type} (d : Decoders Value)

def Decoders.line (text : List Char) : Line Value :=
  if trim text = [] then .blank
  else
    match d.incoming (trim text) with
    | none => .notJson
    | some m => .message m

def produces (s : Sys Value) (l : Line Value) : List (Produced Value) :=
  match l with
  | .blank | .notJson => []
  | .message m =>
    match m.classify d.null with
    | .response .. =>
      match l.response d.null with
      | none => []
      | some (id, result) =>
        match (s.client.pending.retain s.listening).entries.lookup id with
        | none => []
        | some i => [.outcome i result]
    | .notification method params =>
      if method = "session/update" then
        ((d.notification params).bind handleSessionUpdate).toList.map .event
      else []
    | .request id method params => [.callback id method params]
    | .invalid => []

namespace Reader
variable {Value : Type} (r : Reader Value)

def start (s : Sys Value) : Reader Value := ⟨s, [], none⟩

def leave (ending : Ending) : Reader Value :=
  { r with
    sys := { r.sys with client := { r.sys.client with reader := ending.next } }
    ended := some ending }

def handle (d : Decoders Value) (l : Line Value) : Reader Value :=
  { r with
    sys := { r.sys with client := r.sys.handle d.null l }
    produced := r.produced ++ produces d r.sys l }

def step (d : Decoders Value) : Input Value → Reader Value
  | .others change => { r with sys := change r.sys }
  | .got g =>
    match r.ended with
    | some _ => r
    | none =>
      match g with
      | .eof => r.leave .eof
      | .ioError => r.leave .ioError
      | .aborted => r.leave .aborted
      | .line bytes =>
        match decode bytes with
        | none => r.leave .notUtf8
        | some text => r.handle d (d.line text)

def run (d : Decoders Value) (inputs : List (Input Value)) : Reader Value :=
  inputs.foldl (fun r i => r.step d i) r

end Reader

end Reading

def drainStderr : List Got → List (List Char) × Option Ending
  | [] => ([], none)
  | .eof :: _ => ([], some .eof)
  | .ioError :: _ => ([], some .ioError)
  | .aborted :: _ => ([], some .aborted)
  | .line bytes :: gots =>
    match decode bytes with
    | none => ([], some .notUtf8)
    | some text =>
      if trimEnd text = [] then drainStderr gots
      else (trimEnd text :: (drainStderr gots).1, (drainStderr gots).2)

def Got.more : Got → Bool
  | .line _ => true
  | .eof | .ioError | .aborted => false

def Input.more {Value : Type} : Input Value → Bool
  | .got g => g.more
  | .others _ => true

section Undecodable
variable {Value : Type} (d : Decoders Value)

/-- No text, no JSON, no message, or an update without its parameters. -/
def Undecodable (bytes : List UInt8) : Bool :=
  match decode bytes with
  | none => true
  | some text =>
    match d.line text with
    | .blank => false
    | .notJson => true
    | .message m =>
      match m.classify d.null with
      | .invalid => true
      | .notification method params =>
        method = "session/update" ∧ (d.notification params).isNone
      | .request .. | .response .. => false

def Input.undecodable : Input Value → Bool
  | .got (.line bytes) => Undecodable d bytes
  | .got .eof | .got .ioError | .got .aborted | .others _ => false

end Undecodable

section Reading
variable {Value : Type} (d : Decoders Value)

theorem response_eq_none {m : IncomingMessage Value}
    (h : ∀ id result error, m.classify d.null ≠ .response id result error) :
    (Line.message m).response d.null = none := by
  unfold Line.response
  dsimp only
  cases hkind : m.classify d.null with
  | response id result error => exact absurd hkind (h id result error)
  | request id method params => rfl
  | notification method params => rfl
  | invalid => rfl

theorem handle_undecodable {bytes : List UInt8} {text : List Char}
    (hdecode : decode bytes = some text)
    (hbad : Undecodable d bytes = true) (r : Reader Value) : r.handle d (d.line text) = r := by
  have hquiet : (d.line text).response d.null = none ∧ produces d r.sys (d.line text) = [] := by
    simp only [Undecodable, hdecode] at hbad
    cases hline : d.line text with
    | blank => exact ⟨rfl, rfl⟩
    | notJson => exact ⟨rfl, rfl⟩
    | message m =>
      simp only [hline] at hbad
      cases hkind : m.classify d.null with
      | request id method params => simp [hkind] at hbad
      | response id result error => simp [hkind] at hbad
      | invalid =>
        refine ⟨response_eq_none d fun _ _ _ h => ?_, by simp only [produces, hkind]⟩
        rw [hkind] at h
        cases h
      | notification method params =>
        refine ⟨response_eq_none d fun _ _ _ h => ?_, ?_⟩
        · rw [hkind] at h
          cases h
        · simp only [hkind, decide_eq_true_eq, Option.isNone_iff_eq_none] at hbad
          simp only [produces, hkind, hbad.1, hbad.2, if_true]
          rfl
  obtain ⟨hresponse, hproduces⟩ := hquiet
  simp only [Reader.handle, Sys.handle, hresponse, hproduces, List.append_nil]

theorem run_ended {r : Reader Value} {ending : Ending} (hr : r.ended = some ending)
    (inputs : List (Input Value)) :
    (r.run d inputs).ended = some ending ∧
      r.run d inputs = r.run d (inputs.filter fun i => !i.undecodable d) := by
  induction inputs generalizing r with
  | nil => exact ⟨hr, rfl⟩
  | cons i inputs ih =>
    cases i with
    | others change => exact ih (r := r.step d (.others change)) hr
    | got g =>
      have hstep : r.step d (.got g) = r := by simp only [Reader.step, hr]
      have hrun : r.run d (.got g :: inputs) = r.run d inputs := by
        rw [Reader.run, List.foldl_cons, hstep]
        rfl
      rw [hrun]
      refine ⟨(ih hr).1, (ih hr).2.trans ?_⟩
      rw [List.filter_cons]
      split
      · rw [Reader.run, Reader.run, List.foldl_cons, hstep]
      · rfl

theorem ends_iff {r : Reader Value} {g : Got} {ending : Ending}
    (hstep : r.step d (.got g) = r.leave ending) (inputs : List (Input Value))
    (hmore : g.more = false) (hkept : Input.undecodable d (.got g) = false)
    (hgenuine : ending ≠ .notUtf8) :
    ((r.run d (.got g :: inputs)).ended ≠ some .notUtf8 ∧
        r.run d (.got g :: inputs) =
          r.run d ((.got g :: inputs).filter fun i => !i.undecodable d)) ↔
      ∀ bytes, .got (.line bytes) ∈ (Input.got g :: inputs).takeWhile Input.more →
        IsUtf8 bytes = true := by
  obtain ⟨hended, hsame⟩ := run_ended d (r := r.leave ending) rfl inputs
  have hcons : ∀ inputs, r.run d (.got g :: inputs) = (r.leave ending).run d inputs := by
    intro inputs
    rw [Reader.run, List.foldl_cons, hstep]
    rfl
  have hnone : (Input.got g :: inputs).takeWhile Input.more = [] := by
    simp [Input.more, hmore]
  have hfilter : (Input.got g :: inputs).filter (fun i => !i.undecodable d) =
      .got g :: inputs.filter fun i => !i.undecodable d := by
    simp [hkept]
  rw [hfilter, hcons, hcons, hnone]
  constructor
  · intro _ bytes hmem
    cases hmem
  · intro _
    refine ⟨fun h => hgenuine ?_, hsame⟩
    rw [hended] at h
    exact Option.some.inj h

theorem forall_line_cons {bytes : List UInt8} {inputs : List (Input Value)}
    {P : List UInt8 → Prop} :
    (∀ b, Input.got (.line b) ∈ .got (.line bytes) :: inputs → P b) ↔
      P bytes ∧ ∀ b, Input.got (.line b) ∈ inputs → P b := by
  constructor
  · intro h
    exact ⟨h bytes List.mem_cons_self, fun b hb => h b (List.mem_cons_of_mem _ hb)⟩
  · rintro ⟨hbytes, hrest⟩ b hb
    rcases List.mem_cons.mp hb with heq | hb
    · cases heq
      exact hbytes
    · exact hrest b hb

theorem run_iff {r : Reader Value} (hr : r.ended = none) (inputs : List (Input Value)) :
    ((r.run d inputs).ended ≠ some .notUtf8 ∧
        r.run d inputs = r.run d (inputs.filter fun i => !i.undecodable d)) ↔
      ∀ bytes, .got (.line bytes) ∈ inputs.takeWhile Input.more → IsUtf8 bytes = true := by
  induction inputs generalizing r with
  | nil => simp [Reader.run, hr]
  | cons i inputs ih =>
    have hcons : ∀ i inputs, r.run d (i :: inputs) = (r.step d i).run d inputs := fun _ _ => rfl
    cases i with
    | others change =>
      have hkept : (Input.others change :: inputs).filter (fun i => !i.undecodable d) =
          .others change :: inputs.filter fun i => !i.undecodable d := rfl
      have hmore : (Input.others change :: inputs).takeWhile Input.more =
          .others change :: inputs.takeWhile Input.more := rfl
      rw [hkept, hmore, hcons, hcons, ih (r := r.step d (.others change)) hr]
      simp only [List.mem_cons, reduceCtorEq, false_or]
    | got g =>
      cases g with
      | eof =>
        have hstep : r.step d (.got .eof) = r.leave .eof := by simp only [Reader.step, hr]
        exact ends_iff d hstep inputs rfl rfl (by decide)
      | ioError =>
        have hstep : r.step d (.got .ioError) = r.leave .ioError := by simp only [Reader.step, hr]
        exact ends_iff d hstep inputs rfl rfl (by decide)
      | aborted =>
        have hstep : r.step d (.got .aborted) = r.leave .aborted := by simp only [Reader.step, hr]
        exact ends_iff d hstep inputs rfl rfl (by decide)
      | line bytes =>
        have hmore : (Input.got (.line bytes) :: inputs).takeWhile Input.more =
            .got (.line bytes) :: inputs.takeWhile Input.more := rfl
        rw [hcons, hmore, forall_line_cons]
        cases hdecode : decode bytes with
        | none =>
          have hstep : r.step d (.got (.line bytes)) = r.leave .notUtf8 := by
            simp only [Reader.step, hr, hdecode]
          have hbad : IsUtf8 bytes = false := by simp [IsUtf8, hdecode]
          rw [hstep]
          constructor
          · intro h
            exact absurd (run_ended d rfl inputs).1 h.1
          · rintro ⟨hutf8, -⟩
            rw [hbad] at hutf8
            cases hutf8
        | some text =>
          have hstep : r.step d (.got (.line bytes)) = r.handle d (d.line text) := by
            simp only [Reader.step, hr, hdecode]
          have hgood : IsUtf8 bytes = true := by simp [IsUtf8, hdecode]
          rw [hstep, and_iff_right hgood]
          cases hun : Undecodable d bytes with
          | true =>
            -- handled or dropped, the line leaves the reader as it was
            have hkept : (Input.got (.line bytes) :: inputs).filter (fun i => !i.undecodable d) =
                inputs.filter fun i => !i.undecodable d := by
              simp [Input.undecodable, hun]
            rw [hkept, handle_undecodable d hdecode hun, ih hr]
          | false =>
            have hkept : (Input.got (.line bytes) :: inputs).filter (fun i => !i.undecodable d) =
                .got (.line bytes) :: inputs.filter fun i => !i.undecodable d := by
              simp [Input.undecodable, hun]
            rw [hkept, hcons, hstep, ih (r := r.handle d (d.line text)) hr]

theorem drainStderr_iff (gots : List Got) :
    (drainStderr gots).2 ≠ some .notUtf8 ↔
      ∀ bytes, .line bytes ∈ gots.takeWhile Got.more → IsUtf8 bytes = true := by
  induction gots with
  | nil => simp [drainStderr]
  | cons g gots ih =>
    cases g with
    | eof => simp [drainStderr, Got.more]
    | ioError => simp [drainStderr, Got.more]
    | aborted => simp [drainStderr, Got.more]
    | line bytes =>
      have hmore : (Got.line bytes :: gots).takeWhile Got.more =
          .line bytes :: gots.takeWhile Got.more := rfl
      rw [hmore]
      cases hdecode : decode bytes with
      | none =>
        have hbad : ¬ IsUtf8 bytes = true := by simp [IsUtf8, hdecode]
        refine iff_of_false (fun h => h ?_) fun h => hbad (h bytes (List.mem_cons_self ..))
        simp only [drainStderr, hdecode]
      | some text =>
        have hgood : IsUtf8 bytes = true := by simp [IsUtf8, hdecode]
        have hrest : (drainStderr (.line bytes :: gots)).2 = (drainStderr gots).2 := by
          simp only [drainStderr, hdecode]
          split <;> rfl
        rw [hrest, ih]
        simp [hgood]

/-- Both loops go on to the end of their streams, and the reader comes to what it
comes to without the undecodable lines. -/
def Unharmed (s : Sys Value) (stdout : List (Input Value)) (stderr : List Got) : Prop :=
  (((Reader.start s).run d stdout).ended ≠ some .notUtf8 ∧
    (Reader.start s).run d stdout =
      (Reader.start s).run d (stdout.filter fun i => !i.undecodable d)) ∧
  (drainStderr stderr).2 ≠ some .notUtf8

/-- So it is exactly if all they read is UTF-8. -/
theorem unharmed_iff (s : Sys Value) (stdout : List (Input Value)) (stderr : List Got) :
    Unharmed d s stdout stderr ↔
      (∀ bytes, .got (.line bytes) ∈ stdout.takeWhile Input.more → IsUtf8 bytes = true) ∧
        ∀ bytes, .line bytes ∈ stderr.takeWhile Got.more → IsUtf8 bytes = true :=
  and_congr (run_iff d rfl stdout) (drainStderr_iff stderr)

end Reading

def callbackText : List Char :=
  ("\x7b\"jsonrpc\":\"2.0\",\"id\":1,\"method\":\"fs/read_text_file\"," ++
    "\"params\":\x7b\"path\":\"/a\"\x7d\x7d").toList

def callbackDecoders : Decoders String where
  null := "null"
  incoming text :=
    if text = callbackText then
      some ⟨some (.number 1), some "fs/read_text_file", some "\x7b\"path\":\"/a\"\x7d", none, none⟩
    else none
  notification := fun _ => none

theorem badThenCallback_harmed :
    let stdout : List (Input String) :=
      [.got (.line [0xFF]), .got (.line (encode callbackText)), .got .eof]
    ¬ Unharmed callbackDecoders (.new "claude") stdout [.line [0xFF], .eof] ∧
      ((Reader.start (.new "claude")).run callbackDecoders stdout).produced = [] ∧
      ((Reader.start (.new "claude")).run callbackDecoders
          (stdout.filter fun i => !i.undecodable callbackDecoders)).produced =
        [.callback (.number 1) "fs/read_text_file" "\x7b\"path\":\"/a\"\x7d"] ∧
      drainStderr [.line [0xFF], .eof] = ([], some .notUtf8) := by
  refine ⟨fun h => h.1.1 (by decide), by decide +kernel, by decide +kernel, by decide⟩

end Ccgonext.AgentLines
