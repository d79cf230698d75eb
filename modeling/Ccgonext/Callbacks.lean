import Ccgonext.Lib.Posix

/-!
# File callbacks of the agent

`CallbackHandler` of `acp/callbacks.rs`: `resolve_path` and the two handlers that
open the path it accepts. The check and the access take the path separately. For
a path that leads somewhere both end at the same place. For one that does not,
`resolve_path` puts the canonical parent and the file name together and asks
whether that is under the project, while `tokio::fs::write` follows a link of
that name and creates the file it points to.

A `Reply` says what a handler returned, which file it opened and what it left of
the file system. `granted` is the user's answer under the `ask` policy; the log
entries of the permission dialogue are left out.
-/

namespace Ccgonext.Callbacks
open Lib Lib.Posix Lib.Posix.FileSystem

inductive CallbackPolicy
  | denyAll
  | readOnly
  | ask
  | autoApprove
  deriving DecidableEq, Repr

structure RpcError where
  code : ℤ
  message : String
  deriving DecidableEq, Repr

def resolveFailed (e : Errno) : RpcError := ⟨-32002, "Path resolve failed: " ++ e.text⟩

structure CallbackHandler where
  policy : CallbackPolicy
  cwd : Path
  deriving DecidableEq, Repr

structure Reply (α : Type) where
  result : Except RpcError α
  accessed : Option Loc
  fs : FileSystem

namespace CallbackHandler
variable (h : CallbackHandler) (fs : FileSystem)

def absolutePath (path : Path) : Path :=
  if path.absolute then path else h.cwd.join path

/-- `canonical` of `resolve_path`, from `absolute`. -/
def canonicalTarget (absolute : Path) (allowMissingLeaf : Bool) : Except RpcError Path :=
  if allowMissingLeaf && !fs.pathExists absolute then
    match absolute.parent with
    | none => .error ⟨-32002, "Path has no parent"⟩
    | some parent =>
      match fs.canonicalize parent with
      | .error e => .error (resolveFailed e)
      | .ok canonicalParent =>
        match absolute.fileName with
        | none => .error ⟨-32002, "Path has no file name"⟩
        | some fileName => .ok (canonicalParent.join ⟨false, [.name fileName]⟩)
  else
    match fs.canonicalize absolute with
    | .error e => .error (resolveFailed e)
    | .ok canonical => .ok canonical

/-- A project directory that cannot be resolved is taken as it is written. -/
def cwdCanonical : Path :=
  match fs.canonicalize h.cwd with
  | .ok canonical => canonical
  | .error _ => h.cwd

def resolvePath (path : Path) (allowMissingLeaf : Bool) : Except RpcError Path :=
  match canonicalTarget fs (h.absolutePath path) allowMissingLeaf with
  | .error e => .error e
  | .ok canonical =>
    if canonical.startsWith (h.cwdCanonical fs) then .ok (h.absolutePath path)
    else .error ⟨-32001, "Path outside project directory"⟩

def withWritePermission (granted : Bool) : Except RpcError Unit :=
  match h.policy with
  | .denyAll | .readOnly => .error ⟨-32001, "Operation denied by policy"⟩
  | .autoApprove => .ok ()
  | .ask => if granted then .ok () else .error ⟨-32001, "Operation denied by user"⟩

def handleReadFile (path : Path) : Reply String :=
  match h.policy with
  | .denyAll => ⟨.error ⟨-32001, "File read denied by policy"⟩, none, fs⟩
  | .readOnly | .ask | .autoApprove =>
    match h.resolvePath fs path false with
    | .error e => ⟨.error e, none, fs⟩
    | .ok path =>
      match fs.openRead path with
      | .error e => ⟨.error ⟨-32002, "Read failed: " ++ e.text⟩, none, fs⟩
      | .ok loc =>
        match fs.readText loc with
        | .error e => ⟨.error ⟨-32002, "Read failed: " ++ e.text⟩, some loc, fs⟩
        | .ok content => ⟨.ok content, some loc, fs⟩

def handleWriteFile (path : Path) (content : String) (granted : Bool) : Reply Unit :=
  match h.resolvePath fs path true with
  | .error e => ⟨.error e, none, fs⟩
  | .ok path =>
    match h.withWritePermission granted with
    | .error e => ⟨.error e, none, fs⟩
    | .ok () =>
      match fs.writeText path content with
      | .error e => ⟨.error ⟨-32002, "Write failed: " ++ e.text⟩, none, fs⟩
      | .ok (loc, fs') => ⟨.ok (), some loc, fs'⟩

def Under (loc : Loc) : Prop := (Path.ofLoc loc).startsWith (h.cwdCanonical fs)

def mayWrite : CallbackPolicy → Bool
  | .ask | .autoApprove => true
  | .denyAll | .readOnly => false

/-- The request names a link in a directory, itself under the project, that
leads to a missing file of a directory elsewhere. -/
def Escapes (path : Path) : Prop :=
  ∃ parent name dir target d leaf,
    (h.absolutePath path).parent = some parent ∧ (h.absolutePath path).fileName = some name ∧
    fs.resolve parent = .found dir ∧ fs.entry (dir ++ [name]) = some (.link target) ∧
    h.Under fs (dir ++ [name]) ∧
    fs.resolve (h.absolutePath path) = .vacant d leaf ∧ ¬ h.Under fs (d ++ [leaf])

def Confined (path : Path) : Prop :=
  (∀ loc, (h.handleReadFile fs path).accessed = some loc → h.Under fs loc) ∧
  ∀ content granted loc, (h.handleWriteFile fs path content granted).accessed = some loc →
    h.Under fs loc

section Spec
variable {h : CallbackHandler} {fs : FileSystem} {path abs c : Path} {m : Bool} {loc d : Loc}
  {leaf : String}

theorem under_iff {cwd : Loc} (hcwd : fs.resolve h.cwd = .found cwd) :
    h.Under fs loc ↔ cwd <+: loc := by
  have hc : h.cwdCanonical fs = .ofLoc cwd := by
    simp only [cwdCanonical, canonicalize, hcwd]
  rw [Under, hc]
  exact Path.ofLoc_startsWith_ofLoc loc cwd

theorem resolvePath_ok : h.resolvePath fs path m = .ok abs ↔
    abs = h.absolutePath path ∧ ∃ c, canonicalTarget fs abs m = .ok c ∧
      c.startsWith (h.cwdCanonical fs) := by
  unfold resolvePath
  constructor
  · intro hr
    split at hr
    · cases hr
    · next c hc =>
      split at hr
      · next hu =>
        cases hr
        exact ⟨rfl, c, hc, hu⟩
      · cases hr
  · rintro ⟨rfl, c, hc, hu⟩
    simp only [hc, hu, ↓reduceIte]

theorem canonicalTarget_found (hr : fs.resolve abs = .found loc) :
    canonicalTarget fs abs m = .ok (.ofLoc loc) := by
  have he : fs.pathExists abs = true := pathExists_iff.mpr ⟨loc, hr⟩
  have hc : fs.canonicalize abs = .ok (.ofLoc loc) := canonicalize_ok.mpr ⟨loc, hr, rfl⟩
  simp only [canonicalTarget, he, hc, Bool.not_true, Bool.and_false, Bool.false_eq_true,
    ↓reduceIte]

theorem canonicalTarget_missing (hr : ∀ loc, fs.resolve abs ≠ .found loc) :
    canonicalTarget fs abs true = .ok c ↔
      ∃ parent name dir, abs.parent = some parent ∧ abs.fileName = some name ∧
        fs.resolve parent = .found dir ∧ c = .ofLoc (dir ++ [name]) := by
  have he : fs.pathExists abs = false := by
    rw [Bool.eq_false_iff]
    intro hp
    obtain ⟨loc, hloc⟩ := pathExists_iff.mp hp
    exact hr loc hloc
  simp only [canonicalTarget, he, Bool.not_false, Bool.and_self, ↓reduceIte]
  constructor
  · intro hc
    split at hc
    · cases hc
    · next parent hparent =>
      split at hc
      · cases hc
      · next cp hcp =>
        obtain ⟨dir, hdir, rfl⟩ := canonicalize_ok.mp hcp
        split at hc
        · cases hc
        · next name hname =>
          cases hc
          exact ⟨parent, name, dir, hparent, hname, hdir, Path.ofLoc_join_name dir name⟩
  · rintro ⟨parent, name, dir, hparent, hname, hdir, rfl⟩
    have hcp : fs.canonicalize parent = .ok (.ofLoc dir) := canonicalize_ok.mpr ⟨dir, hdir, rfl⟩
    simp only [hparent, hcp, hname, Path.ofLoc_join_name]

theorem handleReadFile_accessed (ha : (h.handleReadFile fs path).accessed = some loc) :
    h.resolvePath fs path false = .ok (h.absolutePath path) ∧
      fs.resolve (h.absolutePath path) = .found loc := by
  unfold handleReadFile at ha
  split at ha
  · cases ha
  all_goals
    cases hp : h.resolvePath fs path false with
    | error e =>
      rw [hp] at ha
      cases ha
    | ok abs =>
      obtain ⟨rfl, -⟩ := resolvePath_ok.mp hp
      cases ho : fs.openRead (h.absolutePath path) with
      | error e =>
        simp only [hp, ho] at ha
        cases ha
      | ok l =>
        have hl : l = loc := by
          simp only [hp, ho] at ha
          split at ha <;> exact Option.some.inj ha
        rw [hl] at ho
        exact ⟨rfl, openRead_ok.mp ho⟩

theorem handleWriteFile_accessed {content : String} {granted : Bool}
    (ha : (h.handleWriteFile fs path content granted).accessed = some loc) :
    h.resolvePath fs path true = .ok (h.absolutePath path) ∧
      h.withWritePermission granted = .ok () ∧ fs.openWrite (h.absolutePath path) = .ok loc := by
  unfold handleWriteFile at ha
  cases hp : h.resolvePath fs path true with
  | error e =>
    rw [hp] at ha
    cases ha
  | ok abs =>
    obtain ⟨rfl, -⟩ := resolvePath_ok.mp hp
    cases hg : h.withWritePermission granted with
    | error e =>
      simp only [hp, hg] at ha
      cases ha
    | ok u =>
      cases hw : fs.writeText (h.absolutePath path) content with
      | error e =>
        simp only [hp, hg, hw] at ha
        cases ha
      | ok r =>
        simp only [hp, hg, hw, Option.some.injEq] at ha
        subst ha
        exact ⟨rfl, rfl, (writeText_ok hw).1⟩

theorem withWritePermission_ok :
    (∃ granted, h.withWritePermission granted = .ok ()) ↔ mayWrite h.policy = true := by
  unfold withWritePermission
  cases h.policy <;> simp [mayWrite]

theorem read_under (ha : (h.handleReadFile fs path).accessed = some loc) : h.Under fs loc := by
  obtain ⟨hp, hr⟩ := handleReadFile_accessed ha
  obtain ⟨-, c, hc, hu⟩ := resolvePath_ok.mp hp
  rw [canonicalTarget_found hr] at hc
  cases hc
  exact hu

theorem write_under {content : String} {granted : Bool}
    (ha : (h.handleWriteFile fs path content granted).accessed = some loc) :
    h.Under fs loc ∨ h.Escapes fs path := by
  obtain ⟨hp, -, ho⟩ := handleWriteFile_accessed ha
  obtain ⟨-, c, hc, hu⟩ := resolvePath_ok.mp hp
  rcases openWrite_ok ho with ⟨hr, -⟩ | ⟨d, leaf, hv, rfl⟩
  · rw [canonicalTarget_found hr] at hc
    cases hc
    exact .inl hu
  · have hne : ∀ l, fs.resolve (h.absolutePath path) ≠ .found l := by
      intro l hl
      rw [hv] at hl
      cases hl
    obtain ⟨parent, name, dir, hparent, hname, hdir, rfl⟩ := (canonicalTarget_missing hne).mp hc
    rcases resolve_vacant_parent hname hparent hdir hv with ⟨rfl, rfl⟩ | ⟨target, ht⟩
    · exact .inl hu
    · by_cases hout : h.Under fs (d ++ [leaf])
      · exact .inl hout
      · exact .inr ⟨parent, name, dir, target, d, leaf, hparent, hname, hdir, ht, hu, hv, hout⟩

theorem Escapes.write (he : h.Escapes fs path) {granted : Bool}
    (hg : h.withWritePermission granted = .ok ()) (content : String) :
    ∃ loc, (h.handleWriteFile fs path content granted).accessed = some loc ∧ ¬ h.Under fs loc := by
  obtain ⟨parent, name, dir, target, d, leaf, hparent, hname, hdir, -, hu, hv, hout⟩ := he
  have hne : ∀ l, fs.resolve (h.absolutePath path) ≠ .found l := by
    intro l hl
    rw [hv] at hl
    cases hl
  have hc := (canonicalTarget_missing hne).mpr ⟨parent, name, dir, hparent, hname, hdir, rfl⟩
  have hp : h.resolvePath fs path true = .ok (h.absolutePath path) :=
    resolvePath_ok.mpr ⟨rfl, _, hc, hu⟩
  obtain ⟨fs', hw⟩ := writeText_of_openWrite (openWrite_of_vacant hv) content
  refine ⟨d ++ [leaf], ?_, hout⟩
  simp only [handleWriteFile, hp, hg, hw]

end Spec

/-- Reads stay under the project. Writes do too, unless a policy that lets
writes pass meets a dangling link that leads out. -/
theorem confined_iff_not_escapes (path : Path) :
    h.Confined fs path ↔ ¬ (mayWrite h.policy = true ∧ h.Escapes fs path) := by
  constructor
  · rintro hconf ⟨hmay, hesc⟩
    obtain ⟨granted, hg⟩ := withWritePermission_ok.mpr hmay
    obtain ⟨loc, ha, hout⟩ := hesc.write hg ""
    exact hout (hconf.2 "" granted loc ha)
  · intro hno
    refine ⟨fun loc ha => read_under ha, fun content granted loc ha => ?_⟩
    rcases write_under ha with hu | hesc
    · exact hu
    · obtain ⟨-, hg, -⟩ := handleWriteFile_accessed ha
      exact absurd ⟨withWritePermission_ok.mp ⟨granted, hg⟩, hesc⟩ hno

theorem handleWriteFile_frame (path : Path) (content : String) (granted : Bool) (loc : Loc)
    (ha : (h.handleWriteFile fs path content granted).accessed ≠ some loc) :
    (h.handleWriteFile fs path content granted).fs.entry loc = fs.entry loc := by
  unfold handleWriteFile at ha ⊢
  cases hp : h.resolvePath fs path true with
  | error e => rfl
  | ok abs =>
    cases hg : h.withWritePermission granted with
    | error e => rfl
    | ok u =>
      cases hw : fs.writeText abs content with
      | error e => simp only [hw]
      | ok r =>
        simp only [hp, hg, hw, ne_eq, Option.some.injEq] at ha ⊢
        exact (writeText_ok hw).2.2 loc (Ne.symm ha)

end CallbackHandler

open CallbackHandler

/-- `/proj` holds a link to a file of `/out` that does not exist. -/
def linkedOut : FileSystem :=
  ofEntries [(["proj"], .dir), (["out"], .dir),
    (["proj", "l"], .link ⟨true, [.name "out", .name "new"]⟩)] [] 40 (by decide)

def projectHandler : CallbackHandler := ⟨.autoApprove, ⟨true, [.name "proj"]⟩⟩

theorem linkedOut_not_confined :
    (projectHandler.handleWriteFile linkedOut ⟨false, [.name "l"]⟩ "text" false).accessed =
      some ["out", "new"] ∧
    ¬ projectHandler.Under linkedOut ["out", "new"] ∧
    ¬ projectHandler.Confined linkedOut ⟨false, [.name "l"]⟩ := by
  have ha : (projectHandler.handleWriteFile linkedOut ⟨false, [.name "l"]⟩ "text" false).accessed =
      some ["out", "new"] := by decide
  have hout : ¬ projectHandler.Under linkedOut ["out", "new"] := by
    unfold Under
    decide
  exact ⟨ha, hout, fun hconf => hout (hconf.2 "text" false _ ha)⟩

end Ccgonext.Callbacks
