import Mathlib.Data.List.DropRight
import Mathlib.Logic.Function.Basic

/-!
# Paths and path resolution

A path is a list of components as it is written; a doubled or a trailing slash
leaves an empty component behind. The operations on paths are those of
`std::path::Path`, which see a path through `components`: an empty component does
not count, and `.` counts at the front of a relative path only.

A file system is a tree of directories, files and symbolic links, and a place in
it is the list of names that leads there from the root. `walk` follows a path
component by component: it wants a directory before every component, splices in
the target of each link it meets, the last component included, and follows at
most `links` of them. An empty component is walked like `.`. The last component
may be missing; then the walk ends at a vacant place, where `openWrite` creates the
file. A walk that may create refuses a name with a trailing slash, whatever is there.
-/

namespace Ccgonext.Lib.Posix

inductive Comp
  | cur
  | empty
  | up
  | name (n : String)
  deriving DecidableEq, Repr

def Comp.stays : Comp → Bool
  | .cur | .empty => true
  | .up | .name _ => false

structure Path where
  absolute : Bool
  comps : List Comp
  deriving DecidableEq, Repr

abbrev Loc := List String

namespace Path

def isEmpty (p : Path) : Bool := !p.absolute && p.comps.isEmpty

def ofLoc (loc : Loc) : Path := ⟨true, loc.map .name⟩

/-- The components an iteration yields, `none` for the root. -/
def components (p : Path) : List (Option Comp) :=
  match p.absolute, p.comps with
  | true, cs => none :: (cs.filter (!·.stays)).map some
  | false, .cur :: cs => some .cur :: (cs.filter (!·.stays)).map some
  | false, cs => (cs.filter (!·.stays)).map some

def startsWith (p base : Path) : Prop := base.components <+: p.components

instance (p base : Path) : Decidable (p.startsWith base) :=
  inferInstanceAs (Decidable (_ <+: _))

/-- Joining the empty path leaves a trailing slash. -/
def join (p q : Path) : Path :=
  if q.absolute then q
  else if p.isEmpty then q
  else { p with comps := p.comps ++ if q.comps = [] then [.empty] else q.comps }

def trim (p : Path) : Path :=
  match p.absolute, p.comps with
  | false, .cur :: cs => ⟨false, .cur :: cs.rdropWhile Comp.stays⟩
  | absolute, cs => ⟨absolute, cs.rdropWhile Comp.stays⟩

def parent (p : Path) : Option Path :=
  match p.trim.comps with
  | [] => none
  | cs => some (trim ⟨p.absolute, cs.dropLast⟩)

def fileName (p : Path) : Option String :=
  match p.trim.comps.getLast? with
  | some (.name n) => some n
  | _ => none

theorem trim_append (p : Path) : ∃ dots, (∀ c ∈ dots, c.stays = true) ∧
    p.trim.absolute = p.absolute ∧ p.comps = p.trim.comps ++ dots := by
  unfold trim
  split
  · next cs habs hcs =>
    refine ⟨cs.rtakeWhile Comp.stays, fun c hc => List.mem_rtakeWhile_imp hc, habs.symm, ?_⟩
    rw [hcs, List.cons_append, List.rdropWhile_append_rtakeWhile]
  · next =>
    refine ⟨p.comps.rtakeWhile Comp.stays, fun c hc => List.mem_rtakeWhile_imp hc, rfl, ?_⟩
    rw [List.rdropWhile_append_rtakeWhile]

theorem fileName_append {p : Path} {n : String} (h : p.fileName = some n) :
    ∃ q dots₁ dots₂, p.parent = some q ∧ (∀ c ∈ dots₁, c.stays = true) ∧
      (∀ c ∈ dots₂, c.stays = true) ∧
      q.absolute = p.absolute ∧ p.comps = q.comps ++ (dots₁ ++ .name n :: dots₂) := by
  obtain ⟨dots₂, hdots₂, -, hp⟩ := p.trim_append
  have hlast : p.trim.comps.getLast? = some (.name n) := by
    unfold fileName at h
    split at h
    · next m hm =>
      cases h
      exact hm
    · cases h
  obtain ⟨init, hinit⟩ := List.getLast?_eq_some_iff.mp hlast
  obtain ⟨dots₁, hdots₁, habs, hq⟩ := trim_append ⟨p.absolute, init⟩
  refine ⟨trim ⟨p.absolute, init⟩, dots₁, dots₂, ?_, hdots₁, hdots₂, habs, ?_⟩
  · unfold parent
    rw [hinit]
    split
    · next hnil => simp at hnil
    · rw [List.dropLast_concat]
  · rw [hp, hinit, ← List.append_assoc, ← hq]
    simp

theorem ofLoc_components (loc : Loc) :
    (ofLoc loc).components = none :: (loc.map .name).map some := by
  simp only [components, ofLoc]
  congr 2
  rw [List.filter_eq_self]
  simp [Comp.stays]

theorem ofLoc_startsWith_ofLoc (loc base : Loc) :
    (ofLoc loc).startsWith (ofLoc base) ↔ base <+: loc := by
  have hinj : Function.Injective (fun n : String => some (Comp.name n)) := by
    intro m n h
    simpa using h
  simp only [startsWith, ofLoc_components, List.prefix_cons_inj, List.map_map]
  exact List.prefix_map_iff_of_injective hinj

theorem ofLoc_join_name (loc : Loc) (n : String) :
    (ofLoc loc).join ⟨false, [.name n]⟩ = ofLoc (loc ++ [n]) := by
  simp [join, ofLoc, isEmpty]

end Path

inductive Entry
  | dir
  | file (text : Option String)
  | link (target : Path)
  deriving DecidableEq, Repr

/-- `file none` is a file that is not UTF-8. -/
structure FileSystem where
  entry : Loc → Option Entry
  pwd : Loc
  links : ℕ
  root_dir : entry [] = some .dir
  parent_dir : ∀ (loc : Loc) (n : String), entry (loc ++ [n]) ≠ none → entry loc = some .dir

inductive Errno
  | noEntry
  | notDirectory
  | isDirectory
  | tooManyLinks
  | notUtf8
  deriving DecidableEq, Repr

def Errno.text : Errno → String
  | .noEntry => "No such file or directory (os error 2)"
  | .notDirectory => "Not a directory (os error 20)"
  | .isDirectory => "Is a directory (os error 21)"
  | .tooManyLinks => "Too many levels of symbolic links (os error 40)"
  | .notUtf8 => "stream did not contain valid UTF-8"

inductive Target
  | found (loc : Loc)
  | vacant (dir : Loc) (leaf : String)
  | fails (e : Errno)
  deriving DecidableEq, Repr

namespace FileSystem

def slash (cs : List Comp) : Bool := !cs.isEmpty && cs.all (· = .empty)

def walkWith (fs : FileSystem) (creates : Bool) (follow : Loc → List Comp → Target) :
    Loc → List Comp → Target
  | here, [] => .found here
  | here, c :: cs =>
    match fs.entry here with
    | some .dir =>
      match c with
      | .cur | .empty => walkWith fs creates follow here cs
      | .up => walkWith fs creates follow here.dropLast cs
      | .name n =>
        if creates && slash cs then .fails .isDirectory
        else
          match fs.entry (here ++ [n]) with
          | none => if cs = [] then .vacant here n else .fails .noEntry
          | some (.link target) =>
            follow (if target.absolute then [] else here) (target.comps ++ cs)
          | some _ => walkWith fs creates follow (here ++ [n]) cs
    | _ => .fails .notDirectory

def walkFor (fs : FileSystem) (creates : Bool) : ℕ → Loc → List Comp → Target
  | 0 => fs.walkWith creates fun _ _ => .fails .tooManyLinks
  | k + 1 => fs.walkWith creates (fs.walkFor creates k)

def walk (fs : FileSystem) : ℕ → Loc → List Comp → Target := fs.walkFor false

def resolveFor (fs : FileSystem) (creates : Bool) (p : Path) : Target :=
  if p.isEmpty then .fails .noEntry
  else fs.walkFor creates fs.links (if p.absolute then [] else fs.pwd) p.comps

def resolve (fs : FileSystem) (p : Path) : Target := fs.resolveFor false p

def pathExists (fs : FileSystem) (p : Path) : Bool :=
  match fs.resolve p with
  | .found _ => true
  | _ => false

def canonicalize (fs : FileSystem) (p : Path) : Except Errno Path :=
  match fs.resolve p with
  | .found loc => .ok (.ofLoc loc)
  | .vacant .. => .error .noEntry
  | .fails e => .error e

def openRead (fs : FileSystem) (p : Path) : Except Errno Loc :=
  match fs.resolve p with
  | .found loc => .ok loc
  | .vacant .. => .error .noEntry
  | .fails e => .error e

def readText (fs : FileSystem) (loc : Loc) : Except Errno String :=
  match fs.entry loc with
  | some (.file (some text)) => .ok text
  | some (.file none) => .error .notUtf8
  | _ => .error .isDirectory

/-- Opening for writing creates what is missing, at the end of all links. -/
def openWrite (fs : FileSystem) (p : Path) : Except Errno Loc :=
  match fs.resolveFor true p with
  | .found loc =>
    match fs.entry loc with
    | some (.file _) => .ok loc
    | _ => .error .isDirectory
  | .vacant dir leaf => .ok (dir ++ [leaf])
  | .fails e => .error e

section Walk
variable {fs : FileSystem} {k : ℕ} {here d : Loc} {cs xs : List Comp} {n leaf : String}

theorem walkFor_nil {creates : Bool} : fs.walkFor creates k here [] = .found here := by
  cases k <;> rfl

theorem walkFor_not_dir {creates : Bool} (h : fs.entry here ≠ some .dir) (c : Comp) :
    fs.walkFor creates k here (c :: cs) = .fails .notDirectory := by
  cases k <;>
    · simp only [walkFor, walkWith]

theorem walkFor_cons {creates : Bool} (h : fs.entry here = some .dir) (c : Comp) :
    fs.walkFor creates k here (c :: cs) =
      match c with
      | .cur | .empty => fs.walkFor creates k here cs
      | .up => fs.walkFor creates k here.dropLast cs
      | .name n =>
        if creates && slash cs then .fails .isDirectory
        else
          match fs.entry (here ++ [n]), k with
          | none, _ => if cs = [] then .vacant here n else .fails .noEntry
          | some (.link _), 0 => .fails .tooManyLinks
          | some (.link target), k + 1 =>
            fs.walkFor creates k (if target.absolute then [] else here) (target.comps ++ cs)
          | some _, k => fs.walkFor creates k (here ++ [n]) cs := by
  cases c with
  | cur | empty | up => cases k <;> simp only [walkFor, walkWith, h]
  | name n =>
    cases k <;>
      · simp only [walkFor, walkWith, h]
        rcases fs.entry (here ++ [n]) with _ | _ | _ | target <;> rfl

@[simp] theorem walk_nil : fs.walk k here [] = .found here := walkFor_nil

theorem walk_not_dir (h : fs.entry here ≠ some .dir) (c : Comp) :
    fs.walk k here (c :: cs) = .fails .notDirectory :=
  walkFor_not_dir h c

theorem walk_cons (h : fs.entry here = some .dir) (c : Comp) : fs.walk k here (c :: cs) =
    match c with
    | .cur | .empty => fs.walk k here cs
    | .up => fs.walk k here.dropLast cs
    | .name n =>
      match fs.entry (here ++ [n]), k with
      | none, _ => if cs = [] then .vacant here n else .fails .noEntry
      | some (.link _), 0 => .fails .tooManyLinks
      | some (.link target), k + 1 =>
        fs.walk k (if target.absolute then [] else here) (target.comps ++ cs)
      | some _, k => fs.walk k (here ++ [n]) cs :=
  walkFor_cons h c

theorem walkFor_stays {creates : Bool} (h : fs.entry here = some .dir) {c : Comp}
    (hc : c.stays = true) : fs.walkFor creates k here (c :: cs) = fs.walkFor creates k here cs := by
  cases c with
  | cur | empty => exact walkFor_cons h _
  | up | name n => cases hc

theorem walk_stays (h : fs.entry here = some .dir) {c : Comp} (hc : c.stays = true) :
    fs.walk k here (c :: cs) = fs.walk k here cs :=
  walkFor_stays h hc

theorem walk_up (h : fs.entry here = some .dir) :
    fs.walk k here (.up :: cs) = fs.walk k here.dropLast cs :=
  walk_cons h .up

theorem walk_missing (h : fs.entry here = some .dir) (hn : fs.entry (here ++ [n]) = none) :
    fs.walk k here (.name n :: cs) = if cs = [] then .vacant here n else .fails .noEntry := by
  rw [walk_cons h]
  simp only [hn]

theorem walk_link_zero {target : Path} (h : fs.entry here = some .dir)
    (hn : fs.entry (here ++ [n]) = some (.link target)) :
    fs.walk 0 here (.name n :: cs) = .fails .tooManyLinks := by
  rw [walk_cons h]
  simp only [hn]

theorem walk_link_succ {target : Path} (h : fs.entry here = some .dir)
    (hn : fs.entry (here ++ [n]) = some (.link target)) :
    fs.walk (k + 1) here (.name n :: cs) =
      fs.walk k (if target.absolute then [] else here) (target.comps ++ cs) := by
  rw [walk_cons h]
  simp only [hn]

theorem walk_through {e : Entry} (h : fs.entry here = some .dir)
    (hn : fs.entry (here ++ [n]) = some e) (hl : ∀ target, e ≠ .link target) :
    fs.walk k here (.name n :: cs) = fs.walk k (here ++ [n]) cs := by
  rw [walk_cons h]
  cases e with
  | link target => exact absurd rfl (hl target)
  | dir | file => simp only [hn]

/-- Induction along a walk, with a case for each thing a step can meet. -/
@[elab_as_elim]
theorem walk_induct (fs : FileSystem) {motive : ℕ → Loc → List Comp → Prop}
    (nil : ∀ k here, motive k here [])
    (notDir : ∀ k here c cs, fs.entry here ≠ some .dir → motive k here (c :: cs))
    (stays : ∀ k here c cs, fs.entry here = some .dir → c.stays = true → motive k here cs →
      motive k here (c :: cs))
    (up : ∀ k here cs, fs.entry here = some .dir → motive k here.dropLast cs →
      motive k here (.up :: cs))
    (missing : ∀ k here n cs, fs.entry here = some .dir → fs.entry (here ++ [n]) = none →
      motive k here (.name n :: cs))
    (linkZero : ∀ here n target cs, fs.entry here = some .dir →
      fs.entry (here ++ [n]) = some (.link target) → motive 0 here (.name n :: cs))
    (linkSucc : ∀ k here n target cs, fs.entry here = some .dir →
      fs.entry (here ++ [n]) = some (.link target) →
      motive k (if target.absolute then [] else here) (target.comps ++ cs) →
      motive (k + 1) here (.name n :: cs))
    (through : ∀ k here n e cs, fs.entry here = some .dir → fs.entry (here ++ [n]) = some e →
      (∀ target, e ≠ .link target) → motive k (here ++ [n]) cs → motive k here (.name n :: cs))
    (k : ℕ) (here : Loc) (cs : List Comp) : motive k here cs := by
  induction k generalizing here cs with
  | zero =>
    induction cs generalizing here with
    | nil => exact nil 0 here
    | cons c cs ih =>
      by_cases hdir : fs.entry here = some .dir
      · cases c with
        | cur | empty => exact stays 0 here _ cs hdir rfl (ih here)
        | up => exact up 0 here cs hdir (ih here.dropLast)
        | name n =>
          match hn : fs.entry (here ++ [n]) with
          | none => exact missing 0 here n cs hdir hn
          | some (.link target) => exact linkZero here n target cs hdir hn
          | some .dir => exact through 0 here n _ cs hdir hn (by simp) (ih _)
          | some (.file text) => exact through 0 here n _ cs hdir hn (by simp) (ih _)
      · exact notDir 0 here c cs hdir
  | succ k ihk =>
    induction cs generalizing here with
    | nil => exact nil (k + 1) here
    | cons c cs ih =>
      by_cases hdir : fs.entry here = some .dir
      · cases c with
        | cur | empty => exact stays (k + 1) here _ cs hdir rfl (ih here)
        | up => exact up (k + 1) here cs hdir (ih here.dropLast)
        | name n =>
          match hn : fs.entry (here ++ [n]) with
          | none => exact missing (k + 1) here n cs hdir hn
          | some (.link target) => exact linkSucc k here n target cs hdir hn (ihk _ _)
          | some .dir => exact through (k + 1) here n _ cs hdir hn (by simp) (ih _)
          | some (.file text) => exact through (k + 1) here n _ cs hdir hn (by simp) (ih _)
      · exact notDir (k + 1) here c cs hdir

theorem walk_append (h : fs.walk k here xs = .found d) :
    ∃ k' ≤ k, ∀ ys, fs.walk k here (xs ++ ys) = fs.walk k' d ys := by
  induction k, here, xs using walk_induct fs with
  | nil k here =>
    rw [walk_nil] at h
    cases h
    exact ⟨k, le_rfl, fun ys => rfl⟩
  | notDir k here c cs hdir =>
    rw [walk_not_dir hdir] at h
    cases h
  | stays k here c cs hdir hc ih =>
    rw [walk_stays hdir hc] at h
    obtain ⟨k', hk, hys⟩ := ih h
    exact ⟨k', hk, fun ys => by rw [List.cons_append, walk_stays hdir hc, hys]⟩
  | up k here cs hdir ih =>
    rw [walk_up hdir] at h
    obtain ⟨k', hk, hys⟩ := ih h
    exact ⟨k', hk, fun ys => by rw [List.cons_append, walk_up hdir, hys]⟩
  | missing k here n cs hdir hn =>
    rw [walk_missing hdir hn] at h
    split at h <;> cases h
  | linkZero here n target cs hdir hn =>
    rw [walk_link_zero hdir hn] at h
    cases h
  | linkSucc k here n target cs hdir hn ih =>
    rw [walk_link_succ hdir hn] at h
    obtain ⟨k', hk, hys⟩ := ih h
    refine ⟨k', by omega, fun ys => ?_⟩
    rw [List.cons_append, walk_link_succ hdir hn, ← List.append_assoc, hys]
  | through k here n e cs hdir hn hl ih =>
    rw [walk_through hdir hn hl] at h
    obtain ⟨k', hk, hys⟩ := ih h
    exact ⟨k', hk, fun ys => by rw [List.cons_append, walk_through hdir hn hl, hys]⟩

theorem walk_vacant (h : fs.walk k here xs = .vacant d leaf) :
    fs.entry d = some .dir ∧ fs.entry (d ++ [leaf]) = none := by
  induction k, here, xs using walk_induct fs with
  | nil k here =>
    rw [walk_nil] at h
    cases h
  | notDir k here c cs hdir =>
    rw [walk_not_dir hdir] at h
    cases h
  | stays k here c cs hdir hc ih => exact ih (by rwa [walk_stays hdir hc] at h)
  | up k here cs hdir ih => exact ih (by rwa [walk_up hdir] at h)
  | missing k here n cs hdir hn =>
    rw [walk_missing hdir hn] at h
    split at h <;> cases h
    exact ⟨hdir, hn⟩
  | linkZero here n target cs hdir hn =>
    rw [walk_link_zero hdir hn] at h
    cases h
  | linkSucc k here n target cs hdir hn ih => exact ih (by rwa [walk_link_succ hdir hn] at h)
  | through k here n e cs hdir hn hl ih => exact ih (by rwa [walk_through hdir hn hl] at h)

theorem walk_dots (hxs : ∀ c ∈ xs, c.stays = true) : fs.walk k here xs ≠ .vacant d leaf := by
  induction xs with
  | nil => simp
  | cons c cs ih =>
    obtain ⟨hc, hcs⟩ := List.forall_mem_cons.mp hxs
    by_cases hdir : fs.entry here = some .dir
    · rw [walk_stays hdir hc]
      exact ih hcs
    · rw [walk_not_dir hdir]
      simp

theorem walk_dots_append (hdir : fs.entry here = some .dir) (hxs : ∀ c ∈ xs, c.stays = true) :
    fs.walk k here (xs ++ cs) = fs.walk k here cs := by
  induction xs with
  | nil => rfl
  | cons c xs ih =>
    obtain ⟨hc, hcs⟩ := List.forall_mem_cons.mp hxs
    rw [List.cons_append, walk_stays hdir hc, ih hcs]

theorem walk_vacant_last (h : fs.walk k here xs = .vacant d leaf) :
    ∀ c ∈ xs.getLast?, c.stays = false := by
  induction k, here, xs using walk_induct fs with
  | nil k here =>
    rw [walk_nil] at h
    cases h
  | notDir k here c cs hdir =>
    rw [walk_not_dir hdir] at h
    cases h
  | stays k here c cs hdir hc ih =>
    rw [walk_stays hdir hc] at h
    cases cs with
    | nil =>
      rw [walk_nil] at h
      cases h
    | cons c' cs => exact ih h
  | up k here cs hdir ih =>
    rw [walk_up hdir] at h
    cases cs with
    | nil =>
      rw [walk_nil] at h
      cases h
    | cons c' cs => exact ih h
  | missing k here n cs hdir hn =>
    rw [walk_missing hdir hn] at h
    split at h
    · next hcs =>
      subst hcs
      intro c hc
      cases hc
      rfl
    · cases h
  | linkZero here n target cs hdir hn =>
    rw [walk_link_zero hdir hn] at h
    cases h
  | linkSucc k here n target cs hdir hn ih =>
    rw [walk_link_succ hdir hn] at h
    cases cs with
    | nil =>
      intro c hc
      cases hc
      rfl
    | cons c' cs =>
      have hlast := ih h
      rw [List.getLast?_append_of_ne_nil _ (List.cons_ne_nil c' cs)] at hlast
      exact hlast
  | through k here n e cs hdir hn hl ih =>
    rw [walk_through hdir hn hl] at h
    cases cs with
    | nil =>
      rw [walk_nil] at h
      cases h
    | cons c' cs => exact ih h

theorem getLast?_slash (hcs : slash cs = true) : cs.getLast? = some .empty := by
  simp only [slash, Bool.and_eq_true, Bool.not_eq_true', List.isEmpty_eq_false_iff,
    List.all_eq_true, decide_eq_true_eq] at hcs
  rw [List.getLast?_eq_some_getLast hcs.1, hcs.2 _ (List.getLast_mem hcs.1)]

theorem walkFor_slash (h : fs.entry here = some .dir) (hcs : slash cs = true) :
    fs.walkFor true k here (.name n :: cs) = .fails .isDirectory ∧
      ∀ d leaf, fs.walk k here (.name n :: cs) ≠ .vacant d leaf := by
  constructor
  · rw [walkFor_cons h]
    simp only [hcs, Bool.and_self, if_true]
  · intro d leaf hv
    have hlast : (Comp.name n :: cs).getLast? = some .empty := by
      cases cs with
      | nil => cases hcs
      | cons c cs =>
        rw [List.getLast?_cons_cons]
        exact getLast?_slash hcs
    exact absurd (walk_vacant_last hv .empty hlast) (by decide)

theorem walkFor_name {creates : Bool} (h : fs.entry here = some .dir) (hcs : ¬ slash cs = true) :
    fs.walkFor creates k here (.name n :: cs) =
      match fs.entry (here ++ [n]), k with
      | none, _ => if cs = [] then .vacant here n else .fails .noEntry
      | some (.link _), 0 => .fails .tooManyLinks
      | some (.link target), k + 1 =>
        fs.walkFor creates k (if target.absolute then [] else here) (target.comps ++ cs)
      | some _, k => fs.walkFor creates k (here ++ [n]) cs := by
  rw [walkFor_cons h]
  simp only [hcs, Bool.and_false, Bool.false_eq_true, if_false]

/-- A walk that may create is stopped by a trailing slash, and is like any other
where it is not. -/
theorem walkFor_true : fs.walkFor true k here xs = fs.walk k here xs ∨
    fs.walkFor true k here xs = .fails .isDirectory ∧
      ∀ d leaf, fs.walk k here xs ≠ .vacant d leaf := by
  induction k, here, xs using walk_induct fs with
  | nil k here => exact .inl (walkFor_nil.trans walk_nil.symm)
  | notDir k here c cs hdir =>
    exact .inl ((walkFor_not_dir hdir c).trans (walk_not_dir hdir c).symm)
  | stays k here c cs hdir hc ih => rwa [walkFor_stays hdir hc, walk_stays hdir hc]
  | up k here cs hdir ih => rwa [walkFor_cons hdir, walk_up hdir]
  | missing k here n cs hdir hn =>
    by_cases hcs : slash cs = true
    · exact .inr (walkFor_slash hdir hcs)
    · refine .inl ?_
      rw [walkFor_name hdir hcs, walk_missing hdir hn]
      simp only [hn]
  | linkZero here n target cs hdir hn =>
    by_cases hcs : slash cs = true
    · exact .inr (walkFor_slash hdir hcs)
    · refine .inl ?_
      rw [walkFor_name hdir hcs, walk_link_zero hdir hn]
      simp only [hn]
  | linkSucc k here n target cs hdir hn ih =>
    by_cases hcs : slash cs = true
    · exact .inr (walkFor_slash hdir hcs)
    · rw [walkFor_name hdir hcs, walk_link_succ hdir hn]
      simpa only [hn] using ih
  | through k here n e cs hdir hn hl ih =>
    by_cases hcs : slash cs = true
    · exact .inr (walkFor_slash hdir hcs)
    · rw [walkFor_name hdir hcs, walk_through hdir hn hl]
      cases e with
      | link target => exact absurd rfl (hl target)
      | dir | file => simpa only [hn] using ih

end Walk

section Resolve
variable {fs : FileSystem} {p q : Path} {loc dir d : Loc} {n leaf : String}

theorem canonicalize_ok {c : Path} :
    fs.canonicalize p = .ok c ↔ ∃ loc, fs.resolve p = .found loc ∧ c = .ofLoc loc := by
  unfold canonicalize
  cases fs.resolve p with
  | found loc => simp [eq_comm]
  | vacant d leaf => simp
  | fails e => simp

theorem openRead_ok : fs.openRead p = .ok loc ↔ fs.resolve p = .found loc := by
  unfold openRead
  cases fs.resolve p <;> simp

theorem pathExists_iff : fs.pathExists p = true ↔ ∃ loc, fs.resolve p = .found loc := by
  unfold pathExists
  cases fs.resolve p <;> simp

theorem resolve_eq : fs.resolve p =
    if p.isEmpty then .fails .noEntry
    else fs.walk fs.links (if p.absolute then [] else fs.pwd) p.comps :=
  rfl

theorem resolveFor_true (fs : FileSystem) (p : Path) : fs.resolveFor true p = fs.resolve p ∨
    fs.resolveFor true p = .fails .isDirectory ∧ ∀ d leaf, fs.resolve p ≠ .vacant d leaf := by
  rw [resolve_eq, resolveFor]
  split
  · exact .inl rfl
  · exact walkFor_true

theorem openWrite_of_vacant (h : fs.resolve p = .vacant d leaf) :
    fs.openWrite p = .ok (d ++ [leaf]) := by
  rcases resolveFor_true fs p with hsame | ⟨-, hnot⟩
  · simp only [openWrite, hsame, h]
  · exact absurd h (hnot d leaf)

theorem openWrite_ok (h : fs.openWrite p = .ok loc) :
    (fs.resolve p = .found loc ∧ ∃ text, fs.entry loc = some (.file text)) ∨
      ∃ d leaf, fs.resolve p = .vacant d leaf ∧ loc = d ++ [leaf] := by
  unfold openWrite at h
  rcases resolveFor_true fs p with hsame | ⟨hfails, -⟩
  swap
  · rw [hfails] at h
    cases h
  rw [hsame] at h
  cases hr : fs.resolve p with
  | found l =>
    simp only [hr] at h
    split at h
    · next text ht =>
      cases h
      exact .inl ⟨rfl, text, ht⟩
    · cases h
  | vacant d leaf =>
    simp only [hr, Except.ok.injEq] at h
    exact .inr ⟨d, leaf, rfl, h.symm⟩
  | fails e => simp only [hr, reduceCtorEq] at h

theorem resolve_vacant (h : fs.resolve p = .vacant d leaf) :
    fs.entry d = some .dir ∧ fs.entry (d ++ [leaf]) = none := by
  rw [resolve_eq] at h
  split at h
  · cases h
  · exact walk_vacant h

theorem resolve_vacant_parent (hn : p.fileName = some n) (hq : p.parent = some q)
    (hdir : fs.resolve q = .found dir) (hp : fs.resolve p = .vacant d leaf) :
    (d = dir ∧ leaf = n) ∨ ∃ target, fs.entry (dir ++ [n]) = some (.link target) := by
  obtain ⟨q', dots₁, dots₂, hq', hdots₁, hdots₂, habs, hcomps⟩ := Path.fileName_append hn
  rw [hq] at hq'
  cases hq'
  rw [resolve_eq] at hdir hp
  split at hdir
  · cases hdir
  split at hp
  · cases hp
  obtain ⟨k, -, hys⟩ := walk_append hdir
  rw [hcomps, ← habs, hys] at hp
  by_cases hd : fs.entry dir = some .dir
  · rw [walk_dots_append hd hdots₁] at hp
    match he : fs.entry (dir ++ [n]) with
    | none =>
      rw [walk_missing hd he] at hp
      split at hp <;> cases hp
      exact .inl ⟨rfl, rfl⟩
    | some (.link target) => exact .inr ⟨target, rfl⟩
    | some .dir =>
      rw [walk_through hd he (by simp)] at hp
      exact absurd hp (walk_dots hdots₂)
    | some (.file text) =>
      rw [walk_through hd he (by simp)] at hp
      exact absurd hp (walk_dots hdots₂)
  · cases dots₁ with
    | nil =>
      rw [List.nil_append, walk_not_dir hd] at hp
      cases hp
    | cons c dots₁ =>
      rw [List.cons_append, walk_not_dir hd] at hp
      cases hp

end Resolve

structure Writable (fs : FileSystem) (loc : Loc) : Prop where
  inDir : ∃ dir n, loc = dir ++ [n] ∧ fs.entry dir = some .dir
  free : fs.entry loc = none ∨ ∃ text, fs.entry loc = some (.file text)

theorem openWrite_writable {fs : FileSystem} {p : Path} {loc : Loc}
    (h : fs.openWrite p = .ok loc) : fs.Writable loc := by
  rcases openWrite_ok h with ⟨-, text, ht⟩ | ⟨d, leaf, hv, rfl⟩
  · rcases List.eq_nil_or_concat' loc with rfl | ⟨dir, n, rfl⟩
    · rw [fs.root_dir] at ht
      cases ht
    · have hd : fs.entry dir = some .dir := fs.parent_dir dir n (by simp [ht])
      exact ⟨⟨dir, n, rfl, hd⟩, .inr ⟨text, ht⟩⟩
  · obtain ⟨hd, hnone⟩ := resolve_vacant hv
    exact ⟨⟨d, leaf, rfl, hd⟩, .inl hnone⟩

def put (fs : FileSystem) (loc : Loc) (text : String) (h : fs.Writable loc) : FileSystem :=
  { fs with
    entry := Function.update fs.entry loc (some (.file (some text)))
    root_dir := by
      obtain ⟨dir, n, rfl, -⟩ := h.inDir
      rw [Function.update_of_ne (by simp)]
      exact fs.root_dir
    parent_dir := by
      intro l n hl
      have hleaf : fs.entry l = some .dir → l ≠ loc := by
        rintro hd rfl
        rcases h.free with hn | ⟨text, ht⟩
        · rw [hn] at hd
          cases hd
        · rw [ht] at hd
          cases hd
      have hd : fs.entry l = some .dir := by
        by_cases heq : l ++ [n] = loc
        · obtain ⟨dir, m, rfl, hdir⟩ := h.inDir
          rwa [(List.append_inj' heq rfl).1]
        · rw [Function.update_of_ne heq] at hl
          exact fs.parent_dir l n hl
      rw [Function.update_of_ne (hleaf hd)]
      exact hd }

def writeText (fs : FileSystem) (p : Path) (text : String) : Except Errno (Loc × FileSystem) :=
  match h : fs.openWrite p with
  | .ok loc => .ok (loc, fs.put loc text (openWrite_writable h))
  | .error e => .error e

theorem writeText_ok {fs fs' : FileSystem} {p : Path} {text : String} {loc : Loc}
    (h : fs.writeText p text = .ok (loc, fs')) :
    fs.openWrite p = .ok loc ∧ fs'.entry loc = some (.file (some text)) ∧
      ∀ l ≠ loc, fs'.entry l = fs.entry l := by
  unfold writeText at h
  split at h
  · next l hl =>
    cases h
    exact ⟨hl, Function.update_self .., fun m hm => Function.update_of_ne hm ..⟩
  · cases h

theorem writeText_of_openWrite {fs : FileSystem} {p : Path} {loc : Loc}
    (h : fs.openWrite p = .ok loc) (text : String) :
    ∃ fs', fs.writeText p text = .ok (loc, fs') := by
  unfold writeText
  split
  · next l hl =>
    rw [h] at hl
    cases hl
    exact ⟨_, rfl⟩
  · next e he =>
    rw [h] at he
    cases he

def ofEntries (entries : List (Loc × Entry)) (pwd : Loc) (links : ℕ)
    (h : ∀ e ∈ entries, e.1 ≠ [] ∧ (e.1.dropLast = [] ∨ entries.lookup e.1.dropLast = some .dir)) :
    FileSystem where
  entry loc := if loc = [] then some .dir else entries.lookup loc
  pwd := pwd
  links := links
  root_dir := rfl
  parent_dir := by
    intro loc n hne
    simp only [List.append_eq_nil_iff, List.cons_ne_self, and_false, ↓reduceIte] at hne
    obtain ⟨e, he⟩ := Option.ne_none_iff_exists'.mp hne
    obtain ⟨l₁, l₂, hl, -⟩ := List.lookup_eq_some_iff.mp he
    have hmem : (loc ++ [n], e) ∈ entries := by
      rw [hl]
      simp
    have hparent := (h _ hmem).2
    simp only [List.dropLast_concat] at hparent
    split
    · rfl
    · next hloc => exact hparent.resolve_left hloc

example : (ofEntries [] [] 40 (by decide)).openWrite ⟨true, [.name "new", .empty]⟩ =
    .error .isDirectory := by decide

end FileSystem

end Ccgonext.Lib.Posix
