import Emwin.Library.Text

/-! Paths as `std::path` reads them on Unix: components, file names, extensions and joins. -/

namespace Library

inductive PathComponent where
  | rootDir
  | curDir
  | parentDir
  | normal (name : Text)
  deriving DecidableEq, Repr

/-- What stands between two slashes; nothing and one dot do not count. -/
def pieceComponent? (piece : Text) : Option PathComponent :=
  if piece = [] ∨ piece = ['.'] then none
  else if piece = ['.', '.'] then some .parentDir
  else some (.normal piece)

def pieces (path : Text) : List Text := path.splitOn '/'

/-- The components but for those that only stand at the start of a path. -/
def innerComponents (path : Text) : List PathComponent := (pieces path).filterMap pieceComponent?

/-- `Path::components`. -/
def components (path : Text) : List PathComponent :=
  if path.head? = some '/' then .rootDir :: innerComponents path
  else if (pieces path).head? = some ['.'] then .curDir :: innerComponents path
  else innerComponents path

/-- `Path::join`: an absolute path replaces the one before it. -/
def joinPath (root path : Text) : Text :=
  if path.head? = some '/' then path
  else if root = [] ∨ root.getLast? = some '/' then root ++ path
  else root ++ '/' :: path

/-- A reversed path without the slashes and single dots that `Path::file_name` skips. -/
def dropTrail : Text → Text
  | '/' :: rest => dropTrail rest
  | '.' :: '/' :: rest => dropTrail rest
  | other => other

/-- `Path::file_name`, with what stands before it. -/
def fileParts (path : Text) : Option (Text × Text) :=
  let back := dropTrail path.reverse
  let name := (back.takeWhile (· ≠ '/')).reverse
  if name = [] ∨ name = ['.'] ∨ name = ['.', '.'] then none
  else some ((back.dropWhile (· ≠ '/')).reverse, name)

/-- `Path::file_stem` and `Path::extension` of a file name: a dot at its start is part of the
stem.
-/
def stemAndExtension (name : Text) : Text × Option Text :=
  match rsplitOnce '.' name with
  | none => (name, none)
  | some ([], _) => (name, none)
  | some (stem, extension) => (stem, some extension)

/-- `Path::extension`. -/
def extension (path : Text) : Option Text :=
  (fileParts path).bind fun parts => (stemAndExtension parts.2).2

/-- `PathBuf::set_extension`: a path without a file name stays as it is. -/
def setExtension (path new : Text) : Text :=
  match fileParts path with
  | none => path
  | some (before, name) =>
      before ++ (stemAndExtension name).1 ++ if new = [] then [] else '.' :: new

/-- `Path::with_extension`: the old extension's length is cut off the end of the path, and the
new extension is set on what is left.
-/
def withExtension (path new : Text) : Text :=
  match extension path with
  | none => setExtension path new
  | some previous => setExtension (path.take (path.length - previous.length)) new

/-- Components that never lead above the place they start at. -/
def descendsFrom : Nat → List PathComponent → Bool
  | _, [] => true
  | depth, .normal _ :: rest => descendsFrom (depth + 1) rest
  | depth, .curDir :: rest => descendsFrom depth rest
  | 0, .parentDir :: _ => false
  | depth + 1, .parentDir :: rest => descendsFrom depth rest
  | _, .rootDir :: _ => false

/-- The path goes on from the root without leaving it. -/
def Under (root path : Text) : Prop :=
  ∃ rest, components path = components root ++ rest ∧ descendsFrom 0 rest = true

/-- The place that a path names, with `..` taken away lexically. The first argument holds what
was read, the last component first.
-/
def resolveOnto : List PathComponent → List PathComponent → List PathComponent
  | read, [] => read.reverse
  | read, .curDir :: rest => resolveOnto read rest
  | [.rootDir], .parentDir :: rest => resolveOnto [.rootDir] rest
  | .normal _ :: read, .parentDir :: rest => resolveOnto read rest
  | read, component :: rest => resolveOnto (component :: read) rest

def resolvePath (path : Text) : List PathComponent := resolveOnto [] (components path)

-----------------------------------------------------------------------------------------
-- Pieces and components
-----------------------------------------------------------------------------------------

theorem pieces_append (before after : Text)
    : pieces (before ++ '/' :: after) = pieces before ++ pieces after :=
  List.splitOnP_append_cons before after (by simp)

theorem pieces_plain {name : Text} (plain : '/' ∉ name) : pieces name = [name] := by
  refine List.splitOnP_eq_singleton fun c member => ?_
  have other : c ≠ '/' := by
    rintro rfl
    exact plain member
  simp [other]

theorem pieces_ne_nil (path : Text) : pieces path ≠ [] := List.splitOnP_ne_nil _ path

theorem innerComponents_append (before after : Text)
    : innerComponents (before ++ '/' :: after)
      = innerComponents before ++ innerComponents after := by
  rw [innerComponents, pieces_append, List.filterMap_append]
  rfl

@[simp] theorem innerComponents_nil : innerComponents [] = [] := rfl

@[simp] theorem innerComponents_slash (path : Text)
    : innerComponents ('/' :: path) = innerComponents path :=
  innerComponents_append [] path

/-- Slashes at the start of a path do not change what follows them. -/
theorem innerComponents_dropSlashes (path : Text)
    : innerComponents (path.dropWhile (· = '/')) = innerComponents path := by
  induction path with
  | nil => rfl
  | cons c path ih =>
      by_cases slash : c = '/'
      · subst slash
        rw [List.dropWhile_cons_of_pos (by simp), ih, innerComponents_slash]
      · rw [List.dropWhile_cons_of_neg (by simpa using slash)]

theorem components_root_append {root : Text} (nonempty : root ≠ []) (path : Text)
    : components (root ++ '/' :: path) = components root ++ innerComponents path := by
  have first : (root ++ '/' :: path).head? = root.head? := by
    cases root with
    | nil => exact absurd rfl nonempty
    | cons c root => rfl
  have piece : (pieces (root ++ '/' :: path)).head? = (pieces root).head? := by
    rw [pieces_append]
    cases split : pieces root with
    | nil => exact absurd split (pieces_ne_nil root)
    | cons first others => rfl
  unfold components
  rw [first, piece, innerComponents_append]
  split_ifs <;> rfl

/-- What a relative path adds to the components of the root. -/
def addedComponents (root path : Text) : List PathComponent :=
  if root = [] then components path else innerComponents path

theorem components_join {root path : Text} (relative : path.head? ≠ some '/')
    : components (joinPath root path) = components root ++ addedComponents root path := by
  unfold joinPath addedComponents
  rw [if_neg relative]
  by_cases empty : root = []
  · subst empty
    rw [if_pos (.inl rfl), if_pos rfl]
    rfl
  · rw [if_neg empty]
    by_cases closed : root.getLast? = some '/'
    · obtain ⟨front, rfl⟩ : ∃ front, root = front ++ ['/'] := by
        obtain ⟨front, last, same⟩ := List.eq_nil_or_concat root |>.resolve_left empty
        refine ⟨front, ?_⟩
        subst same
        simpa using closed
      rw [if_pos (.inr closed), List.append_assoc]
      by_cases bare : front = []
      · subst bare
        simp [components]
      · change components (front ++ '/' :: path) = _
        rw [components_root_append bare, components_root_append bare, innerComponents_nil,
          List.append_nil]
    · rw [if_neg (by simp [empty, closed])]
      exact components_root_append empty path

theorem descendsFrom_added {root path : Text} (relative : path.head? ≠ some '/')
    : descendsFrom 0 (addedComponents root path) = descendsFrom 0 (innerComponents path) := by
  unfold addedComponents components
  rw [if_neg relative]
  split_ifs
  · rfl
  · rfl
  · rfl

/-- A relative path stays under every root when its own components do not lead above their
start.
-/
theorem under_join_iff {root path : Text} (relative : path.head? ≠ some '/')
    : Under root (joinPath root path) ↔ descendsFrom 0 (innerComponents path) = true := by
  rw [Under, components_join relative, ← @descendsFrom_added root path relative]
  constructor
  · rintro ⟨other, split, descends⟩
    rw [List.append_cancel_left split]
    exact descends
  · intro descends
    exact ⟨_, rfl, descends⟩

theorem descendsFrom_normal (list : List PathComponent) (name : Text) (depth : Nat)
    : descendsFrom depth (list ++ [.normal name]) = descendsFrom depth list := by
  induction list generalizing depth with
  | nil => simp [descendsFrom]
  | cons component list ih =>
      cases component with
      | rootDir => simp [descendsFrom]
      | curDir => simpa [descendsFrom] using ih depth
      | normal other => simpa [descendsFrom] using ih (depth + 1)
      | parentDir =>
          cases depth with
          | zero => simp [descendsFrom]
          | succ depth => simpa [descendsFrom] using ih depth

/-- The start of such components is such too, by induction on them. -/
theorem descendsFrom_of_append {list rest : List PathComponent} {depth : Nat}
    (descends : descendsFrom depth (list ++ rest) = true) : descendsFrom depth list = true := by
  induction list generalizing depth with
  | nil => simp [descendsFrom]
  | cons component list ih =>
      cases component with
      | rootDir => simp [descendsFrom] at descends
      | curDir =>
          simp only [List.cons_append, descendsFrom] at descends ⊢
          exact ih descends
      | normal other =>
          simp only [List.cons_append, descendsFrom] at descends ⊢
          exact ih descends
      | parentDir =>
          cases depth with
          | zero => simp [descendsFrom] at descends
          | succ depth =>
              simp only [List.cons_append, descendsFrom] at descends ⊢
              exact ih descends

-----------------------------------------------------------------------------------------
-- File names
-----------------------------------------------------------------------------------------

/-- A name that is one component of a path. -/
structure FileName (name : Text) : Prop where
  plain : '/' ∉ name
  nonempty : name ≠ []
  notDot : name ≠ ['.']
  notParent : name ≠ ['.', '.']

/-- A directory in front of a name: nothing, or a path with a slash at its end. -/
def Directory (path : Text) : Prop := path = [] ∨ ∃ front, path = front ++ ['/']

theorem pieceComponent?_name {name : Text} (file : FileName name)
    : pieceComponent? name = some (.normal name) := by
  rw [pieceComponent?, if_neg (by simp [file.nonempty, file.notDot]), if_neg file.notParent]

theorem innerComponents_name {name : Text} (file : FileName name)
    : innerComponents name = [.normal name] := by
  rw [innerComponents, pieces_plain file.plain,
    List.filterMap_cons_some (pieceComponent?_name file)]
  rfl

theorem innerComponents_directory {path name : Text} (directory : Directory path)
    (file : FileName name)
    : innerComponents (path ++ name) = innerComponents path ++ [.normal name] := by
  rcases directory with rfl | ⟨front, rfl⟩
  · exact innerComponents_name file
  · rw [List.append_assoc, List.singleton_append, innerComponents_append, innerComponents_append,
      innerComponents_name file, innerComponents_nil, List.append_nil]

theorem innerComponents_parent {path : Text} (directory : Directory path)
    : innerComponents (path ++ ['.', '.']) = innerComponents path ++ [.parentDir] := by
  rcases directory with rfl | ⟨front, rfl⟩
  · decide
  · rw [List.append_assoc, List.singleton_append, innerComponents_append, innerComponents_append,
      innerComponents_nil, List.append_nil]
    rfl

theorem dropTrail_name {name : Text} (file : FileName name) (before : Text)
    : dropTrail (before ++ name).reverse = (before ++ name).reverse := by
  obtain ⟨front, last, same⟩ := List.eq_nil_or_concat name |>.resolve_left file.nonempty
  rw [List.concat_eq_append] at same
  subst same
  have noSlash : last ≠ '/' := by
    rintro rfl
    exact file.plain (by simp)
  rw [List.reverse_append, List.reverse_concat, List.cons_append]
  refine dropTrail.eq_3 _ (fun rest same => noSlash (List.cons.inj same).1) ?_
  rintro rest same
  obtain ⟨rfl, behind⟩ := List.cons.inj same
  cases reversed : front.reverse with
  | cons c others =>
      rw [reversed] at behind
      obtain ⟨rfl, -⟩ := List.cons.inj behind
      have member : '/' ∈ front.reverse := by simp [reversed]
      exact file.plain (List.mem_append_left _ (List.mem_reverse.mp member))
  | nil =>
      rw [List.reverse_eq_nil_iff] at reversed
      subst reversed
      exact file.notDot rfl

theorem fileParts_name {name : Text} (file : FileName name) {before : Text}
    (directory : Directory before)
    : fileParts (before ++ name) = some (before, name) := by
  have plain : ∀ c ∈ name.reverse, decide (c ≠ '/') = true := by
    intro c member
    have other : c ≠ '/' := by
      rintro rfl
      exact file.plain (List.mem_reverse.mp member)
    simpa using other
  have stops : before.reverse.takeWhile (fun c => decide (c ≠ '/')) = []
      ∧ before.reverse.dropWhile (fun c => decide (c ≠ '/')) = before.reverse := by
    rcases directory with rfl | ⟨front, rfl⟩
    · exact ⟨rfl, rfl⟩
    · simp
  unfold fileParts
  dsimp only
  rw [dropTrail_name file before, List.reverse_append,
    List.takeWhile_append_of_pos plain, List.dropWhile_append_of_pos plain, stops.1, stops.2,
    List.append_nil, List.reverse_reverse, List.reverse_reverse,
    if_neg (by simp [file.nonempty, file.notDot, file.notParent])]

theorem stemAndExtension_eq_some_iff {name stem extension : Text}
    : stemAndExtension name = (stem, some extension)
      ↔ name = stem ++ '.' :: extension ∧ '.' ∉ extension ∧ stem ≠ [] := by
  unfold stemAndExtension
  constructor
  · intro split
    split at split
    · exact absurd split (by simp)
    · exact absurd split (by simp)
    · next filled found =>
        obtain ⟨rfl, rest⟩ := Prod.mk.inj split
        obtain rfl := Option.some.inj rest
        obtain ⟨same, plain⟩ := rsplitOnce_eq_some_iff.mp found
        exact ⟨same, plain, fun empty => filled empty⟩
  · rintro ⟨same, plain, filled⟩
    rw [rsplitOnce_eq_some_iff.mpr ⟨same, plain⟩]
    cases stem with
    | nil => exact absurd rfl filled
    | cons c stem => rfl

/-- Two dots are no file name. -/
theorem fileParts_parent {before : Text} (directory : Directory before)
    : fileParts (before ++ ['.', '.']) = none := by
  unfold fileParts
  dsimp only
  rw [if_pos]
  rcases directory with rfl | ⟨front, rfl⟩
  · decide
  · simp [dropTrail]

/-- What `dropTrail` leaves out can be cut off step by step, by induction on the path. -/
theorem exists_trail (back : Text)
    : ∃ trail,
        back = trail ++ dropTrail back
        ∧ ∀ cut rest, dropTrail (trail.drop cut ++ rest) = dropTrail rest := by
  fun_induction dropTrail back with
  | case1 rest ih =>
      obtain ⟨trail, split, skipped⟩ := ih
      refine ⟨'/' :: trail, by rw [List.cons_append, ← split], fun cut more => ?_⟩
      cases cut with
      | zero => exact (dropTrail.eq_1 _).trans (skipped 0 more)
      | succ cut => exact skipped cut more
  | case2 rest ih =>
      obtain ⟨trail, split, skipped⟩ := ih
      refine ⟨'.' :: '/' :: trail, by rw [List.cons_append, List.cons_append, ← split],
        fun cut more => ?_⟩
      match cut with
      | 0 => exact (dropTrail.eq_2 _).trans (skipped 0 more)
      | 1 => exact (dropTrail.eq_1 _).trans (skipped 0 more)
      | cut + 2 => exact skipped cut more
  | case3 other => exact ⟨[], rfl, fun cut rest => by rw [List.drop_nil, List.nil_append]⟩

/-- A path with a file name is a directory, the name, and slashes and dots that do not count,
however many of these are cut off.
-/
theorem fileParts_eq_some {path before name : Text}
    (parts : fileParts path = some (before, name))
    : FileName name
      ∧ Directory before
      ∧ ∃ trail,
          path = before ++ name ++ trail
          ∧ ∀ kept, fileParts (before ++ name ++ trail.take kept) = some (before, name) := by
  obtain ⟨trail, split, skipped⟩ := exists_trail path.reverse
  unfold fileParts at parts
  dsimp only at parts
  generalize dropTrail path.reverse = back at parts split
  split_ifs at parts with bad
  obtain ⟨rfl, rfl⟩ := Prod.mk.inj (Option.some.inj parts)
  simp only [not_or] at bad
  have file : FileName (back.takeWhile fun c => decide (c ≠ '/')).reverse := by
    refine ⟨fun member => ?_, bad.1, bad.2.1, bad.2.2⟩
    have kept := List.all_eq_true.mp List.all_takeWhile _ (List.mem_reverse.mp member)
    exact absurd kept (by simp)
  have directory : Directory (back.dropWhile fun c => decide (c ≠ '/')).reverse := by
    have stop := List.head?_dropWhile_not (fun c => decide (c ≠ '/')) back
    cases rest : back.dropWhile fun c => decide (c ≠ '/') with
    | nil => exact .inl rfl
    | cons c others =>
        rw [rest] at stop
        obtain rfl : c = '/' := by simpa using stop
        exact .inr ⟨others.reverse, by rw [List.reverse_cons]⟩
  have whole : (back.dropWhile fun c => decide (c ≠ '/')).reverse
      ++ (back.takeWhile fun c => decide (c ≠ '/')).reverse = back.reverse := by
    rw [← List.reverse_append, List.takeWhile_append_dropWhile]
  refine ⟨file, directory, trail.reverse, ?_, fun kept => ?_⟩
  · rw [whole, ← List.reverse_append, ← split, List.reverse_reverse]
  · have plain := fileParts_name file directory
    unfold fileParts at plain ⊢
    rw [whole] at plain ⊢
    rw [List.reverse_append, List.take_reverse, List.reverse_reverse, skipped]
    exact plain

/-- What is left of a path when as much as the extension is cut off it, if what stands behind the
name is shorter.
-/
theorem take_cut (before stem previous : Text) {trail : Text}
    (long : trail.length ≤ previous.length)
    : (before ++ (stem ++ '.' :: previous) ++ trail).take
          ((before ++ (stem ++ '.' :: previous) ++ trail).length - previous.length)
      = before ++ (stem ++ '.' :: previous.take trail.length) := by
  have length : ((before ++ stem ++ ['.']) ++ (previous ++ trail)).length - previous.length
      = (before ++ stem ++ ['.']).length + trail.length := by
    simp only [List.length_append]
    omega
  have whole : before ++ (stem ++ '.' :: previous) ++ trail
      = (before ++ stem ++ ['.']) ++ (previous ++ trail) := by simp
  rw [whole, length, List.take_length_add_append, List.take_append_of_le_length long]
  simp

/-- A name whose extension is cut is a name, unless only two dots are left of it. -/
theorem FileName.cut {stem previous : Text} (file : FileName (stem ++ '.' :: previous))
    (filled : stem ≠ []) {count : Nat} (other : ¬ (stem = ['.'] ∧ previous.take count = []))
    : FileName (stem ++ '.' :: previous.take count) := by
  refine ⟨fun member => file.plain ?_, by simp, ?_, ?_⟩
  · simp only [List.mem_append, List.mem_cons] at member ⊢
    exact member.imp_right (Or.imp_right List.mem_of_mem_take)
  · intro dot
    cases stem with
    | nil => exact filled rfl
    | cons c stem => simp at dot
  · intro parent
    cases stem with
    | nil => exact filled rfl
    | cons c stem =>
        simp only [List.cons_append, List.cons.injEq] at parent
        obtain ⟨rfl, parent⟩ := parent
        cases stem with
        | cons d stem => simp at parent
        | nil => exact other ⟨rfl, by simpa using parent⟩

/-- The new extension stands behind the stem. Only where nothing but a dot is left of the name
is the path, which then ends in two dots, not changed any more.
-/
theorem withExtension_eq {path new before name stem previous : Text}
    (parts : fileParts path = some (before, name))
    (split : stemAndExtension name = (stem, some previous)) (nonempty : new ≠ [])
    : withExtension path new
      = if stem = ['.'] ∧ path = before ++ name then before ++ ['.', '.']
        else before ++ stem ++ '.' :: new := by
  obtain ⟨file, directory, trail, rfl, kept⟩ := fileParts_eq_some parts
  obtain ⟨rfl, noDot, filled⟩ := stemAndExtension_eq_some_iff.mp split
  have found : extension (before ++ (stem ++ '.' :: previous) ++ trail) = some previous := by
    rw [extension, parts, Option.bind_some, split]
  rw [withExtension, found]
  dsimp only
  by_cases short : previous.length ≤ trail.length
  · have cut : (before ++ (stem ++ '.' :: previous) ++ trail).take
          ((before ++ (stem ++ '.' :: previous) ++ trail).length - previous.length)
        = before ++ (stem ++ '.' :: previous) ++ trail.take (trail.length - previous.length) := by
      rw [List.length_append, Nat.add_sub_assoc short, List.take_length_add_append]
    rw [cut, setExtension, kept]
    dsimp only
    rw [split, if_neg nonempty, if_neg]
    rintro ⟨rfl, bare⟩
    -- nothing but two dots would be the name
    rw [List.append_right_eq_self.mp bare] at short
    obtain rfl := List.length_eq_zero_iff.mp (Nat.le_zero.mp short)
    exact file.notParent rfl
  · rw [take_cut before stem previous (by omega)]
    by_cases bare : stem = ['.'] ∧ trail = []
    · obtain ⟨rfl, rfl⟩ := bare
      rw [if_pos ⟨rfl, List.append_nil _⟩]
      change setExtension (before ++ ['.', '.']) new = _
      rw [setExtension, fileParts_parent directory]
    · have some : previous.take trail.length = [] → trail = [] := by
        intro none
        rcases List.take_eq_nil_iff.mp none with gone | gone
        · exact List.length_eq_zero_iff.mp gone
        · rw [gone] at short
          exact absurd (Nat.zero_le _) short
      have part := file.cut filled fun both => bare ⟨both.1, some both.2⟩
      have parted : stemAndExtension (stem ++ '.' :: previous.take trail.length)
          = (stem, .some (previous.take trail.length)) :=
        stemAndExtension_eq_some_iff.mpr
          ⟨rfl, fun member => noDot (List.mem_of_mem_take member), filled⟩
      rw [setExtension, fileParts_name part directory]
      dsimp only
      rw [parted, if_neg nonempty, if_neg]
      rintro ⟨dot, whole⟩
      exact bare ⟨dot, List.append_right_eq_self.mp whole⟩

example : withExtension "..TXT".toList "JSON".toList = "..".toList := by decide

/-- Every path is a directory and what stands behind its last slash. -/
theorem exists_directory (path : Text)
    : ∃ before name, path = before ++ name ∧ Directory before ∧ '/' ∉ name := by
  cases found : rsplitOnce '/' path with
  | some parts =>
      obtain ⟨before, name⟩ := parts
      obtain ⟨rfl, plain⟩ := rsplitOnce_eq_some_iff.mp found
      exact ⟨before ++ ['/'], name, by simp, .inr ⟨before, rfl⟩, plain⟩
  | none =>
      refine ⟨[], path, rfl, .inl rfl, fun member => ?_⟩
      obtain ⟨back, front, split, absent⟩ :=
        List.eq_append_cons_of_mem (List.mem_reverse.mpr member)
      have whole : path = front.reverse ++ '/' :: back.reverse := by
        rw [← List.reverse_reverse path, split]
        simp
      rw [rsplitOnce_eq_some_iff.mpr ⟨whole, fun inside => absent (List.mem_reverse.mp inside)⟩]
        at found
      exact absurd found (by simp)

theorem mem_pieces_last {before name : Text} (directory : Directory before) (plain : '/' ∉ name)
    : name ∈ pieces (before ++ name) := by
  rcases directory with rfl | ⟨front, rfl⟩
  · rw [List.nil_append, pieces_plain plain]
    exact List.mem_singleton_self name
  · rw [List.append_assoc, List.singleton_append, pieces_append, pieces_plain plain]
    exact List.mem_append_right _ (List.mem_singleton_self name)

/-- The other pieces do not depend on the name at the end. -/
theorem mem_pieces_directory {before name piece : Text} (directory : Directory before)
    (plain : '/' ∉ name) (member : piece ∈ pieces (before ++ name))
    : piece = name ∨ ∀ other, piece ∈ pieces (before ++ other) := by
  rcases directory with rfl | ⟨front, rfl⟩
  · rw [List.nil_append, pieces_plain plain] at member
    exact .inl (List.mem_singleton.mp member)
  · rw [List.append_assoc, List.singleton_append, pieces_append, pieces_plain plain] at member
    rcases List.mem_append.mp member with early | late
    · refine .inr fun other => ?_
      rw [List.append_assoc, List.singleton_append, pieces_append]
      exact List.mem_append_left _ early
    · exact .inl (List.mem_singleton.mp late)

theorem dropSlashes_relative {path : Text} (relative : path.head? ≠ some '/')
    : path.dropWhile (fun c => decide (c = '/')) = path := by
  cases path with
  | nil => rfl
  | cons c path => exact List.dropWhile_cons_of_neg (by simpa using relative)

-----------------------------------------------------------------------------------------
-- Plain paths
-----------------------------------------------------------------------------------------

/-- A relative path of names only. -/
def PlainPath (path : Text) : Prop := ∀ piece ∈ pieces path, FileName piece

theorem plainPath_name {name : Text} (file : FileName name) : PlainPath name := by
  intro piece member
  rw [pieces_plain file.plain] at member
  obtain rfl := List.mem_singleton.mp member
  exact file

theorem innerComponents_plain {path : Text} (plain : PlainPath path)
    : innerComponents path = (pieces path).map .normal := by
  unfold innerComponents
  unfold PlainPath at plain
  generalize pieces path = list at plain
  induction list with
  | nil => rfl
  | cons piece list ih =>
      rw [List.filterMap_cons_some (pieceComponent?_name (plain piece (by simp))),
        ih fun other member => plain other (by simp [member])]
      rfl

theorem PlainPath.relative {path : Text} (plain : PlainPath path) : path.head? ≠ some '/' := by
  intro absolute
  cases path with
  | nil => exact absurd absolute (by simp)
  | cons c path =>
      obtain rfl := Option.some.inj absolute
      have empty : [] ∈ pieces ('/' :: path) := by
        rw [← List.nil_append ('/' :: path), pieces_append]
        exact List.mem_append_left _ (by simp [pieces])
      exact (plain [] empty).nonempty rfl

/-- Plain paths differ in their components under every root. -/
theorem PlainPath.components_joined {path : Text} (plain : PlainPath path) (root : Text)
    : components (joinPath root path) = components root ++ (pieces path).map .normal := by
  have noDot : (pieces path).head? ≠ some ['.'] := by
    intro first
    exact (plain _ (List.mem_of_head? first)).notDot rfl
  have whole : components path = innerComponents path := by
    rw [components, if_neg plain.relative, if_neg noDot]
  rw [components_join plain.relative, addedComponents, whole, ite_self, innerComponents_plain plain]

/-- The last piece of a joined path is the one of the path behind the root. -/
theorem getLast?_pieces_join {root path : Text} (relative : path.head? ≠ some '/')
    : (pieces (joinPath root path)).getLast? = (pieces path).getLast? := by
  have behind (front : Text) : (pieces (front ++ '/' :: path)).getLast? = (pieces path).getLast? := by
    rw [pieces_append, List.getLast?_append_of_ne_nil _ (pieces_ne_nil path)]
  unfold joinPath
  rw [if_neg relative]
  split_ifs with bare
  · rcases bare with rfl | closed
    · rfl
    · obtain ⟨front, rfl⟩ : ∃ front, root = front ++ ['/'] :=
        List.getLast?_eq_some_iff.mp closed
      rw [List.append_assoc]
      exact behind front
  · exact behind root

theorem resolveOnto_names (read before : List PathComponent) (names : List Text)
    : resolveOnto read (before ++ names.map .normal)
      = resolveOnto read before ++ names.map .normal := by
  fun_induction resolveOnto read before with
  | case1 read =>
      induction names generalizing read with
      | nil => simp [resolveOnto]
      | cons name names ih =>
          rw [List.nil_append, List.map_cons, resolveOnto, ← List.nil_append (names.map _), ih]
          · simp
          all_goals simp
  | case2 read rest ih => simpa [resolveOnto] using ih
  | case3 rest ih => simpa [resolveOnto] using ih
  | case4 rest name read ih => simpa [resolveOnto] using ih
  | case5 read component rest notCur notRoot notNormal ih =>
      rw [List.cons_append, resolveOnto, ih]
      all_goals assumption

theorem pieces_injective {left right : Text} (same : pieces left = pieces right)
    : left = right := by
  have back (path : Text) : ['/'].intercalate (pieces path) = path := List.intercalate_splitOn '/'
  rw [← back left, same, back]

end Library
