/-
Module: HeaderBindings.Proofs.FilesBelow
Purpose: A path is read back from its text, and the files that are listed below a directory are those that
  names lead to from it.
Main exports: Path.Proper, Path.ofString_text, Path.text_injective, Path.IsName, Path.descend,
  FileTree.Proper, FileTree.Below, FileTree.mem_filesBelow_iff
-/
import Mathlib.Data.List.Induction
import HeaderBindings.Proofs.FilePlaces
import HeaderBindings.Proofs.PatternGrammar

namespace HeaderBindings

/-! ### Paths and their texts -/

theorem Text.not_mem_of_mem_splitAtMark {mark : Char} {text part : List Char}
    (member : part ∈ splitAtMark mark text) : mark ∉ part := by
  induction text generalizing part with
  | nil =>
      rw [List.mem_singleton.mp member]
      exact List.not_mem_nil
  | cons c rest ih =>
      rw [splitAtMark] at member
      split at member
      · rcases List.mem_cons.mp member with rfl | later
        · exact List.not_mem_nil
        · exact ih later
      · rename_i unmarked
        have different : mark ≠ c := by
          rintro rfl
          simp at unmarked
        split at member
        · rw [List.mem_singleton.mp member]
          simpa using different
        · rename_i first others parts
          rw [parts] at ih
          rcases List.mem_cons.mp member with rfl | later
          · rw [List.mem_cons, not_or]
            exact ⟨different, ih List.mem_cons_self⟩
          · exact ih (List.mem_cons_of_mem _ later)

namespace Path

open Text

/-- The parts of a path are as they are read: not empty, no single dots, and without slashes. -/
def Proper (path : Path) : Prop :=
  ∀ part ∈ path.parts, isPart part.toList = true ∧ '/' ∉ part.toList

theorem proper_ofString (text : String) : (ofString text).Proper := by
  intro part member
  obtain ⟨characters, kept, rfl⟩ := List.mem_map.mp member
  obtain ⟨between, leads⟩ := List.mem_filter.mp kept
  rw [String.toList_ofList]
  exact ⟨leads, not_mem_of_mem_splitAtMark between⟩

/-- Slashes before a first part come from the anchor alone. -/
theorem takeWhile_slash_joined {first : String} (leads : isPart first.toList = true)
    (noSlash : '/' ∉ first.toList) (rest : List String) :
    (List.intercalate ['/'] ((first :: rest).map String.toList)).takeWhile (· == '/') = [] := by
  cases isFirst : first.toList with
  | nil =>
      rw [isFirst] at leads
      cases leads
  | cons c others =>
      rw [isFirst, List.mem_cons, not_or] at noSlash
      have different : (c == '/') = false := beq_false_of_ne (Ne.symm noSlash.1)
      obtain ⟨tail, begins⟩ : ∃ tail, List.intercalate ['/'] ((first :: rest).map String.toList)
          = first.toList ++ tail := by
        cases rest with
        | nil => exact ⟨[], by simp⟩
        | cons second others =>
            rw [List.map_cons, List.map_cons, List.intercalate_cons_cons, List.append_assoc]
            exact ⟨_, rfl⟩
      rw [begins, isFirst, List.cons_append, List.takeWhile_cons, different]
      rfl

/-- A path is read back from its text. -/
theorem ofString_text {path : Path} (proper : path.Proper) : ofString path.text = path := by
  obtain ⟨anchor, parts⟩ := path
  cases parts with
  | nil => cases anchor <;> rfl
  | cons first rest =>
      have text : (Path.mk anchor (first :: rest)).text.toList
          = anchor.text.toList ++ List.intercalate ['/'] ((first :: rest).map String.toList) := by
        simp [Path.text, String.toList_intercalate]
      have kept : (splitAtMark '/' (List.intercalate ['/'] ((first :: rest).map String.toList))).filter
          isPart = (first :: rest).map String.toList := by
        rw [splitAtMark_intercalate (List.cons_ne_nil _ _) fun part member => (proper part member).2]
        simp only [List.filter_eq_self, List.forall_mem_map]
        exact fun part member => (proper part member).1
      obtain ⟨leads, noSlash⟩ := proper first List.mem_cons_self
      have begins := takeWhile_slash_joined leads noSlash rest
      generalize List.intercalate ['/'] ((first :: rest).map String.toList) = body at *
      have parts : (splitAtMark '/' (anchor.text.toList ++ body)).filter isPart
          = (first :: rest).map String.toList := by
        rw [← kept]
        cases anchor <;> rfl
      have slashes : Anchor.ofSlashes
          ((anchor.text.toList ++ body).takeWhile (· == '/')).length = anchor := by
        cases anchor <;> simp [Anchor.text, begins, Anchor.ofSlashes]
      rw [ofString, ofChars, text, parts, slashes]
      simp

/-- Different paths have different texts. -/
theorem text_injective {path other : Path} (proper : path.Proper) (otherProper : other.Proper)
    (same : path.text = other.text) : path = other := by
  rw [← ofString_text proper, same, ofString_text otherProper]

/-- The name of a file or directory: no path part that leads elsewhere than to what it names. -/
structure IsName (name : String) : Prop where
  proper : isPart name.toList = true ∧ '/' ∉ name.toList
  notUp : name ≠ ".."

instance (name : String) : Decidable (IsName name) :=
  decidable_of_iff ((isPart name.toList = true ∧ '/' ∉ name.toList) ∧ name ≠ "..")
    ⟨fun is_ => ⟨is_.1, is_.2⟩, fun is_ => ⟨is_.proper, is_.notUp⟩⟩

theorem follow_names {names : List String} (areNames : ∀ name ∈ names, IsName name)
    (place : Location) :
    names.foldl Location.follow place = ⟨place.origin, place.names ++ names⟩ := by
  induction names generalizing place with
  | nil => simp
  | cons name rest ih =>
      rw [List.forall_mem_cons] at areNames
      have isChild : place.follow name = place.child name := by
        simp [Location.follow, areNames.1.notUp]
      rw [List.foldl_cons, ih areNames.2, isChild, Location.child, List.append_assoc,
        List.singleton_append]

/-- The path that leads on from a directory by names. -/
def descend (directory : Path) (names : List String) : Path :=
  ⟨directory.anchor, directory.parts ++ names⟩

theorem foldl_child_eq_descend (directory : Path) (names : List String) :
    names.foldl child directory = directory.descend names := by
  induction names generalizing directory with
  | nil => simp [descend]
  | cons name rest ih => simp [ih, child, descend]

theorem place_descend {names : List String} (areNames : ∀ name ∈ names, IsName name)
    (directory : Path) :
    (directory.descend names).place = ⟨directory.place.origin, directory.place.names ++ names⟩ := by
  rw [place, descend, List.foldl_append, follow_names areNames]
  rfl

theorem Proper.descend {directory : Path} (proper : directory.Proper) {names : List String}
    (areNames : ∀ name ∈ names, IsName name) : (directory.descend names).Proper := by
  intro part member
  rcases List.mem_append.mp member with own | further
  · exact proper part own
  · exact (areNames part further).proper

theorem name_descend (directory : Path) {names : List String} (some_ : names ≠ []) :
    (directory.descend names).name = names.getLast some_ := by
  simp [name, Path.descend, List.getLast?_eq_some_getLast some_]

end Path

/-! ### Files below a directory -/

theorem Location.below?_eq_some_iff {place other : Location} {names : List String} :
    place.below? other = some names ↔
      names ≠ [] ∧ other = ⟨place.origin, place.names ++ names⟩ := by
  obtain ⟨origin, upper⟩ := place
  obtain ⟨otherOrigin, lower⟩ := other
  simp only [below?, Option.ite_none_right_eq_some, Bool.and_eq_true, beq_iff_eq,
    List.isPrefixOf_iff_prefix, decide_eq_true_eq, Option.some.injEq, Location.mk.injEq]
  constructor
  · rintro ⟨⟨⟨rfl, rest, rfl⟩, longer⟩, rfl⟩
    rw [List.drop_left]
    refine ⟨?_, rfl, rfl⟩
    rintro rfl
    simp at longer
  · rintro ⟨some_, rfl, rfl⟩
    have longer := List.length_pos_iff.mpr some_
    refine ⟨⟨⟨rfl, List.prefix_append _ _⟩, ?_⟩, List.drop_left⟩
    rw [List.length_append]
    omega

namespace FileTree

variable {files : FileTree} {directory path : Path} {names : List String}

/-- All files are in places that names lead to. -/
def Proper (files : FileTree) : Prop :=
  ∀ file ∈ files.files, ∀ name ∈ file.1.names, Path.IsName name

instance (files : FileTree) : Decidable files.Proper :=
  inferInstanceAs (Decidable (∀ file ∈ files.files, ∀ name ∈ file.1.names, Path.IsName name))

/-- A path leads on from a directory by names, and to a file. -/
def Below (files : FileTree) (directory path : Path) : Prop :=
  ∃ names, names ≠ [] ∧ (∀ name ∈ names, Path.IsName name) ∧ path = directory.descend names ∧
    files.isFile path = .ok true

theorem fits_of_descend (fits : (directory.descend names).Fits) : directory.Fits := by
  induction names using List.reverseRecOn with
  | nil => simpa [Path.descend] using fits
  | append_singleton names name ih =>
      have isChild : directory.descend (names ++ [name]) = (directory.descend names).child name := by
        simp [Path.descend, Path.child]
      rw [isChild] at fits
      exact ih fits.of_child

/-- What names lead on from is a directory. -/
theorem locate_of_descend {place : Location} (some_ : names ≠ [])
    (found : files.locate (directory.descend names) = .ok place) :
    files.locate directory = .ok directory.place ∧
      files.isDirectoryAt directory.place = true := by
  obtain ⟨fits, trail, _⟩ := locate_eq_ok_iff.mp found
  have isTrail : (directory.descend names).trail
      = directory.trail ++ directory.place.trail names :=
    Location.trail_append _ _ _
  rw [isTrail, List.forall_mem_append] at trail
  refine ⟨locate_eq_ok_iff.mpr ⟨fits_of_descend fits, trail.1, rfl⟩, trail.2 _ ?_⟩
  cases names with
  | nil => exact absurd rfl some_
  | cons name rest => exact List.mem_cons_self

theorem Below.isDirectory (below : files.Below directory path) :
    files.isDirectory directory = .ok true := by
  obtain ⟨names, some_, _, rfl, isFile⟩ := below
  obtain ⟨found, directory⟩ := locate_of_descend some_ (isFile_eq_true_iff.mp isFile).1
  rw [FileTree.isDirectory, leadsTo, found]
  exact congrArg Except.ok directory

/-- The files that are listed below a directory are those below it. -/
theorem mem_filesBelow_iff (proper : files.Proper) :
    path ∈ files.filesBelow directory ∧ files.isFile path = .ok true ↔
      files.Below directory path := by
  unfold filesBelow
  constructor
  · rintro ⟨listed, isFile⟩
    split at listed
    · cases listed
    · rename_i place found
      obtain ⟨file, member, leads⟩ := List.mem_filterMap.mp listed
      obtain ⟨names, isBelow, rfl⟩ := Option.map_eq_some_iff.mp leads
      obtain ⟨some_, isPlace⟩ := Location.below?_eq_some_iff.mp isBelow
      refine ⟨names, some_, fun name isName => ?_, Path.foldl_child_eq_descend _ _, isFile⟩
      have onTheWay : name ∈ file.1.names := by simp [isPlace, isName]
      exact proper file member name onTheWay
  · rintro ⟨names, some_, areNames, rfl, isFile⟩
    refine ⟨?_, isFile⟩
    obtain ⟨found, isThere⟩ := isFile_eq_true_iff.mp isFile
    obtain ⟨file, member, isPlace⟩ := isSome_bytesAt?_iff.mp isThere
    rw [Path.place_descend areNames] at isPlace
    rw [(locate_of_descend some_ found).1, ← Path.foldl_child_eq_descend]
    refine List.mem_filterMap.mpr ⟨file, member, Option.map_eq_some_iff.mpr ⟨names, ?_, rfl⟩⟩
    exact Location.below?_eq_some_iff.mpr ⟨some_, isPlace⟩

theorem Below.proper (below : files.Below directory path) (isPath : directory.Proper) :
    path.Proper := by
  obtain ⟨names, _, areNames, rfl, _⟩ := below
  exact isPath.descend areNames

end FileTree

end HeaderBindings
