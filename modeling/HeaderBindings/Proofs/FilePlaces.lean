/-
Module: HeaderBindings.Proofs.FilePlaces
Purpose: To which places paths lead, and what becomes of files and directories when directories are made and
  files are written.
Main exports: Path.place, Path.trail, Path.Fits, FileTree.locate_eq_ok_iff, FileTree.Plain,
  FileTree.Extends, FileTree.Making, FileTree.makeDirectories_within, FileTree.keeping_cases,
  FileTree.keeping_within
-/
import HeaderBindings.Files.FileTree
import HeaderBindings.Proofs.FaultySteps
import Mathlib.Logic.Relation

namespace HeaderBindings

/-! ### Places -/

namespace Location

/-- A place is above another one. -/
structure Holds (place other : Location) : Prop where
  sameOrigin : place.origin = other.origin
  leads : place.names <+: other.names
  shorter : place.names.length < other.names.length

variable {place other : Location}

theorem isSome_below?_iff : (place.below? other).isSome = true ↔ place.Holds other := by
  unfold below?
  constructor
  · intro isBelow
    split at isBelow
    · rename_i holds
      simp only [Bool.and_eq_true, beq_iff_eq, List.isPrefixOf_iff_prefix, decide_eq_true_eq] at holds
      exact ⟨holds.1.1, holds.1.2, holds.2⟩
    · cases isBelow
  · rintro ⟨sameOrigin, leads, shorter⟩
    have isPrefix := List.isPrefixOf_iff_prefix.mpr leads
    simp [sameOrigin, isPrefix, shorter]

theorem Holds.trans {lower : Location} (first : place.Holds other) (second : other.Holds lower) :
    place.Holds lower where
  sameOrigin := first.sameOrigin.trans second.sameOrigin
  leads := first.leads.trans second.leads
  shorter := Nat.lt_trans first.shorter second.shorter

theorem not_holds_of_names_nil (top : place.names = []) : ¬ other.Holds place := by
  intro holds
  have shorter := holds.shorter
  rw [top] at shorter
  exact Nat.not_lt_zero _ shorter

/-- A place that is no top is held by its parent. -/
theorem parent_holds (lower : place.names ≠ []) : place.parent.Holds place := by
  have isLower : place.names.isEmpty = false := by simpa using lower
  have length := List.length_pos_iff.mpr lower
  refine ⟨?_, ?_, ?_⟩
  · simp [parent, isLower]
  · simpa [parent, isLower] using List.dropLast_prefix place.names
  · simp only [parent, isLower, Bool.false_eq_true, if_false, List.length_dropLast]
    omega

theorem parent_names_of_nil (top : place.names = []) : place.parent.names = [] := by
  unfold parent
  rw [top]
  cases place.origin <;> rfl

/-- What holds a child is the directory of the child, or holds it. -/
theorem holds_child {name : String} (holds : other.Holds (place.child name)) :
    other = place ∨ other.Holds place := by
  obtain ⟨sameOrigin, leads, shorter⟩ := holds
  rw [child, List.length_append, List.length_singleton] at shorter
  rcases List.prefix_concat_iff.mp leads with whole | leads
  · rw [whole, List.length_append, List.length_singleton] at shorter
    exact absurd shorter (Nat.lt_irrefl _)
  · rcases Nat.lt_or_eq_of_le (Nat.lt_succ_iff.mp shorter) with shorter | sameLength
    · exact Or.inr ⟨sameOrigin, leads, shorter⟩
    · have sameNames : other.names = place.names := leads.eq_of_length sameLength
      obtain ⟨origin, names⟩ := other
      obtain ⟨_, _⟩ := place
      cases sameOrigin
      cases sameNames
      exact Or.inl rfl

/-- What holds the place that a part leads to is the place it is followed from, or holds that one. -/
theorem holds_follow {part : String} (holds : other.Holds (place.follow part)) :
    other = place ∨ other.Holds place := by
  unfold follow at holds
  split at holds
  · by_cases top : place.names = []
    · exact absurd holds (not_holds_of_names_nil (parent_names_of_nil top))
    · exact Or.inr (holds.trans (parent_holds top))
  · exact holds_child holds

/-- Different names lead to different places. -/
theorem follow_injective {first second : String} (oneName : first ≠ "..") (otherName : second ≠ "..")
    (same : place.follow first = place.follow second) : first = second := by
  have isChild : ∀ {name : String}, name ≠ ".." → place.follow name = place.child name := by
    intro name isName
    simp [follow, isName]
  rw [isChild oneName, isChild otherName] at same
  have names := congrArg Location.names same
  simpa [child] using names

/-- The places from which the parts of a path are followed. -/
def trail (place : Location) : List String → List Location
  | [] => []
  | part :: rest => place :: (place.follow part).trail rest

theorem trail_append (place : Location) (first second : List String) :
    place.trail (first ++ second) = place.trail first ++ (first.foldl follow place).trail second := by
  induction first generalizing place with
  | nil => rfl
  | cons part rest ih => rw [List.cons_append, trail, trail, ih, List.foldl_cons, List.cons_append]

end Location

/-! ### Paths -/

namespace Path

/-- The place that a path leads to, if it leads anywhere. -/
def place (path : Path) : Location := path.parts.foldl Location.follow (.ofAnchor path.anchor)

/-- The places from which the parts of a path are followed. -/
def trail (path : Path) : List Location := (Location.ofAnchor path.anchor).trail path.parts

/-- Neither a path nor any name in it is too long, and none has the character zero. -/
structure Fits (path : Path) : Prop where
  noZero : '\x00' ∉ path.text.toList
  short : path.text.utf8ByteSize ≤ FileTree.longestPath
  shortNames : ∀ part ∈ path.parts, part.utf8ByteSize ≤ FileTree.longestName

/-- A path, or a name in it, is too long. -/
def TooLong (path : Path) : Prop :=
  path.text.utf8ByteSize > FileTree.longestPath ∨
    ∃ part ∈ path.parts, part.utf8ByteSize > FileTree.longestName

theorem place_child (base : Path) (name : String) : (base.child name).place = base.place.follow name := by
  simp [place, child, List.foldl_append]

theorem trail_child (base : Path) (name : String) :
    (base.child name).trail = base.trail ++ [base.place] := by
  simp [trail, child, Location.trail_append, Location.trail, place]

theorem parent_child (base : Path) (name : String) : (base.child name).parent = base := by
  simp [parent, child]

/-- A path is made of the one before its last part, and that part. -/
theorem exists_eq_child {path : Path} (nonempty : path.parts ≠ []) :
    ∃ name, path = path.parent.child name :=
  ⟨path.parts.getLast nonempty, by simp [parent, child, List.dropLast_concat_getLast]⟩

theorem text_child (base : Path) (name : String) :
    ∃ between, (base.child name).text = base.text ++ between ∨ base.text = "." := by
  unfold text
  by_cases top : base.parts = []
  · cases isAnchor : base.anchor with
    | workingDirectory => exact ⟨"", Or.inr (by simp [top])⟩
    | root | doubleRoot =>
        exact ⟨name, Or.inl (by simp [child, top, isAnchor, Anchor.text, String.intercalate_singleton])⟩
  · refine ⟨"/" ++ name, Or.inl ?_⟩
    have joined := String.intercalate_append_of_ne_nil (s := "/") top (List.cons_ne_nil name [])
    have isEmpty : base.parts.isEmpty = false := by simpa using top
    simp [child, joined, isEmpty, String.intercalate_singleton, String.append_assoc]

/-- The path before a name fits if the path with the name does. -/
theorem Fits.of_child {base : Path} {name : String} (fits : (base.child name).Fits) : base.Fits := by
  have shortNames : ∀ part ∈ base.parts, part.utf8ByteSize ≤ FileTree.longestName :=
    fun part member => fits.shortNames part (List.mem_append_left _ member)
  obtain ⟨between, joined | top⟩ := base.text_child name
  · have noZero := fits.noZero
    have short := fits.short
    rw [joined, String.toList_append, List.mem_append, not_or] at noZero
    rw [joined, String.utf8ByteSize_append] at short
    exact ⟨noZero.1, Nat.le_trans (Nat.le_add_right _ _) short, shortNames⟩
  · exact ⟨by simp [top], by rw [top]; decide, shortNames⟩

end Path

/-! ### What there is -/

namespace FileTree

variable {tree before after : FileTree} {place other : Location} {bytes : List UInt8}

theorem isDirectoryAt_iff : tree.isDirectoryAt place = true ↔
    place.names = [] ∨ place ∈ tree.directories ∨
      (∃ lower ∈ tree.directories, place.Holds lower) ∨
      ∃ file ∈ tree.files, place.Holds file.1 := by
  simp only [isDirectoryAt, Bool.or_eq_true, List.isEmpty_iff, List.contains_iff_mem, List.any_eq_true,
    Location.isSome_below?_iff, or_assoc]

theorem isSome_bytesAt?_iff : (tree.bytesAt? place).isSome = true ↔
    ∃ file ∈ tree.files, file.1 = place := by
  rw [bytesAt?, List.lookup_isSome_iff]
  refine exists_congr fun file => and_congr_right fun _ => ?_
  rw [beq_iff_eq, eq_comm]

/-- What is above a directory is a directory. -/
theorem isDirectoryAt_of_holds (directory : tree.isDirectoryAt place = true) (holds : other.Holds place) :
    tree.isDirectoryAt other = true := by
  rw [isDirectoryAt_iff] at directory ⊢
  rcases directory with top | listed | ⟨lower, listed, isLower⟩ | ⟨file, isFile, isLower⟩
  · exact absurd holds (Location.not_holds_of_names_nil top)
  · exact Or.inr (Or.inr (Or.inl ⟨place, listed, holds⟩))
  · exact Or.inr (Or.inr (Or.inl ⟨lower, listed, holds.trans isLower⟩))
  · exact Or.inr (Or.inr (Or.inr ⟨file, isFile, holds.trans isLower⟩))

theorem isDirectoryAt_parent (directory : tree.isDirectoryAt place = true) :
    tree.isDirectoryAt place.parent = true := by
  by_cases top : place.names = []
  · exact isDirectoryAt_iff.mpr (Or.inl (Location.parent_names_of_nil top))
  · exact isDirectoryAt_of_holds directory (Location.parent_holds top)

/-- All that is above a place are directories. -/
def Grounded (tree : FileTree) (place : Location) : Prop :=
  ∀ above : Location, above.Holds place → tree.isDirectoryAt above = true

/-- A path whose parts are all followed from directories leads to a place below directories. -/
theorem grounded_place {path : Path} (trail : ∀ on ∈ path.trail, tree.isDirectoryAt on = true) :
    tree.Grounded path.place := by
  intro above holds
  by_cases top : path.parts = []
  · refine absurd holds (Location.not_holds_of_names_nil ?_)
    rw [Path.place, top]
    cases path.anchor <;> rfl
  · obtain ⟨name, isChild⟩ := Path.exists_eq_child top
    rw [isChild, Path.trail_child] at trail
    have last := trail path.parent.place (by simp)
    rw [isChild, Path.place_child] at holds
    rcases Location.holds_follow holds with rfl | further
    · exact last
    · exact isDirectoryAt_of_holds last further

/-- Following parts from directories leads to a place, unless a name is too long. -/
theorem followParts_eq_ok_iff {text : String} {parts : List String} {found : Location} :
    tree.followParts text place parts = .ok found ↔
      (∀ on ∈ place.trail parts, tree.isDirectoryAt on = true) ∧
      (∀ part ∈ parts, part.utf8ByteSize ≤ longestName) ∧
        found = parts.foldl Location.follow place := by
  induction parts generalizing place with
  | nil =>
      rw [followParts, Except.ok.injEq, eq_comm]
      simp [Location.trail]
  | cons part rest ih =>
      rw [followParts, Location.trail, List.forall_mem_cons, List.forall_mem_cons, List.foldl_cons]
      by_cases directory : tree.isDirectoryAt place = true
      · by_cases long : part.utf8ByteSize > longestName
        · have notShort : ¬ part.utf8ByteSize ≤ longestName := Nat.not_le.mpr long
          simp [directory, long, notShort]
        · have short : part.utf8ByteSize ≤ longestName := Nat.not_lt.mp long
          rw [if_pos directory, if_neg long, ih]
          simp [directory, short]
      · rw [if_neg directory]
        split
        · simp [directory]
        · simp [directory]

/-- Parts that are not too long lead on unless something is missing, or a part is followed from a file. -/
theorem followParts_cases (tree : FileTree) (place : Location) (text : String) {parts : List String}
    (short : ∀ part ∈ parts, part.utf8ByteSize ≤ longestName) :
    (∀ on ∈ place.trail parts, tree.isDirectoryAt on = true) ∨
      (∃ on ∈ place.trail parts, (tree.bytesAt? on).isSome = true) ∨
      parts ≠ [] ∧ tree.followParts text place parts = .error (.missing text) := by
  induction parts generalizing place with
  | nil => exact Or.inl (by simp [Location.trail])
  | cons part rest ih =>
      rw [List.forall_mem_cons] at short
      rw [followParts, Location.trail]
      by_cases directory : tree.isDirectoryAt place = true
      · rw [if_pos directory, if_neg (Nat.not_lt.mpr short.1)]
        rcases ih (place.follow part) short.2 with all | ⟨on, member, isFile⟩ | ⟨_, missing⟩
        · exact Or.inl (List.forall_mem_cons.mpr ⟨directory, all⟩)
        · exact Or.inr (Or.inl ⟨on, List.mem_cons_of_mem _ member, isFile⟩)
        · exact Or.inr (Or.inr ⟨List.cons_ne_nil _ _, missing⟩)
      · rw [if_neg directory]
        by_cases isFile : (tree.bytesAt? place).isSome = true
        · exact Or.inr (Or.inl ⟨place, List.mem_cons_self, isFile⟩)
        · rw [if_neg isFile]
          exact Or.inr (Or.inr ⟨List.cons_ne_nil _ _, rfl⟩)

/-- A path leads to its place if it fits and its parts are all followed from directories. -/
theorem locate_eq_ok_iff {path : Path} : tree.locate path = .ok place ↔
    path.Fits ∧ (∀ on ∈ path.trail, tree.isDirectoryAt on = true) ∧ place = path.place := by
  unfold locate
  by_cases zero : path.text.toList.contains '\x00' = true
  · rw [if_pos zero]
    constructor
    · rintro ⟨⟩
    · rintro ⟨fits, _⟩
      exact absurd (List.contains_iff_mem.mp zero) fits.noZero
  · rw [if_neg zero]
    by_cases long : path.text.utf8ByteSize > longestPath
    · rw [if_pos long]
      constructor
      · rintro ⟨⟩
      · rintro ⟨fits, _⟩
        exact absurd fits.short (Nat.not_le.mpr long)
    · rw [if_neg long, followParts_eq_ok_iff]
      constructor
      · rintro ⟨trail, shortNames, isPlace⟩
        have noZero : '\x00' ∉ path.text.toList := fun member => zero (List.contains_iff_mem.mpr member)
        exact ⟨⟨noZero, Nat.not_lt.mp long, shortNames⟩, trail, isPlace⟩
      · rintro ⟨fits, trail, isPlace⟩
        exact ⟨trail, fits.shortNames, isPlace⟩

/-- A path that fits leads to its place unless something is missing, or a part is followed from a file. -/
theorem locate_cases (tree : FileTree) {path : Path} (fits : path.Fits) :
    tree.locate path = .ok path.place ∨ (∃ on ∈ path.trail, (tree.bytesAt? on).isSome = true) ∨
      path.parts ≠ [] ∧ tree.locate path = .error (.missing path.text) := by
  rcases followParts_cases tree (.ofAnchor path.anchor) path.text fits.shortNames with
      trail | file | ⟨nonempty, missing⟩
  · exact Or.inl (locate_eq_ok_iff.mpr ⟨fits, trail, rfl⟩)
  · exact Or.inr (Or.inl file)
  · refine Or.inr (Or.inr ⟨nonempty, ?_⟩)
    have noZero : ¬ path.text.toList.contains '\x00' = true :=
      fun member => fits.noZero (List.contains_iff_mem.mp member)
    rw [locate, if_neg noZero, if_neg (Nat.not_lt.mpr fits.short), missing]

/-- A path leads to a file if the place that it leads to has one. -/
theorem isFile_eq_true_iff {path : Path} : tree.isFile path = .ok true ↔
    tree.locate path = .ok path.place ∧ (tree.bytesAt? path.place).isSome = true := by
  unfold isFile leadsTo
  constructor
  · intro isFile
    split at isFile
    · rename_i place found
      obtain ⟨_, _, rfl⟩ := locate_eq_ok_iff.mp found
      exact ⟨found, Except.ok.inj isFile⟩
    · cases isFile
    · cases isFile
  · rintro ⟨found, isFile⟩
    rw [found]
    exact congrArg Except.ok isFile

/-- A path leads to a file if there is something to read. -/
theorem isSome_read?_of_isFile {path : Path} {known : Bool} (isFile : tree.isFile path = .ok known) :
    (tree.read? path).isSome = known := by
  unfold FileTree.isFile leadsTo at isFile
  unfold read?
  cases found : tree.locate path with
  | ok place =>
      rw [found] at isFile
      exact Except.ok.inj isFile
  | error fault =>
      rw [found] at isFile
      cases fault with
      | nameTooLong => cases isFile
      | missing | alreadyThere | notDirectory | isDirectory | zeroCharacter =>
          cases isFile
          rfl

theorem tooLong_of_followParts {text longText : String} {parts : List String}
    (long : tree.followParts text place parts = .error (.nameTooLong longText)) :
    longText = text ∧ ∃ part ∈ parts, part.utf8ByteSize > longestName := by
  induction parts generalizing place with
  | nil => cases long
  | cons part rest ih =>
      rw [followParts] at long
      split at long
      · split at long
        · rename_i isLong
          cases long
          exact ⟨rfl, part, List.mem_cons_self, isLong⟩
        · obtain ⟨sameText, other, member, isLong⟩ := ih long
          exact ⟨sameText, other, List.mem_cons_of_mem _ member, isLong⟩
      · split at long <;> cases long

/-- One can tell to what kind of place a path leads, unless it is too long. -/
theorem tooLong_of_leadsTo {path : Path} {kind : Location → Bool} {fault : FileFault}
    (fails : tree.leadsTo path kind = .error fault) : path.TooLong ∧ fault = .nameTooLong path.text := by
  unfold leadsTo at fails
  split at fails
  · cases fails
  · rename_i text found
    cases fails
    unfold locate at found
    split at found
    · cases found
    · split at found
      · rename_i long
        cases found
        exact ⟨Or.inl long, rfl⟩
      · obtain ⟨rfl, isLong⟩ := tooLong_of_followParts found
        exact ⟨Or.inr isLong, rfl⟩
  · cases fails

/-- One can tell whether a path leads to a file, unless it is too long. -/
theorem tooLong_of_isFile {path : Path} {fault : FileFault} (fails : tree.isFile path = .error fault) :
    path.TooLong ∧ fault = .nameTooLong path.text :=
  tooLong_of_leadsTo fails

theorem exists_leadsTo_eq_ok {path : Path} (short : ¬ path.TooLong) (kind : Location → Bool) :
    ∃ known, tree.leadsTo path kind = .ok known := by
  cases leads : tree.leadsTo path kind with
  | ok known => exact ⟨known, rfl⟩
  | error fault => exact absurd (tooLong_of_leadsTo leads).1 short

theorem followParts_append_of_long {text name : String} {parts : List String}
    (trail : ∀ on ∈ place.trail parts, tree.isDirectoryAt on = true)
    (short : ∀ part ∈ parts, part.utf8ByteSize ≤ longestName)
    (directory : tree.isDirectoryAt (parts.foldl Location.follow place) = true)
    (long : name.utf8ByteSize > longestName) :
    tree.followParts text place (parts ++ [name]) = .error (.nameTooLong text) := by
  induction parts generalizing place with
  | nil =>
      rw [List.foldl_nil] at directory
      rw [List.nil_append, followParts, if_pos directory, if_pos long]
  | cons part rest ih =>
      rw [Location.trail, List.forall_mem_cons] at trail
      rw [List.forall_mem_cons] at short
      rw [List.cons_append, followParts, if_pos trail.1, if_neg (Nat.not_lt.mpr short.1)]
      exact ih trail.2 short.2 directory

/-- From a directory that is there, a name that is too long leads nowhere. -/
theorem locate_child_of_long {base : Path} {name : String} (found : tree.locate base = .ok base.place)
    (directory : tree.isDirectoryAt base.place = true) (noZero : '\x00' ∉ (base.child name).text.toList)
    (long : name.utf8ByteSize > longestName) :
    tree.locate (base.child name) = .error (.nameTooLong (base.child name).text) := by
  obtain ⟨fits, trail, _⟩ := locate_eq_ok_iff.mp found
  have isThere : ¬ (base.child name).text.toList.contains '\x00' = true :=
    fun member => noZero (List.contains_iff_mem.mp member)
  rw [locate, if_neg isThere]
  split
  · rfl
  · exact followParts_append_of_long trail fits.shortNames directory long

/-! ### What is put there -/

theorem lookup_filter_ne {other : Location} (different : other ≠ place)
    (files : List (Location × List UInt8)) :
    (files.filter fun file => file.1 != place).lookup other = files.lookup other := by
  induction files with
  | nil => rfl
  | cons file rest ih =>
      by_cases here : file.1 = place
      · have isOther : (other == place) = false := by simpa using different
        rw [List.filter_cons_of_neg (by simp [here]), ih, ← Prod.eta file, List.lookup_cons, here, isOther]
      · rw [List.filter_cons_of_pos (by simpa using here), ← Prod.eta file, List.lookup_cons,
          List.lookup_cons, ih]

theorem bytesAt?_put : (tree.put place bytes).bytesAt? other
    = if other = place then some bytes else tree.bytesAt? other := by
  unfold put bytesAt?
  by_cases same : other = place
  · simp [same]
  · have isOther : (other == place) = false := by simpa using same
    simp [List.lookup_cons, isOther, same, lookup_filter_ne same]

/-- Putting a file below directories makes no directory. -/
theorem isDirectoryAt_put (grounded : tree.Grounded place) :
    (tree.put place bytes).isDirectoryAt other = tree.isDirectoryAt other := by
  have sameFiles : (∃ file ∈ (tree.put place bytes).files, other.Holds file.1) ↔
      other.Holds place ∨ ∃ file ∈ tree.files, other.Holds file.1 := by
    simp only [put, List.mem_cons, List.mem_filter, bne_iff_ne]
    constructor
    · rintro ⟨file, rfl | ⟨member, _⟩, holds⟩
      · exact Or.inl holds
      · exact Or.inr ⟨file, member, holds⟩
    · rintro (holds | ⟨file, member, holds⟩)
      · exact ⟨_, Or.inl rfl, holds⟩
      · by_cases here : file.1 = place
        · exact ⟨_, Or.inl rfl, here ▸ holds⟩
        · exact ⟨file, Or.inr ⟨member, here⟩, holds⟩
  rw [Bool.eq_iff_iff, isDirectoryAt_iff, sameFiles]
  constructor
  · rintro (top | listed | lower | holds | file)
    · exact isDirectoryAt_iff.mpr (Or.inl top)
    · exact isDirectoryAt_iff.mpr (Or.inr (Or.inl listed))
    · exact isDirectoryAt_iff.mpr (Or.inr (Or.inr (Or.inl lower)))
    · exact grounded other holds
    · exact isDirectoryAt_iff.mpr (Or.inr (Or.inr (Or.inr file)))
  · intro directory
    rcases isDirectoryAt_iff.mp directory with top | listed | lower | file
    · exact Or.inl top
    · exact Or.inr (Or.inl listed)
    · exact Or.inr (Or.inr (Or.inl lower))
    · exact Or.inr (Or.inr (Or.inr (Or.inr file)))

theorem bytesAt?_addDirectory : (tree.addDirectory place).bytesAt? other = tree.bytesAt? other := by
  unfold addDirectory
  split <;> rfl

/-- Making a directory below directories makes that one only. -/
theorem isDirectoryAt_addDirectory_iff (grounded : tree.Grounded place) :
    (tree.addDirectory place).isDirectoryAt other = true ↔
      tree.isDirectoryAt other = true ∨ other = place := by
  unfold addDirectory
  split
  · rename_i directory
    constructor
    · exact Or.inl
    · rintro (already | rfl)
      · exact already
      · exact directory
  · rw [isDirectoryAt_iff, isDirectoryAt_iff]
    constructor
    · rintro (top | listed | ⟨lower, listed, holds⟩ | file)
      · exact Or.inl (Or.inl top)
      · rcases List.mem_cons.mp listed with rfl | listed
        · exact Or.inr rfl
        · exact Or.inl (Or.inr (Or.inl listed))
      · rcases List.mem_cons.mp listed with rfl | listed
        · exact Or.inl (isDirectoryAt_iff.mp (grounded other holds))
        · exact Or.inl (Or.inr (Or.inr (Or.inl ⟨lower, listed, holds⟩)))
      · exact Or.inl (Or.inr (Or.inr (Or.inr file)))
    · rintro ((top | listed | ⟨lower, listed, holds⟩ | file) | rfl)
      · exact Or.inl top
      · exact Or.inr (Or.inl (List.mem_cons_of_mem _ listed))
      · exact Or.inr (Or.inr (Or.inl ⟨lower, List.mem_cons_of_mem _ listed, holds⟩))
      · exact Or.inr (Or.inr (Or.inr file))
      · exact Or.inr (Or.inl List.mem_cons_self)

/-! ### Trees that grow -/

/-- No file is where a directory is. -/
def Plain (tree : FileTree) : Prop := ∀ file ∈ tree.files, tree.isDirectoryAt file.1 = false

instance (tree : FileTree) : Decidable tree.Plain :=
  inferInstanceAs (Decidable (∀ file ∈ tree.files, tree.isDirectoryAt file.1 = false))

theorem plain_iff : tree.Plain ↔
    ∀ place, (tree.bytesAt? place).isSome = true → tree.isDirectoryAt place = false := by
  constructor
  · intro plain place isFile
    obtain ⟨file, member, rfl⟩ := isSome_bytesAt?_iff.mp isFile
    exact plain file member
  · intro plain file member
    exact plain file.1 (isSome_bytesAt?_iff.mpr ⟨file, member, rfl⟩)

theorem Plain.not_directory (plain : tree.Plain) (isFile : (tree.bytesAt? place).isSome = true) :
    tree.isDirectoryAt place = false :=
  plain_iff.mp plain place isFile

/-- A tree has all directories of another one, and files where that one has files. -/
structure Extends (before after : FileTree) : Prop where
  directory : ∀ place, before.isDirectoryAt place = true → after.isDirectoryAt place = true
  file : ∀ place, (before.bytesAt? place).isSome = true → (after.bytesAt? place).isSome = true

theorem Extends.refl (tree : FileTree) : Extends tree tree := ⟨fun _ => id, fun _ => id⟩

theorem Extends.trans {last : FileTree} (first : Extends before after) (second : Extends after last) :
    Extends before last :=
  ⟨fun place isThere => second.directory place (first.directory place isThere),
    fun place isThere => second.file place (first.file place isThere)⟩

theorem Plain.put (plain : tree.Plain) (grounded : tree.Grounded place)
    (notDirectory : tree.isDirectoryAt place = false) : (tree.put place bytes).Plain := by
  rw [plain_iff]
  intro other isFile
  rw [isDirectoryAt_put grounded]
  rw [bytesAt?_put] at isFile
  split at isFile
  · rename_i same
    rwa [same]
  · exact plain.not_directory isFile

theorem extends_put (grounded : tree.Grounded place) : Extends tree (tree.put place bytes) where
  directory other directory := by rwa [isDirectoryAt_put grounded]
  file other isFile := by
    rw [bytesAt?_put]
    split
    · rfl
    · exact isFile

/-- One directory after another is made, each below directories and where no file is. -/
inductive Making : FileTree → FileTree → Prop where
  | done {tree : FileTree} : Making tree tree
  | more {before between : FileTree} {place : Location} (earlier : Making before between)
      (grounded : between.Grounded place) (free : between.bytesAt? place = none) :
      Making before (between.addDirectory place)

namespace Making

theorem trans {between : FileTree} (first : Making before between) (second : Making between after) :
    Making before after := by
  induction second with
  | done => exact first
  | more _ grounded free ih => exact .more ih grounded free

theorem bytesAt? (making : Making before after) (place : Location) :
    after.bytesAt? place = before.bytesAt? place := by
  induction making with
  | done => rfl
  | more _ _ _ ih => rw [bytesAt?_addDirectory, ih]

theorem extends_ (making : Making before after) : Extends before after := by
  induction making with
  | done => exact .refl _
  | more _ grounded _ ih =>
      refine ih.trans ⟨fun other directory => ?_, fun other isFile => by rwa [bytesAt?_addDirectory]⟩
      exact (isDirectoryAt_addDirectory_iff grounded).mpr (Or.inl directory)

theorem plain (making : Making before after) (plain : before.Plain) : after.Plain := by
  induction making with
  | done => exact plain
  | @more between _ _ grounded free ih =>
      rw [plain_iff]
      intro other isFile
      rw [bytesAt?_addDirectory] at isFile
      have notBefore := ih.not_directory isFile
      rw [Bool.eq_false_iff, ne_eq, isDirectoryAt_addDirectory_iff grounded]
      rintro (already | rfl)
      · rw [notBefore] at already
        cases already
      · rw [free] at isFile
        cases isFile

end Making

/-! ### Making directories -/

/-- A directory is made if its path leads to a place where no file is. -/
theorem carryOut_makeDirectory (path : Path) :
    carryOut tree (FileChange.makeDirectory path) = match tree.locate path with
      | .error fault => (.error fault, tree)
      | .ok place =>
          if (tree.bytesAt? place).isSome then (.error (.alreadyThere path.text), tree)
          else (.ok (), tree.addDirectory place) := by
  rw [FileChange.makeDirectory, carryOut_bind, carryOut_get]
  dsimp only
  rw [carryOut_bind, carryOut_ofExcept]
  cases tree.locate path with
  | error fault => rfl
  | ok place =>
      dsimp only
      split <;> rfl

theorem making_makeDirectory (path : Path) :
    Making tree (carryOut tree (FileChange.makeDirectory path)).2 := by
  rw [carryOut_makeDirectory]
  cases found : tree.locate path with
  | error fault => exact .done
  | ok place =>
      obtain ⟨_, trail, rfl⟩ := locate_eq_ok_iff.mp found
      dsimp only
      split
      · exact .done
      · rename_i free
        exact .more .done (grounded_place trail) (by simpa using free)

/-- What is missing above a directory is made first. -/
theorem carryOut_makeDirectories (path : Path) :
    carryOut tree (FileChange.makeDirectories path) = match tree.locate path with
      | .error (.missing text) =>
          if path.parts.isEmpty then (.error (.missing text), tree)
          else carryOut tree
            (FileChange.makeDirectories path.parent >>= fun _ => FileChange.makeDirectory path)
      | _ => carryOut tree (FileChange.makeDirectory path) := by
  rw [FileChange.makeDirectories, carryOut_bind, carryOut_get]
  dsimp only
  cases tree.locate path with
  | ok place => rfl
  | error fault =>
      cases fault with
      | missing text =>
          dsimp only
          split <;> rfl
      | alreadyThere | notDirectory | isDirectory | nameTooLong | zeroCharacter => rfl

/-- However it ends, making directories makes one after another. -/
theorem making_makeDirectories (tree : FileTree) (path : Path) :
    Making tree (carryOut tree (FileChange.makeDirectories path)).2 := by
  induction path using FileChange.makeDirectories.induct generalizing tree with
  | case1 path ih =>
      rw [carryOut_makeDirectories]
      split
      · split
        · exact .done
        · rename_i nonempty
          have upper := ih nonempty tree
          rw [carryOut_bind]
          split
          · rename_i between made
            rw [made] at upper
            exact upper.trans (making_makeDirectory path)
          · rename_i between made
            rw [made] at upper
            exact upper
      · exact making_makeDirectory path

/-- A directory can be made below directories in a tree within another one in which it is a directory. -/
theorem makeDirectory_within {later : FileTree} {path : Path} (within : Extends tree later)
    (plain : later.Plain) (directory : later.isDirectoryAt path.place = true)
    (found : tree.locate path = .ok path.place) :
    ∃ made, carryOut tree (FileChange.makeDirectory path) = (.ok (), made) ∧ Extends made later ∧
      made.isDirectoryAt path.place = true ∧ ∀ on ∈ path.trail, made.isDirectoryAt on = true := by
  obtain ⟨_, trail, _⟩ := locate_eq_ok_iff.mp found
  have grounded := grounded_place trail
  have free : ¬ (tree.bytesAt? path.place).isSome = true := by
    intro isFile
    rw [plain.not_directory (within.file _ isFile)] at directory
    cases directory
  refine ⟨tree.addDirectory path.place, ?_, ⟨?_, ?_⟩, ?_, ?_⟩
  · rw [carryOut_makeDirectory, found]
    exact if_neg free
  · intro other isDirectory
    rcases (isDirectoryAt_addDirectory_iff grounded).mp isDirectory with already | rfl
    · exact within.directory _ already
    · exact directory
  · intro other isFile
    rw [bytesAt?_addDirectory] at isFile
    exact within.file _ isFile
  · exact (isDirectoryAt_addDirectory_iff grounded).mpr (Or.inr rfl)
  · intro on member
    exact (isDirectoryAt_addDirectory_iff grounded).mpr (Or.inl (trail on member))

/-- A directory, with those above it, can be made in a tree within another one that has them all. -/
theorem makeDirectories_within {later : FileTree} {path : Path} (within : Extends tree later)
    (plain : later.Plain) (fits : path.Fits) (directory : later.isDirectoryAt path.place = true)
    (trail : ∀ on ∈ path.trail, later.isDirectoryAt on = true) :
    ∃ made, carryOut tree (FileChange.makeDirectories path) = (.ok (), made) ∧ Extends made later ∧
      made.isDirectoryAt path.place = true ∧ ∀ on ∈ path.trail, made.isDirectoryAt on = true := by
  induction path using FileChange.makeDirectories.induct with
  | case1 path ih =>
      rw [carryOut_makeDirectories]
      rcases locate_cases tree fits with found | ⟨on, member, isFile⟩ | ⟨nonempty, missing⟩
      · rw [found]
        exact makeDirectory_within within plain directory found
      · -- A file in the way is one in the later tree too.
        have isDirectory := trail on member
        rw [plain.not_directory (within.file on isFile)] at isDirectory
        cases isDirectory
      · obtain ⟨name, isChild⟩ := Path.exists_eq_child nonempty
        have parentTrail : path.trail = path.parent.trail ++ [path.parent.place] :=
          (congrArg Path.trail isChild).trans (Path.trail_child _ _)
        rw [parentTrail] at trail
        have isNonempty : ¬ path.parts.isEmpty = true := by simpa using nonempty
        have childFits : (path.parent.child name).Fits := isChild ▸ fits
        obtain ⟨upper, madeUpper, withinUpper, parentDirectory, upperTrail⟩ :=
          ih isNonempty childFits.of_child
          (trail _ (by simp)) (fun on member => trail on (List.mem_append_left _ member))
        rw [missing]
        dsimp only
        rw [if_neg isNonempty, carryOut_bind, madeUpper]
        apply makeDirectory_within withinUpper plain directory
        rw [locate_eq_ok_iff, parentTrail]
        refine ⟨fits, fun on member => ?_, rfl⟩
        rcases List.mem_append.mp member with above | last
        · exact upperTrail on above
        · rw [List.mem_singleton.mp last]
          exact parentDirectory

/-- A file is written if its path leads to a place that is no directory. -/
theorem carryOut_write (path : Path) (bytes : List UInt8) :
    carryOut tree (FileChange.write path bytes) = match tree.locate path with
      | .error fault => (.error fault, tree)
      | .ok place =>
          if tree.isDirectoryAt place then (.error (.isDirectory path.text), tree)
          else (.ok (), tree.put place bytes) := by
  rw [FileChange.write, carryOut_bind, carryOut_get]
  dsimp only
  rw [carryOut_bind, carryOut_ofExcept]
  cases tree.locate path with
  | error fault => rfl
  | ok place =>
      dsimp only
      split <;> rfl

/-! ### Keeping files -/

/-- Write a file in a directory that is made if it is missing. -/
def keeping (path : Path) (bytes : List UInt8) : FileChange Unit := do
  FileChange.makeDirectories path.parent
  FileChange.write path bytes

/-- What becomes of a tree in which a file is kept: directories are made, and then the file is put at the
place of its path, which is no directory, or no file is. -/
theorem keeping_cases (tree : FileTree) (path : Path) (bytes : List UInt8) :
    ∃ made, Making tree made ∧
      ((∃ fault, carryOut tree (keeping path bytes) = (.error fault, made)) ∨
        made.locate path = .ok path.place ∧ made.isDirectoryAt path.place = false ∧
          carryOut tree (keeping path bytes) = (.ok (), made.put path.place bytes)) := by
  have making := making_makeDirectories tree path.parent
  rw [keeping, carryOut_bind]
  generalize carryOut tree (FileChange.makeDirectories path.parent) = upper at making
  obtain ⟨result, made⟩ := upper
  refine ⟨made, making, ?_⟩
  cases result with
  | error fault => exact Or.inl ⟨fault, rfl⟩
  | ok _ =>
      dsimp only
      rw [carryOut_write]
      cases found : made.locate path with
      | error fault => exact Or.inl ⟨fault, rfl⟩
      | ok place =>
          obtain ⟨_, _, rfl⟩ := locate_eq_ok_iff.mp found
          dsimp only
          split
          · exact Or.inl ⟨_, rfl⟩
          · rename_i notDirectory
            exact Or.inr ⟨rfl, by simpa using notDirectory, rfl⟩

/-- A file that could not be kept leaves directories. -/
theorem making_of_keeping_error {path : Path} {fault : FileFault}
    (fails : carryOut tree (keeping path bytes) = (.error fault, after)) : Making tree after := by
  obtain ⟨made, making, ⟨_, fails'⟩ | ⟨_, _, keeps⟩⟩ := keeping_cases tree path bytes
  · cases fails'.symm.trans fails
    exact making
  · cases keeps.symm.trans fails

theorem making_of_keeping_ok {path : Path} (keeps : carryOut tree (keeping path bytes) = (.ok (), after)) :
    ∃ made, Making tree made ∧ made.locate path = .ok path.place ∧
      made.isDirectoryAt path.place = false ∧ after = made.put path.place bytes := by
  obtain ⟨made, making, ⟨_, fails⟩ | ⟨found, notDirectory, keeps'⟩⟩ :=
    keeping_cases tree path bytes
  · cases fails.symm.trans keeps
  · cases keeps'.symm.trans keeps
    exact ⟨made, making, found, notDirectory, rfl⟩

/-- Keeping a file, whether it ends well or not, leaves no file where a directory is. -/
theorem plain_keeping {path : Path} {result : Except FileFault Unit}
    (keeps : carryOut tree (keeping path bytes) = (result, after)) (plain : tree.Plain) :
    after.Plain := by
  cases result with
  | error fault => exact (making_of_keeping_error keeps).plain plain
  | ok _ =>
      obtain ⟨made, making, found, notDirectory, rfl⟩ := making_of_keeping_ok keeps
      obtain ⟨_, trail, _⟩ := locate_eq_ok_iff.mp found
      exact (making.plain plain).put (grounded_place trail) notDirectory

/-- A file that a tree has can be kept in every tree within that one. -/
theorem keeping_within {later : FileTree} {base : Path} {name : String} (bytes : List UInt8)
    (within : Extends tree later) (plain : later.Plain)
    (isFile : later.isFile (base.child name) = .ok true) :
    ∃ made, carryOut tree (keeping (base.child name) bytes) = (.ok (), made) := by
  obtain ⟨found, isFile⟩ := isFile_eq_true_iff.mp isFile
  obtain ⟨fits, trail, _⟩ := locate_eq_ok_iff.mp found
  have isTrail := Path.trail_child base name
  rw [isTrail] at trail
  obtain ⟨made, makes, withinMade, directory, madeTrail⟩ := makeDirectories_within within plain
    fits.of_child (trail _ (by simp)) (fun on member => trail on (List.mem_append_left _ member))
  have foundMade : made.locate (base.child name) = .ok (base.child name).place := by
    rw [locate_eq_ok_iff, isTrail]
    refine ⟨fits, fun on member => ?_, rfl⟩
    rcases List.mem_append.mp member with above | last
    · exact madeTrail on above
    · rw [List.mem_singleton.mp last]
      exact directory
  have notDirectory : ¬ made.isDirectoryAt (base.child name).place = true := by
    intro isDirectory
    have notLater := plain.not_directory isFile
    rw [withinMade.directory _ isDirectory] at notLater
    cases notLater
  refine ⟨made.put (base.child name).place bytes, ?_⟩
  rw [keeping, Path.parent_child, carryOut_bind, makes]
  dsimp only
  rw [carryOut_write, foundMade]
  exact if_neg notDirectory

/-- Two dots after a directory lead to a directory. -/
theorem isDirectoryAt_place_up {base : Path}
    (found : tree.locate (base.child "..") = .ok (base.child "..").place) :
    tree.isDirectoryAt (base.child "..").place = true := by
  obtain ⟨_, trail, _⟩ := locate_eq_ok_iff.mp found
  rw [Path.trail_child] at trail
  rw [Path.place_child]
  exact isDirectoryAt_parent (trail _ (by simp))

/-- Different paths from one directory, of which neither leads to a directory, lead to different places. -/
theorem place_child_ne {before after : FileTree} {base : Path} {first second : String}
    (different : base.child first ≠ base.child second)
    (oneFound : before.locate (base.child first) = .ok (base.child first).place)
    (oneFile : before.isDirectoryAt (base.child first).place = false)
    (otherFound : after.locate (base.child second) = .ok (base.child second).place)
    (otherFile : after.isDirectoryAt (base.child second).place = false) :
    (base.child first).place ≠ (base.child second).place := by
  have notUp : ∀ {tree : FileTree} {name : String},
      tree.locate (base.child name) = .ok (base.child name).place →
      tree.isDirectoryAt (base.child name).place = false → name ≠ ".." := by
    rintro tree _ found isFile rfl
    rw [isDirectoryAt_place_up found] at isFile
    cases isFile
  intro same
  rw [Path.place_child, Path.place_child] at same
  exact different (congrArg base.child (Location.follow_injective (notUp oneFound oneFile)
    (notUp otherFound otherFile) same))

end FileTree

end HeaderBindings
