/-
Module: HeaderBindings.Proofs.HeaderPlaces
Purpose: Which file a header's name finds: the header itself, a file in an include directory, or the first
  of the files below the include directories whose names match the header's.
Main exports: HeaderLookup.shortest?_least, Glob.Matches, Glob.matches_iff_eq,
  HeaderLookup.search_eq_ok, HeaderLookup.FirstFile, HeaderLookup.Found, HeaderLookup.Found.unique,
  HeaderLookup.find?_found
-/
import Mathlib.Data.List.Forall2
import Mathlib.Data.Prod.Lex
import Mathlib.Data.String.Basic
import HeaderBindings.Files.HeaderLookup
import HeaderBindings.Proofs.FilesBelow

namespace HeaderBindings

/-! ### The order of hits -/

namespace HeaderLookup

/-- What hits are compared by: the length of the path's text, and then the text. -/
def rank (path : Path) : Nat ×ₗ String := toLex (path.text.length, path.text)

theorem precedes_iff {path other : Path} : precedes path other = true ↔ rank path < rank other := by
  simp [precedes, rank, Prod.Lex.toLex_lt_toLex]

theorem rank_injective {path other : Path} (proper : path.Proper) (otherProper : other.Proper)
    (same : rank path = rank other) : path = other :=
  Path.text_injective proper otherProper (Prod.ext_iff.mp (toLex.injective same)).2

/-- The hit that is chosen is one of the hits, and no other one comes before it. -/
theorem shortest?_least {paths : List Path} {least : Path} (found : shortest? paths = some least) :
    least ∈ paths ∧ ∀ other ∈ paths, rank least ≤ rank other := by
  cases paths with
  | nil => cases found
  | cons first rest =>
      cases found
      -- On the paths after the best one so far, which may be any.
      induction rest generalizing first with
      | nil => simp
      | cons next others ih =>
          rw [List.foldl_cons]
          split
          · rename_i earlier
            have before := (precedes_iff.mp earlier).le
            obtain ⟨member, least⟩ := ih next
            refine ⟨List.mem_cons_of_mem _ member, ?_⟩
            rw [List.forall_mem_cons]
            exact ⟨(least next List.mem_cons_self).trans before, least⟩
          · rename_i later
            have before := not_lt.mp (mt precedes_iff.mpr later)
            obtain ⟨member, least⟩ := ih first
            rw [List.forall_mem_cons] at least
            refine ⟨?_, ?_⟩
            · rcases List.mem_cons.mp member with same | further
              · rw [same]
                exact List.mem_cons_self
              · exact List.mem_cons_of_mem _ (List.mem_cons_of_mem _ further)
            · rw [List.forall_mem_cons, List.forall_mem_cons]
              exact ⟨least.1, least.1.trans before, least.2⟩

theorem shortest?_eq_none_iff {paths : List Path} : shortest? paths = none ↔ paths = [] := by
  cases paths <;> simp [shortest?]

end HeaderLookup

/-! ### Names that match a header's -/

namespace Glob

/-- The name of a header, read as a pattern, matches a file name. -/
def Matches (name fileName : String) : Prop :=
  ∃ glob, ofName? name = some glob ∧ glob.matchesName fileName = true

theorem readPieces_of_plain {text : List Char}
    (plain : ∀ c ∈ text, c ≠ '*' ∧ c ≠ '?' ∧ c ≠ '[') :
    readPieces text = text.map fun c => .oneOf false [.one c] := by
  induction text with
  | nil => rw [readPieces, List.map_nil]
  | cons c rest ih =>
      rw [List.forall_mem_cons] at plain
      rw [readPieces, ih plain.2, List.map_cons]
      · exact plain.1.1
      · exact plain.1.2.1
      · exact plain.1.2.2

theorem matchPieces_characters (text other : List Char) :
    matchPieces (text.map fun c => .oneOf false [.one c]) other = true ↔ other = text := by
  induction text generalizing other with
  | nil => simp [matchPieces]
  | cons c rest ih =>
      cases other with
      | nil => simp [matchPieces]
      | cons d others => simp [matchPieces, ih, Piece.admits, Item.lists]

theorem matchesName_characters (text : List Char) (fileName : String) :
    (files (text.map fun c => .oneOf false [.one c])).matchesName fileName
      = (fileName.toList == text) := by
  rw [Bool.eq_iff_iff, matchesName, matchPieces_characters, beq_iff_eq]

theorem hasDoubleStar_of_plain {text : List Char} (plain : '*' ∉ text) :
    hasDoubleStar text = false := by
  induction text with
  | nil => rfl
  | cons c rest ih =>
      rw [List.mem_cons, not_or] at plain
      rw [hasDoubleStar, ih plain.2]
      rintro others rfl
      exact absurd rfl plain.1

/-- A name without wildcards matches itself alone. -/
theorem matches_iff_eq {name fileName : String} (plain : hasWildcard name = false) :
    Matches name fileName ↔ fileName = name := by
  have characters : ∀ c ∈ name.toList, c ≠ '*' ∧ c ≠ '?' ∧ c ≠ '[' := by
    simpa [hasWildcard, not_or, and_assoc] using plain
  have noStar : '*' ∉ name.toList := fun member => (characters _ member).1 rfl
  have notDirectories : name ≠ "**" := by
    rintro rfl
    exact noStar (by decide)
  have isGlob : ofName? name = some (.files (name.toList.map fun c => .oneOf false [.one c])) := by
    rw [ofName?, if_neg (by simpa using notDirectories), hasDoubleStar_of_plain noStar,
      if_neg Bool.false_ne_true, readPieces_of_plain characters]
  unfold Matches
  simp only [isGlob, Option.some.injEq, exists_eq_left', matchesName_characters, beq_iff_eq,
    String.toList_inj]

end Glob

/-! ### The search -/

namespace HeaderLookup

variable {files : FileTree} {name : String} {directories : List Path}

theorem mem_onlyFiles {paths kept : List Path} (kept_ : onlyFiles files paths = .ok kept)
    (path : Path) : path ∈ kept ↔ path ∈ paths ∧ files.isFile path = .ok true := by
  induction paths generalizing kept with
  | nil =>
      cases kept_
      simp
  | cons first rest ih =>
      rw [onlyFiles] at kept_
      cases isFile : files.isFile first with
      | error fault =>
          rw [isFile] at kept_
          cases kept_
      | ok known =>
          cases later : onlyFiles files rest with
          | error fault =>
              rw [isFile, later] at kept_
              cases kept_
          | ok others =>
              rw [isFile, later] at kept_
              cases kept_
              rw [List.mem_cons, or_and_right, ← ih later]
              cases known with
              | true =>
                  have own : path = first ∧ files.isFile path = .ok true ↔ path = first := by
                    refine and_iff_left_of_imp ?_
                    rintro rfl
                    exact isFile
                  rw [if_pos rfl, List.mem_cons, own]
              | false =>
                  have notOwn : ¬ (path = first ∧ files.isFile path = .ok true) := by
                    rintro ⟨rfl, isFile'⟩
                    rw [isFile] at isFile'
                    cases isFile'
                  rw [if_neg Bool.false_ne_true, or_iff_right notOwn]

theorem filesNamed_eq (files : FileTree) (name : String) (directory : Path) :
    filesNamed files name directory = match files.isDirectory directory with
      | .error fault => .error (.file fault)
      | .ok false => .ok []
      | .ok true => match Glob.ofName? name with
        | none => .error .brokenPattern
        | some glob =>
            match if Glob.hasWildcard name then .ok false else files.isFile (directory.child name) with
            | .error fault => .error (.file fault)
            | .ok _ => (onlyFiles files ((files.filesBelow directory).filter fun path =>
                glob.matchesName path.name)).mapError .file := by
  unfold filesNamed
  cases files.isDirectory directory with
  | error fault => rfl
  | ok known =>
      cases known with
      | false => rfl
      | true =>
          cases Glob.ofName? name with
          | none => rfl
          | some glob =>
              cases Glob.hasWildcard name with
              | true => rfl
              | false => cases files.isFile (directory.child name) <;> rfl

theorem filesNamed_of_glob {directory : Path} {glob : Glob}
    (isDirectory : files.isDirectory directory = .ok true) (isGlob : Glob.ofName? name = some glob)
    (child : ∃ known, files.isFile (directory.child name) = .ok known) :
    filesNamed files name directory = (onlyFiles files ((files.filesBelow directory).filter fun path =>
      glob.matchesName path.name)).mapError .file := by
  obtain ⟨known, isFile⟩ := child
  rw [filesNamed_eq, isDirectory, isGlob, isFile]
  cases Glob.hasWildcard name <;> rfl

/-- The files that are found below a directory are those below it whose names match. -/
theorem mem_filesNamed (proper : files.Proper) {directory : Path} {listed : List Path}
    (found : filesNamed files name directory = .ok listed) (path : Path) :
    path ∈ listed ↔ files.Below directory path ∧ Glob.Matches name path.name := by
  rw [filesNamed_eq] at found
  split at found
  · cases found
  · rename_i notDirectory
    cases found
    have notBelow : ¬ files.Below directory path := by
      intro below
      rw [below.isDirectory] at notDirectory
      cases notDirectory
    simp [notBelow]
  · split at found
    · cases found
    · rename_i glob isGlob
      split at found
      · cases found
      · have isMatch : Glob.Matches name path.name ↔ glob.matchesName path.name = true := by
          simp [Glob.Matches, isGlob]
        rw [mem_onlyFiles ((mapError_eq_ok_iff _).mp found), List.mem_filter, isMatch,
          ← FileTree.mem_filesBelow_iff proper, and_right_comm]

theorem forall₂_of_mapM {ε α β : Type} {step : α → Except ε β} {xs : List α} {ys : List β}
    (all : xs.mapM step = .ok ys) : List.Forall₂ (fun x y => step x = .ok y) xs ys := by
  induction xs generalizing ys with
  | nil =>
      cases all
      exact .nil
  | cons x rest ih =>
      rw [List.mapM_cons] at all
      cases first : step x with
      | error fault =>
          rw [first] at all
          cases all
      | ok y =>
          cases later : rest.mapM step with
          | error fault =>
              rw [first, later] at all
              cases all
          | ok others =>
              rw [first, later] at all
              cases all
              exact .cons first (ih later)

/-- The hits of a search are the files below one of the directories whose names match. -/
theorem search_eq_ok {result : Option Path} (proper : files.Proper)
    (found : search files directories name = .ok result) :
    ∃ hits, result = shortest? hits ∧ ∀ path, path ∈ hits ↔
      (∃ directory ∈ directories, files.Below directory path) ∧ Glob.Matches name path.name := by
  unfold search at found
  cases all : directories.mapM (filesNamed files name) with
  | error fault =>
      rw [all] at found
      cases found
  | ok lists =>
      rw [all] at found
      cases found
      refine ⟨lists.flatten, rfl, fun path => ?_⟩
      have areLists := forall₂_of_mapM all
      clear all
      induction areLists with
      | nil => simp
      | cons first _ ih =>
          rw [List.flatten_cons, List.mem_append, mem_filesNamed proper first,
            List.exists_mem_cons_iff, or_and_right]
          exact or_congr_right ih

/-! ### Where a header is found -/

/-- A path is the first of some paths that leads to a file. -/
def FirstFile (files : FileTree) (paths : List Path) (hit : Path) : Prop :=
  ∃ earlier later, paths = earlier ++ hit :: later ∧
    (∀ other ∈ earlier, files.isFile other = .ok false) ∧ files.isFile hit = .ok true

theorem FirstFile.mem {paths : List Path} {hit : Path} (first : FirstFile files paths hit) :
    hit ∈ paths := by
  obtain ⟨earlier, later, rfl, _⟩ := first
  simp

theorem FirstFile.isFile {paths : List Path} {hit : Path} (first : FirstFile files paths hit) :
    files.isFile hit = .ok true := by
  obtain ⟨_, _, _, _, isFile⟩ := first
  exact isFile

theorem FirstFile.not_all {paths : List Path} {hit : Path} (first : FirstFile files paths hit) :
    ¬ ∀ path ∈ paths, files.isFile path = .ok false := by
  intro none_
  have notFile := none_ hit first.mem
  rw [first.isFile] at notFile
  cases notFile

theorem firstFile?_cons (first : Path) (rest : List Path) :
    firstFile? files (first :: rest) = match files.isFile first with
      | .error fault => .error fault
      | .ok true => .ok (some first)
      | .ok false => firstFile? files rest := by
  rw [firstFile?]
  cases files.isFile first with
  | error fault => rfl
  | ok known => cases known <;> rfl

theorem FirstFile.firstFile?_eq {paths : List Path} {hit : Path}
    (first : FirstFile files paths hit) : firstFile? files paths = .ok (some hit) := by
  obtain ⟨earlier, later, rfl, before, isFile⟩ := first
  induction earlier with
  | nil => rw [List.nil_append, firstFile?_cons, isFile]
  | cons other others ih =>
      rw [List.forall_mem_cons] at before
      rw [List.cons_append, firstFile?_cons, before.1]
      exact ih before.2

theorem FirstFile.unique {paths : List Path} {hit other : Path} (first : FirstFile files paths hit)
    (second : FirstFile files paths other) : hit = other := by
  have same := first.firstFile?_eq.symm.trans second.firstFile?_eq
  simpa using same

theorem firstFile?_cases {paths : List Path} {result : Option Path}
    (found : firstFile? files paths = .ok result) :
    (∃ hit, result = some hit ∧ FirstFile files paths hit) ∨
      (result = none ∧ ∀ path ∈ paths, files.isFile path = .ok false) := by
  induction paths with
  | nil =>
      cases found
      exact .inr ⟨rfl, by simp⟩
  | cons first rest ih =>
      rw [firstFile?_cons] at found
      split at found
      · cases found
      · rename_i isFile
        cases found
        exact .inl ⟨first, rfl, [], rest, rfl, by simp, isFile⟩
      · rename_i notFile
        rcases ih found with ⟨hit, rfl, earlier, later, rfl, before, isFile⟩ | ⟨rfl, none_⟩
        · exact .inl ⟨hit, rfl, first :: earlier, later, rfl,
            List.forall_mem_cons.mpr ⟨notFile, before⟩, isFile⟩
        · exact .inr ⟨rfl, List.forall_mem_cons.mpr ⟨notFile, none_⟩⟩

/-- A path is what a search can find: it leads to a file below one of some directories whose name counts. -/
def Candidate (files : FileTree) (directories : List Path) (named : String → Prop) (path : Path) :
    Prop :=
  (∃ directory ∈ directories, files.Below directory path) ∧ named path.name

/-- What is found for a header: the first of the paths in which it is looked for directly that leads to a
file; else the one path among those that a search can find that comes before all others; else nothing. -/
inductive Found (files : FileTree) (direct directories : List Path) (named : String → Prop) :
    Option Path → Prop where
  | directly {hit : Path} (first : FirstFile files direct hit) :
      Found files direct directories named (some hit)
  | below {hit : Path} (notDirectly : ∀ path ∈ direct, files.isFile path = .ok false)
      (candidate : Candidate files directories named hit)
      (first : ∀ other, Candidate files directories named other → other ≠ hit →
        precedes hit other = true) :
      Found files direct directories named (some hit)
  | nowhere (notDirectly : ∀ path ∈ direct, files.isFile path = .ok false)
      (none_ : ∀ path, ¬ Candidate files directories named path) :
      Found files direct directories named none

theorem Candidate.isFile {path : Path} {named : String → Prop}
    (candidate : Candidate files directories named path) : files.isFile path = .ok true := by
  obtain ⟨⟨_, _, _, _, _, _, isFile⟩, _⟩ := candidate
  exact isFile

theorem Candidate.proper {path : Path} {named : String → Prop}
    (candidate : Candidate files directories named path)
    (proper : ∀ directory ∈ directories, directory.Proper) : path.Proper := by
  obtain ⟨⟨directory, member, below⟩, _⟩ := candidate
  exact below.proper (proper directory member)

/-- What is found is a file. -/
theorem Found.isFile {direct : List Path} {named : String → Prop} {hit : Path}
    (found : Found files direct directories named (some hit)) : files.isFile hit = .ok true := by
  cases found with
  | directly first => exact first.isFile
  | below _ candidate _ => exact candidate.isFile

theorem Found.mem_or_named {direct : List Path} {named : String → Prop} {hit : Path}
    (found : Found files direct directories named (some hit)) : hit ∈ direct ∨ named hit.name := by
  cases found with
  | directly first => exact .inl first.mem
  | below _ candidate _ => exact .inr candidate.2

/-- What is found does not depend on the order in which a search lists the files. -/
theorem Found.unique {direct : List Path} {named : String → Prop} {result other : Option Path}
    (one : Found files direct directories named result)
    (another : Found files direct directories named other) : result = other := by
  cases one with
  | directly first =>
      cases another with
      | directly second => rw [first.unique second]
      | below notDirectly _ _ | nowhere notDirectly _ => exact absurd notDirectly first.not_all
  | @below hit notDirectly candidate first =>
      cases another with
      | directly second => exact absurd notDirectly second.not_all
      | @below otherHit _ otherCandidate second =>
          by_contra different
          have apart : otherHit ≠ hit := fun same => different (congrArg some same.symm)
          have before := precedes_iff.mp (first otherHit otherCandidate apart)
          exact before.asymm (precedes_iff.mp (second hit candidate apart.symm))
      | nowhere _ none_ => exact absurd candidate (none_ hit)
  | nowhere notDirectly none_ =>
      cases another with
      | directly second => exact absurd notDirectly second.not_all
      | @below otherHit _ candidate _ => exact absurd candidate (none_ otherHit)
      | nowhere _ _ => rfl

/-- A search finds, of the paths that it can find, the one that comes before all others. -/
theorem found_of_search {direct : List Path} {result : Option Path} (proper : files.Proper)
    (areProper : ∀ directory ∈ directories, directory.Proper)
    (notDirectly : ∀ path ∈ direct, files.isFile path = .ok false)
    (found : search files directories name = .ok result) :
    Found files direct directories (Glob.Matches name) result := by
  obtain ⟨hits, rfl, areHits⟩ := search_eq_ok proper found
  cases isLeast : shortest? hits with
  | none =>
      have none_ := shortest?_eq_none_iff.mp isLeast
      refine .nowhere notDirectly fun path candidate => ?_
      have member := (areHits path).mpr candidate
      rw [none_] at member
      cases member
  | some least =>
      obtain ⟨member, before⟩ := shortest?_least isLeast
      have candidate : Candidate files directories (Glob.Matches name) least :=
        (areHits least).mp member
      refine .below notDirectly candidate fun other isOther different => ?_
      have notAfter := before other ((areHits other).mpr isOther)
      rw [precedes_iff]
      refine lt_of_le_of_ne notAfter fun same => different ?_
      exact (rank_injective (candidate.proper areProper) (isOther.proper areProper) same).symm

/-- A path that names a file: it has a last part, and is not a user's home alone. -/
structure NamesFile (header : Path) : Prop where
  nonempty : header.parts ≠ []
  notHome : ∀ first, header = ⟨.workingDirectory, [first]⟩ → first.toList.head? ≠ some '~'

theorem name_join (directory : Path) {header : Path} (nonempty : header.parts ≠ []) :
    (directory.join header).name = header.name := by
  unfold Path.join
  split
  · exact (Path.name_descend directory nonempty).trans
      (by simp [Path.name, List.getLast?_eq_some_getLast nonempty])
  · rfl

theorem NamesFile.name_expandHome {header path : Path} (namesFile : NamesFile header) {homes : Homes}
    (expands : header.expandHome homes = .ok path) : path.name = header.name := by
  unfold Path.expandHome at expands
  split at expands
  · rename_i first rest isAnchor parts
    split at expands
    · rename_i user tilde
      cases isHome : Path.directoryAfterTilde homes user with
      | error fault =>
          rw [isHome] at expands
          cases expands
      | ok directory =>
          rw [isHome] at expands
          cases expands
          have further : rest ≠ [] := by
            rintro rfl
            obtain ⟨anchor, _⟩ := header
            cases isAnchor
            cases parts
            exact namesFile.notHome first rfl (by rw [tilde, List.head?_cons])
          rw [name_join _ further]
          simp [Path.name, parts, List.getLast?_cons, List.getLast?_eq_some_getLast further]
    · cases expands
      rfl
  · cases expands
    rfl

/-! ### A search without faults -/

/-- Nothing that a search looks at is too long. -/
structure Short (files : FileTree) (direct directories : List Path) (name : String) : Prop where
  direct : ∀ path ∈ direct, ¬ path.TooLong
  directory : ∀ directory ∈ directories, ¬ directory.TooLong
  child : ∀ directory ∈ directories, ¬ (directory.child name).TooLong
  below : ∀ directory ∈ directories, ∀ path ∈ files.filesBelow directory, ¬ path.TooLong

theorem exists_onlyFiles_eq_ok {paths : List Path} (short : ∀ path ∈ paths, ¬ path.TooLong) :
    ∃ kept, onlyFiles files paths = .ok kept := by
  induction paths with
  | nil => exact ⟨[], rfl⟩
  | cons first rest ih =>
      rw [List.forall_mem_cons] at short
      obtain ⟨known, isFile⟩ : ∃ known, files.isFile first = .ok known :=
        FileTree.exists_leadsTo_eq_ok short.1 _
      obtain ⟨others, later⟩ := ih short.2
      rw [onlyFiles, isFile, later]
      exact ⟨_, rfl⟩

theorem exists_filesNamed_eq_ok {directory : Path} (spelled : Glob.ofName? name ≠ none)
    (short : ¬ directory.TooLong) (childShort : ¬ (directory.child name).TooLong)
    (belowShort : ∀ path ∈ files.filesBelow directory, ¬ path.TooLong) :
    ∃ listed, filesNamed files name directory = .ok listed := by
  obtain ⟨glob, isGlob⟩ := Option.ne_none_iff_exists'.mp spelled
  obtain ⟨kept, onlyFiles_⟩ : ∃ kept, onlyFiles files ((files.filesBelow directory).filter fun path =>
      glob.matchesName path.name) = .ok kept :=
    exists_onlyFiles_eq_ok fun path member => belowShort path (List.mem_filter.mp member).1
  obtain ⟨isDirectory, leads⟩ : ∃ known, files.isDirectory directory = .ok known :=
    FileTree.exists_leadsTo_eq_ok short _
  have child : ∃ known, files.isFile (directory.child name) = .ok known :=
    FileTree.exists_leadsTo_eq_ok childShort _
  cases isDirectory with
  | false =>
      rw [filesNamed_eq, leads]
      exact ⟨[], rfl⟩
  | true =>
      rw [filesNamed_of_glob leads isGlob child]
      exact ⟨kept, (mapError_eq_ok_iff _).mpr onlyFiles_⟩

theorem exists_mapM_eq_ok {ε α β : Type} {step : α → Except ε β} {xs : List α}
    (each : ∀ x ∈ xs, ∃ value, step x = .ok value) : ∃ values, xs.mapM step = .ok values := by
  induction xs with
  | nil => exact ⟨[], rfl⟩
  | cons x rest ih =>
      rw [List.forall_mem_cons] at each
      obtain ⟨value, first⟩ := each.1
      obtain ⟨values, later⟩ := ih each.2
      rw [List.mapM_cons, first, later]
      exact ⟨value :: values, rfl⟩

theorem exists_firstFile?_eq_ok {paths : List Path} (short : ∀ path ∈ paths, ¬ path.TooLong) :
    ∃ result, firstFile? files paths = .ok result := by
  induction paths with
  | nil => exact ⟨none, rfl⟩
  | cons first rest ih =>
      rw [List.forall_mem_cons] at short
      obtain ⟨known, isFile⟩ : ∃ known, files.isFile first = .ok known :=
        FileTree.exists_leadsTo_eq_ok short.1 _
      rw [firstFile?_cons, isFile]
      cases known with
      | true => exact ⟨some first, rfl⟩
      | false => exact ih short.2

theorem exists_search_eq_ok (spelled : Glob.ofName? name ≠ none) {direct : List Path}
    (short : Short files direct directories name) :
    ∃ result, search files directories name = .ok result := by
  obtain ⟨lists, all⟩ := exists_mapM_eq_ok fun directory member =>
    exists_filesNamed_eq_ok spelled (short.directory directory member) (short.child directory member)
      (short.below directory member)
  rw [search, all]
  exact ⟨_, rfl⟩

/-! ### The header that is found -/

variable {homes : Homes} {includeDirectories : List String} {header : String}

theorem find?_eq {path : Path} (expands : (Path.ofString header).expandHome homes = .ok path) :
    find? files homes includeDirectories header =
      match firstFile? files (path :: directHits (includeDirectories.map Path.ofString)
        (Path.ofString header)) with
      | .error fault => .error (.file fault)
      | .ok (some hit) => .ok (some hit)
      | .ok none => search files (includeDirectories.map Path.ofString) path.name := by
  unfold find?
  dsimp only
  rw [expands]
  dsimp only
  cases firstFile? files (path :: directHits (includeDirectories.map Path.ofString)
    (Path.ofString header)) with
  | error fault => rfl
  | ok hit => cases hit <;> rfl

theorem find?_eq_search (path : Path)
    (expands : (Path.ofString header).expandHome homes = .ok path)
    (notDirectly : firstFile? files (path :: directHits (includeDirectories.map Path.ofString)
      (Path.ofString header)) = .ok none) :
    find? files homes includeDirectories header
      = search files (includeDirectories.map Path.ofString) path.name := by
  rw [find?_eq expands, notDirectly]

theorem exists_find?_eq_ok {path : Path}
    (expands : (Path.ofString header).expandHome homes = .ok path)
    (spelled : Glob.ofName? path.name ≠ none)
    (short : Short files (path :: directHits (includeDirectories.map Path.ofString)
      (Path.ofString header)) (includeDirectories.map Path.ofString) path.name) :
    ∃ result, find? files homes includeDirectories header = .ok result := by
  obtain ⟨hit, isHit⟩ : ∃ hit, firstFile? files (path :: directHits
      (includeDirectories.map Path.ofString) (Path.ofString header)) = .ok hit :=
    exists_firstFile?_eq_ok short.direct
  rw [find?_eq expands, isHit]
  cases hit with
  | some hit => exact ⟨some hit, rfl⟩
  | none => exact exists_search_eq_ok spelled short

theorem found_of_find? {path : Path} {result : Option Path} (proper : files.Proper)
    (expands : (Path.ofString header).expandHome homes = .ok path)
    (finds : find? files homes includeDirectories header = .ok result) :
    Found files (path :: directHits (includeDirectories.map Path.ofString) (Path.ofString header))
      (includeDirectories.map Path.ofString) (Glob.Matches path.name) result := by
  have areProper : ∀ directory ∈ includeDirectories.map Path.ofString, directory.Proper := by
    simp only [List.forall_mem_map]
    exact fun text _ => Path.proper_ofString text
  rw [find?_eq expands] at finds
  split at finds
  · cases finds
  · rename_i hit isHit
    cases finds
    obtain ⟨_, ⟨⟩, first⟩ | ⟨⟨⟩, _⟩ := firstFile?_cases isHit
    exact .directly first
  · rename_i noHit
    obtain ⟨_, ⟨⟩, _⟩ | ⟨_, notDirectly⟩ := firstFile?_cases noHit
    exact found_of_search proper areProper notDirectly finds

/-- A header is found where it is itself, or else in the first include directory that has it directly;
else, of the files below the include directories whose names its name matches as a pattern, the one that
comes before all others in whatever order they are listed; nothing is found only if there is none. So
what is found is a file. A name without wildcards finds only files of that name, and misses none. -/
theorem find?_found {path : Path} (proper : files.Proper)
    (namesFile : NamesFile (Path.ofString header))
    (expands : (Path.ofString header).expandHome homes = .ok path) :
    let written := Path.ofString header
    let directories := includeDirectories.map Path.ofString
    let direct := path :: directHits directories written
    let found := find? files homes includeDirectories header
    (∀ hit, FirstFile files direct hit → found = .ok (some hit)) ∧
    (Short files direct directories written.name → Glob.ofName? written.name ≠ none →
      ∃ result, found = .ok result) ∧
    ∀ result, found = .ok result →
      (∀ other, Found files direct directories (Glob.Matches written.name) other ↔ other = result) ∧
      (∀ hit ∈ result, files.isFile hit = .ok true ∧
        (hit.name = written.name ∨ Glob.Matches written.name hit.name)) ∧
      (Glob.hasWildcard written.name = false →
        (∀ other, Found files direct directories (· = written.name) other ↔ other = result) ∧
        ∀ hit ∈ result, hit.name = written.name) := by
  intro written directories direct found
  have name : path.name = written.name := namesFile.name_expandHome expands
  have directName : ∀ hit ∈ direct, hit.name = written.name := by
    simp only [direct, directHits, List.forall_mem_cons, List.forall_mem_map]
    exact ⟨name, fun text _ => name_join _ namesFile.nonempty⟩
  refine ⟨fun hit first => ?_, fun short spelled => ?_, fun result finds => ?_⟩
  · exact (find?_eq expands).trans (by rw [first.firstFile?_eq])
  · rw [← name] at short spelled
    exact exists_find?_eq_ok expands spelled short
  · have isThere := found_of_find? proper expands finds
    rw [name] at isThere
    have named : ∀ hit ∈ result, hit.name = written.name ∨ Glob.Matches written.name hit.name := by
      rintro hit rfl
      exact isThere.mem_or_named.imp_left (directName hit)
    have alone : ∀ other, Found files direct directories (Glob.Matches written.name) other ↔
        other = result := by
      intro other
      refine ⟨fun isOther => isOther.unique isThere, ?_⟩
      rintro rfl
      exact isThere
    refine ⟨alone, ?_, fun plain => ?_⟩
    · rintro hit rfl
      exact ⟨isThere.isFile, named hit rfl⟩
    · have itself : Glob.Matches written.name = (· = written.name) :=
        funext fun fileName => propext (Glob.matches_iff_eq plain)
      rw [itself] at alone named
      exact ⟨alone, fun hit member => or_self_iff.mp (named hit member)⟩

/-- No home is known. -/
def noHomes : Homes := ⟨none, none, fun _ => none⟩

/-- Headers of one name below two directories. -/
def nestedHeaders : FileTree :=
  ⟨[], [(⟨.above 0, ["inc", "deep", "x.h"]⟩, []), (⟨.above 0, ["lib", "b", "x.h"]⟩, []),
    (⟨.above 0, ["lib", "a", "x.h"]⟩, [])]⟩

/-- Of two paths of one length the one whose text comes first is found, although it is listed last. -/
theorem find?_found_nestedHeaders :
    find? nestedHeaders noHomes ["inc", "lib"] "x.h"
        = .ok (some ⟨.workingDirectory, ["lib", "a", "x.h"]⟩) ∧
      Found nestedHeaders
        (Path.ofString "x.h" :: directHits (["inc", "lib"].map Path.ofString) (Path.ofString "x.h"))
        (["inc", "lib"].map Path.ofString) (· = "x.h")
        (some ⟨.workingDirectory, ["lib", "a", "x.h"]⟩) := by
  have isGlob : Glob.ofName? "x.h" = some (.files ("x.h".toList.map fun c => .oneOf false [.one c])) := by
    decide +kernel
  have first : filesNamed nestedHeaders "x.h" (Path.ofString "inc")
      = .ok [⟨.workingDirectory, ["inc", "deep", "x.h"]⟩] := by
    rw [filesNamed_of_glob rfl isGlob ⟨_, rfl⟩]
    simp only [Glob.matchesName_characters]
    rfl
  have second : filesNamed nestedHeaders "x.h" (Path.ofString "lib")
      = .ok [⟨.workingDirectory, ["lib", "b", "x.h"]⟩,
        ⟨.workingDirectory, ["lib", "a", "x.h"]⟩] := by
    rw [filesNamed_of_glob rfl isGlob ⟨_, rfl⟩]
    simp only [Glob.matchesName_characters]
    rfl
  have searches : find? nestedHeaders noHomes ["inc", "lib"] "x.h"
      = search nestedHeaders [Path.ofString "inc", Path.ofString "lib"] "x.h" :=
    find?_eq_search ⟨.workingDirectory, ["x.h"]⟩ rfl rfl
  have finds : find? nestedHeaders noHomes ["inc", "lib"] "x.h"
      = .ok (some ⟨.workingDirectory, ["lib", "a", "x.h"]⟩) := by
    rw [searches, search, List.mapM_cons, first, List.mapM_cons, second, List.mapM_nil]
    rfl
  have namesFile : NamesFile (Path.ofString "x.h") := by
    refine ⟨by decide, ?_⟩
    rintro first ⟨⟩
    decide
  obtain ⟨_, _, found⟩ := @find?_found nestedHeaders noHomes ["inc", "lib"] "x.h"
    ⟨.workingDirectory, ["x.h"]⟩ (by decide) namesFile rfl
  obtain ⟨_, _, itself⟩ := found _ finds
  exact ⟨finds, ((itself rfl).1 _).mpr rfl⟩

/-- A header with brackets in its name, and one that the name matches as a pattern. -/
def bracketedHeader : FileTree :=
  ⟨[], [(⟨.above 0, ["inc", "d", "[x].h"]⟩, []), (⟨.above 0, ["inc", "d", "x.h"]⟩, [])]⟩

/-- A header whose name has brackets is there, but another one, of another name, is found for it. -/
theorem not_found_by_name_bracketedHeader :
    find? bracketedHeader noHomes ["inc"] "[x].h"
        = .ok (some ⟨.workingDirectory, ["inc", "d", "x.h"]⟩) ∧
      ¬ Found bracketedHeader
        (Path.ofString "[x].h" :: directHits (["inc"].map Path.ofString) (Path.ofString "[x].h"))
        (["inc"].map Path.ofString) (· = (Path.ofString "[x].h").name)
        (some ⟨.workingDirectory, ["inc", "d", "x.h"]⟩) ∧
      Candidate bracketedHeader (["inc"].map Path.ofString) (· = (Path.ofString "[x].h").name)
        ⟨.workingDirectory, ["inc", "d", "[x].h"]⟩ := by
  have isGlob : Glob.ofName? "[x].h" = some (.files ("x.h".toList.map fun c => .oneOf false [.one c])) := by
    decide +kernel
  have listed : filesNamed bracketedHeader "[x].h" (Path.ofString "inc")
      = .ok [⟨.workingDirectory, ["inc", "d", "x.h"]⟩] := by
    rw [filesNamed_of_glob rfl isGlob ⟨_, rfl⟩]
    simp only [Glob.matchesName_characters]
    rfl
  have searches : find? bracketedHeader noHomes ["inc"] "[x].h"
      = search bracketedHeader [Path.ofString "inc"] "[x].h" :=
    find?_eq_search ⟨.workingDirectory, ["[x].h"]⟩ rfl rfl
  refine ⟨?_, fun found => ?_, ⟨Path.ofString "inc", by simp, ["d", "[x].h"], ?_⟩, rfl⟩
  · rw [searches, search, List.mapM_cons, listed, List.mapM_nil]
    rfl
  · rcases found.mem_or_named with member | named
    · exact absurd member (by decide)
    · exact absurd named (by decide)
  · exact ⟨by decide, by decide, rfl, rfl⟩

end HeaderLookup

end HeaderBindings
