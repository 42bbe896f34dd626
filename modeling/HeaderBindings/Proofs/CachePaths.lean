/-
Module: HeaderBindings.Proofs.CachePaths
Purpose: Where the header of a URL is kept: directly in the cache, unless the decoded path of the URL
  ends in two dots; and what downloads change is directly in the cache in any case.
Main exports: Path.EndsIn, HeaderCache.PathFor, HeaderCache.pathFor_cases, HeaderCache.afterAll_inside,
  HeaderCache.downloads_directly_inside
-/
import HeaderBindings.Proofs.CachedDownloads
import HeaderBindings.Proofs.FilesBelow

namespace HeaderBindings

namespace Path

open Text

/-! ### The last part of a text -/

/-- A text between slashes ends in a name: after it there are at most slashes and single dots. -/
structure EndsIn (text name : List Char) : Prop where
  leads : isPart name = true
  cut : ∃ before after, text = List.intercalate ['/'] (before ++ name :: after) ∧
    (∀ part ∈ before ++ name :: after, '/' ∉ part) ∧ ∀ part ∈ after, part = [] ∨ part = ['.']

theorem isPart_eq_false_iff {part : List Char} : isPart part = false ↔ part = [] ∨ part = ['.'] := by
  rw [isPart, Bool.and_eq_false_iff, Bool.not_eq_false', List.isEmpty_iff, bne_eq_false_iff_eq]

/-- The last part that a path is given is the one that its text ends in. -/
theorem getLast?_parts_iff {text name : List Char} :
    ((splitAtMark '/' text).filter isPart).getLast? = some name ↔ EndsIn text name := by
  rw [List.getLast?_eq_some_iff]
  constructor
  · rintro ⟨kept, areKept⟩
    obtain ⟨front, back, parts, _, isLast⟩ := List.filter_eq_append_iff.mp areKept
    obtain ⟨between, after, rfl, dropped, leads, dropsAfter⟩ := List.filter_eq_cons_iff.mp isLast
    refine ⟨leads, front ++ between, after, ?_, ?_, ?_⟩
    · rw [List.append_assoc, ← parts, splitAtMark_eq_splitOn, List.intercalate_splitOn]
    · rw [List.append_assoc, ← parts]
      exact fun part member => not_mem_of_mem_splitAtMark member
    · intro part member
      rw [List.filter_eq_nil_iff] at dropsAfter
      exact isPart_eq_false_iff.mp (by simpa using dropsAfter part member)
  · rintro ⟨leads, before, after, rfl, unmarked, lost⟩
    rw [splitAtMark_eq_splitOn, List.splitOn_intercalate '/' unmarked (by simp)]
    have none_ : after.filter isPart = [] := by
      rw [List.filter_eq_nil_iff]
      intro part member
      rw [isPart_eq_false_iff.mpr (lost part member)]
      exact Bool.false_ne_true
    refine ⟨before.filter isPart, ?_⟩
    rw [List.filter_append, List.filter_cons_of_pos leads, none_]

theorem EndsIn.noSlash {text name : List Char} (ends : EndsIn text name) : '/' ∉ name := by
  obtain ⟨before, after, _, unmarked, _⟩ := ends.cut
  exact unmarked name (List.mem_append_right _ List.mem_cons_self)

theorem EndsIn.isName_iff {text : List Char} {name : String} (ends : EndsIn text name.toList) :
    IsName name ↔ name ≠ ".." :=
  ⟨IsName.notUp, fun notUp => ⟨⟨ends.leads, ends.noSlash⟩, notUp⟩⟩

theorem name_ofString_eq_iff {text name : String} (some_ : name ≠ "") :
    (ofString text).name = name ↔ EndsIn text.toList name.toList := by
  rw [← getLast?_parts_iff]
  unfold Path.name ofString ofChars
  dsimp only
  rw [List.getLast?_map]
  cases (List.filter isPart (splitAtMark '/' text.toList)).getLast? with
  | none => simpa using some_.symm
  | some last =>
      rw [Option.map_some, Option.getD_some, Option.some.injEq]
      constructor
      · rintro rfl
        rw [String.toList_ofList]
      · rintro rfl
        rw [String.ofList_toList]

end Path

theorem Url.fileName?_eq_some_iff {url : Url} {name : String} :
    url.fileName? = some name ↔ Path.EndsIn url.decodedPath.toList name.toList := by
  unfold Url.fileName?
  dsimp only
  by_cases some_ : name = ""
  · subst some_
    constructor
    · intro named
      split at named
      · cases named
      · rename_i nonempty
        exact absurd (Option.some.inj named) (by simpa using nonempty)
    · intro ends
      cases ends.leads
  · rw [← Path.name_ofString_eq_iff some_, Option.ite_none_left_eq_some, Option.some.injEq]
    constructor
    · exact And.right
    · rintro rfl
      exact ⟨by simpa using some_, rfl⟩

/-! ### Where a header is kept -/

namespace HeaderCache

variable {cache : HeaderCache} {client : Client} {before after : Transfer} {fetch : Fetch}
  {result : Except FetchFault Path} {url : String} {path : Path}

/-- Where the header of a URL is kept: nowhere if the text is no URL, or if its decoded path ends in no
name; and else in the directory of the cache, under the name that it ends in. -/
inductive PathFor (cache : HeaderCache) (url : String) : Except FetchFault Path → Prop where
  | malformed {fault : UrlFault} (notUrl : Url.ofString url = .error fault) :
      PathFor cache url (.error (.url fault))
  | unnamed {parts : Url} (isUrl : Url.ofString url = .ok parts)
      (noName : ∀ name : String, ¬ Path.EndsIn parts.decodedPath.toList name.toList) :
      PathFor cache url (.error (.download (.noFileName url)))
  | named {parts : Url} {name : String} (isUrl : Url.ofString url = .ok parts)
      (ends : Path.EndsIn parts.decodedPath.toList name.toList) :
      PathFor cache url (.ok (cache.directory.child name))

theorem pathFor_cases (cache : HeaderCache) (url : String) : cache.PathFor url (cache.pathFor url) := by
  rw [pathFor]
  cases isUrl : Url.ofString url with
  | error fault =>
      dsimp only
      exact PathFor.malformed isUrl
  | ok parts =>
      dsimp only
      cases named : parts.fileName? with
      | none =>
          dsimp only
          refine PathFor.unnamed isUrl fun name ends => ?_
          rw [Url.fileName?_eq_some_iff.mpr ends] at named
          cases named
      | some name =>
          dsimp only
          exact PathFor.named isUrl (Url.fileName?_eq_some_iff.mp named)

/-- A header is kept under a name, or under two dots. -/
theorem exists_isName_or_up_of_pathFor (isPath : cache.pathFor url = .ok path) :
    ∃ name, path = cache.directory.child name ∧ (Path.IsName name ∨ name = "..") := by
  have ends := cache.pathFor_cases url
  rw [isPath] at ends
  cases ends with
  | @named parts name isUrl ends =>
      refine ⟨name, rfl, ?_⟩
      by_cases up : name = ".."
      · exact Or.inr up
      · exact Or.inl (ends.isName_iff.mpr up)

/-- What is no directory has a name. -/
theorem exists_isName_of_pathFor {tree : FileTree} (isPath : cache.pathFor url = .ok path)
    (found : tree.locate path = .ok path.place) (notDirectory : tree.isDirectoryAt path.place = false) :
    ∃ name, path = cache.directory.child name ∧ Path.IsName name := by
  obtain ⟨name, rfl, isName | rfl⟩ := exists_isName_or_up_of_pathFor isPath
  · exact ⟨name, rfl, isName⟩
  · rw [FileTree.isDirectoryAt_place_up found] at notDirectory
    cases notDirectory

theorem place_child_of_isName {name : String} (isName : Path.IsName name) :
    (cache.directory.child name).place = cache.directory.place.child name := by
  rw [Path.place_child, Location.follow, if_neg (by simpa using isName.notUp)]

/-! ### What downloads change -/

/-- Two dots after a directory are a directory, so what a fetch writes has a name in the cache. -/
theorem Fetched.inside (ends : Fetched cache client fetch before result after) {place : Location}
    (changed : after.files.bytesAt? place ≠ before.files.bytesAt? place) :
    ∃ name, Path.IsName name ∧ place = cache.directory.place.child name := by
  cases ends with
  | unnamed | untold | known | undelivered => exact absurd rfl changed
  | unkept isPath wants comesTo keeping =>
      exact absurd ((FileTree.making_of_keeping_error keeping).bytesAt? place) changed
  | @kept path body files isPath wants comesTo keeping =>
      obtain ⟨made, making, found, notDirectory, rfl⟩ := FileTree.making_of_keeping_ok keeping
      obtain ⟨name, rfl, isName⟩ := exists_isName_of_pathFor isPath found notDirectory
      refine ⟨name, isName, ?_⟩
      by_contra elsewhere
      rw [← place_child_of_isName isName] at elsewhere
      apply changed
      dsimp only
      rw [FileTree.bytesAt?_put, if_neg elsewhere, making.bytesAt?]

/-- A run of fetches changes files directly in the cache only. -/
theorem afterAll_inside (cache : HeaderCache) (client : Client) (start : Transfer)
    (fetches : List Fetch) {place : Location}
    (changed : (cache.afterAll client start fetches).files.bytesAt? place ≠ start.files.bytesAt? place) :
    ∃ name, Path.IsName name ∧ place = cache.directory.place.child name := by
  induction fetches generalizing start with
  | nil => exact absurd rfl changed
  | cons fetch rest ih =>
      -- The place was changed by this fetch, or by one of those after it.
      by_cases unchanged : (cache.step client start fetch).2.files.bytesAt? place
          = start.files.bytesAt? place
      · apply ih (cache.step client start fetch).2
        rw [unchanged]
        exact changed
      · exact (cache.fetched client start fetch).inside unchanged

/-- A file that a fetch answers has a name in the cache. -/
theorem Fetched.isName_of_returned (plain : after.files.Plain)
    (ends : Fetched cache client fetch before (.ok path) after) :
    ∃ name, path = cache.directory.child name ∧ Path.IsName name := by
  obtain ⟨isPath, isFile, _⟩ := ends.returned
  obtain ⟨found, hasBytes⟩ := FileTree.isFile_eq_true_iff.mp isFile
  exact exists_isName_of_pathFor isPath found (plain.not_directory hasBytes)

/-- For every URL and every cache: the text is malformed, or its decoded path ends in no name, and the
fault says so; or the header's path is the directory of the cache with one more part, which is neither
empty nor a dot and has no slash, and which leads to a place directly in that directory exactly if it is
not two dots, and else to the directory above. Downloads stay in the cache even so: through whatever
client, fetches change files, and answer paths, directly in its directory only. -/
theorem downloads_directly_inside (cache : HeaderCache) (url : String) :
    ((∃ fault, Url.ofString url = .error fault ∧ cache.pathFor url = .error (.url fault)) ∨
      (∃ parts, Url.ofString url = .ok parts ∧
        (∀ name : String, ¬ Path.EndsIn parts.decodedPath.toList name.toList) ∧
        cache.pathFor url = .error (.download (.noFileName url))) ∨
      ∃ parts name, Url.ofString url = .ok parts ∧ Path.EndsIn parts.decodedPath.toList name.toList ∧
        cache.pathFor url = .ok (cache.directory.child name) ∧
        (cache.directory.child name).parent = cache.directory ∧
        name ≠ "" ∧ '/' ∉ name.toList ∧ name ≠ "." ∧ (Path.IsName name ↔ name ≠ "..") ∧
        (cache.directory.child name).place
          = if name = ".." then cache.directory.place.parent else cache.directory.place.child name) ∧
    ∀ (client : Client) (start : Transfer) (fetches : List Fetch),
      (∀ place, (cache.afterAll client start fetches).files.bytesAt? place
        ≠ start.files.bytesAt? place →
        ∃ name, Path.IsName name ∧ place = cache.directory.place.child name) ∧
      ∀ force path, start.files.Plain →
        (cache.step client (cache.afterAll client start fetches) ⟨url, force⟩).1 = .ok path →
        ∃ name, path = cache.directory.child name ∧ Path.IsName name := by
  constructor
  · have ends := cache.pathFor_cases url
    cases isPath : cache.pathFor url with
    | error fault =>
        rw [isPath] at ends
        cases ends with
        | malformed notUrl => exact Or.inl ⟨_, notUrl, rfl⟩
        | unnamed isUrl noName => exact Or.inr (Or.inl ⟨_, isUrl, noName, rfl⟩)
    | ok path =>
        rw [isPath] at ends
        cases ends with
        | @named parts name isUrl ends =>
            have leads := ends.leads
            refine Or.inr (Or.inr ⟨parts, name, isUrl, ends, rfl, Path.parent_child _ _, ?_,
              ends.noSlash, ?_, ends.isName_iff, ?_⟩)
            · rintro rfl
              cases leads
            · rintro rfl
              cases leads
            · rw [Path.place_child, Location.follow]
              by_cases up : name = ".." <;> simp [up]
  · intro client start fetches
    refine ⟨fun place => afterAll_inside cache client start fetches, ?_⟩
    intro force path plain returns
    -- No file comes to be where a directory is, so the path that is answered leads to no directory.
    have reached := plain_afterAll cache client plain fetches
    have ends := cache.fetched client (cache.afterAll client start fetches) ⟨url, force⟩
    have left := ends.plain reached
    rw [returns] at ends
    exact ends.isName_of_returned left

/-- The path of two dots, escaped, is not in the cache but above it. -/
theorem pathFor_escapedDots : ∃ path, localCache.pathFor "http://h/%2e%2e" = .ok path ∧
    path.text = "cache/.." ∧ path.place = localCache.directory.place.parent ∧
    ¬ ∃ name, Path.IsName name ∧ path = localCache.directory.child name := by
  refine ⟨⟨.workingDirectory, ["cache", ".."]⟩, by decide +kernel, by decide, by decide, ?_⟩
  rintro ⟨name, isName, same⟩
  have isLast : ".." = name := by simpa [localCache, Path.child] using same
  exact isName.notUp isLast.symm

end HeaderCache

end HeaderBindings
