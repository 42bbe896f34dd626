/-
Module: HeaderBindings.Proofs.CachedDownloads
Purpose: What a run of fetches requests, which files it changes, and what the files that it answers hold.
Main exports: Reply, Client.Accepts, Client.Asks, Fetch, HeaderCache.Fetched, HeaderCache.fetched,
  HeaderCache.afterAll, HeaderCache.downloads, HeaderCache.Faithful, HeaderCache.fetch_contract
-/
import HeaderBindings.Download.HeaderCache
import HeaderBindings.Proofs.FilePlaces

namespace HeaderBindings

/-! ### Clients over a transport -/

/-- What a transport gives back for a request. -/
inductive Reply where
  | answered (status : Int) (body : List UInt8)
  | failed (reason : String)
deriving Repr, DecidableEq

/-- The report on a reply: it tells of success if its status is from 200 to 299. -/
def Reply.report : Reply → ClientAnswer
  | answered status body => if 200 ≤ status && status < 300 then .body body else .refused status
  | failed reason => .failed reason

namespace Client

variable {client : Client} {transport : String → Reply} {url : String}

/-- A client takes a URL: it does not break off with a fault of its own. -/
def Accepts (client : Client) (url : String) : Prop :=
  ∀ fault, (client url).answer ≠ .brokenOff fault

/-- A client asks a transport: for a URL that it takes it sends one request, with the URL in the form
that it gives it, and its answer is the report on the reply. -/
def Asks (client : Client) (transport : String → Reply) : Prop :=
  ∀ url, client.Accepts url → ∃ sent, client url = ⟨[sent], (transport sent).report⟩

theorem Asks.sent_ne_nil (asks : client.Asks transport) (accepted : client.Accepts url) :
    (client url).sent ≠ [] := by
  obtain ⟨sent, exchange⟩ := asks url accepted
  rw [exchange]
  exact List.cons_ne_nil sent []

/-- A client that takes every URL and sends it as it is. -/
def verbatim (transport : String → Reply) : Client :=
  fun url => ⟨[url], (transport url).report⟩

theorem asks_verbatim (transport : String → Reply) : (verbatim transport).Asks transport :=
  fun url _ => ⟨url, rfl⟩

theorem accepts_verbatim (transport : String → Reply) (url : String) :
    (verbatim transport).Accepts url := by
  intro fault
  unfold verbatim Reply.report
  cases transport url with
  | answered status body =>
      dsimp only
      split <;> exact nofun
  | failed reason => exact nofun

end Client

/-- A fetch of a URL, which may ask for a download even if the file is there. -/
structure Fetch where
  url : String
  force : Bool
deriving Repr, DecidableEq

/-- The transfer after more requests. -/
def Transfer.requesting (transfer : Transfer) (sent : List String) : Transfer :=
  { transfer with requested := transfer.requested ++ sent }

namespace HeaderCache

variable {cache : HeaderCache} {client : Client} {before after : Transfer} {fetch : Fetch}

/-! ### One fetch -/

/-- Carry out a fetch. -/
def step (cache : HeaderCache) (client : Client) (transfer : Transfer) (fetch : Fetch) :
    Except FetchFault Path × Transfer :=
  carryOut transfer (cache.fetch client fetch.url fetch.force)

/-- What a client's answer for a URL comes to: the body of a reply that tells of success, or a fault. -/
def outcome (client : Client) (url : String) : Except FetchFault (List UInt8) :=
  match (client url).answer with
  | .body bytes => .ok bytes
  | .refused status => .error (.download (.refused status url))
  | .failed reason => .error (.download (.failed reason))
  | .brokenOff fault => .error (.client fault)

theorem accepts_of_outcome {url : String} {body : List UInt8} (comesTo : outcome client url = .ok body) :
    client.Accepts url := by
  intro fault breaksOff
  rw [outcome, breaksOff] at comesTo
  cases comesTo

theorem carryOut_request (url : String) : carryOut before (request client url)
    = (outcome client url, before.requesting (client url).sent) := by
  unfold request outcome
  dsimp only
  rw [carryOut_bind, carryOut_modify]
  dsimp only
  cases (client url).answer <;> rfl

theorem carryOut_store (path : Path) (bytes : List UInt8) : carryOut before (store path bytes)
    = ((carryOut before.files (FileTree.keeping path bytes)).1.mapError .file,
      { before with files := (carryOut before.files (FileTree.keeping path bytes)).2 }) := by
  rw [store, carryOut_bind, carryOut_get]
  dsimp only
  rw [carryOut_bind, carryOut_set]
  dsimp only
  rw [carryOut_ofExcept]
  rfl

/-- A fetch asks for a request of a path: it is forced, or no file is there. -/
def Wants (before : Transfer) (fetch : Fetch) (path : Path) : Prop :=
  ∃ known, before.files.isFile path = .ok known ∧ (fetch.force || !known) = true

/-- How a fetch ends, and what it leaves. Only one that wants a request goes on to ask the client, and only
when that comes to a body is a file kept. -/
inductive Fetched (cache : HeaderCache) (client : Client) (fetch : Fetch) (before : Transfer) :
    Except FetchFault Path → Transfer → Prop where
  | unnamed {fault : FetchFault} (isPath : cache.pathFor fetch.url = .error fault) :
      Fetched cache client fetch before (.error fault) before
  | untold {path : Path} {fault : FileFault} (isPath : cache.pathFor fetch.url = .ok path)
      (fails : before.files.isFile path = .error fault) :
      Fetched cache client fetch before (.error (.file fault)) before
  | known {path : Path} (isPath : cache.pathFor fetch.url = .ok path)
      (isFile : before.files.isFile path = .ok true) (unforced : fetch.force = false) :
      Fetched cache client fetch before (.ok path) before
  | undelivered {path : Path} {fault : FetchFault} (isPath : cache.pathFor fetch.url = .ok path)
      (wants : Wants before fetch path) (comesTo : outcome client fetch.url = .error fault) :
      Fetched cache client fetch before (.error fault) (before.requesting (client fetch.url).sent)
  | unkept {path : Path} {body : List UInt8} {fault : FileFault} {files : FileTree}
      (isPath : cache.pathFor fetch.url = .ok path) (wants : Wants before fetch path)
      (comesTo : outcome client fetch.url = .ok body)
      (keeping : carryOut before.files (FileTree.keeping path body) = (.error fault, files)) :
      Fetched cache client fetch before (.error (.file fault))
        { before.requesting (client fetch.url).sent with files }
  | kept {path : Path} {body : List UInt8} {files : FileTree}
      (isPath : cache.pathFor fetch.url = .ok path) (wants : Wants before fetch path)
      (comesTo : outcome client fetch.url = .ok body)
      (keeping : carryOut before.files (FileTree.keeping path body) = (.ok (), files)) :
      Fetched cache client fetch before (.ok path)
        { before.requesting (client fetch.url).sent with files }

theorem fetched (cache : HeaderCache) (client : Client) (before : Transfer) (fetch : Fetch) :
    Fetched cache client fetch before (cache.step client before fetch).1
      (cache.step client before fetch).2 := by
  unfold step HeaderCache.fetch
  cases isPath : cache.pathFor fetch.url with
  | error fault => exact .unnamed isPath
  | ok path =>
      dsimp only
      rw [carryOut_bind, carryOut_get]
      dsimp only
      rw [carryOut_bind, carryOut_ofExcept]
      cases isFile : before.files.isFile path with
      | error fault => exact .untold isPath isFile
      | ok known =>
          dsimp only [mapError_ok]
          split
          · rename_i there
            obtain ⟨rfl, unforced⟩ : known = true ∧ fetch.force = false := by simpa using there
            exact .known isPath isFile unforced
          · rename_i notThere
            have wants : Wants before fetch path := by
              refine ⟨known, isFile, ?_⟩
              cases known <;> simp_all
            rw [carryOut_bind, carryOut_request]
            cases comesTo : outcome client fetch.url with
            | error fault => exact .undelivered isPath wants comesTo
            | ok body =>
                dsimp only
                rw [carryOut_bind, carryOut_store]
                rw [Transfer.requesting]
                dsimp only
                rcases keeping : carryOut before.files (FileTree.keeping path body) with ⟨result, files⟩
                cases result with
                | error fault => exact .unkept isPath wants comesTo keeping
                | ok _ => exact .kept isPath wants comesTo keeping

/-- The path before a name is the directory of the cache. -/
theorem exists_name_of_pathFor {url : String} {path : Path} (isPath : cache.pathFor url = .ok path) :
    ∃ name, path = cache.directory.child name := by
  unfold pathFor at isPath
  split at isPath
  · cases isPath
  · split at isPath
    · cases isPath
    · rename_i name _
      cases isPath
      exact ⟨name, rfl⟩

theorem fetched_of_step {result : Except FetchFault Path}
    (stepped : cache.step client before fetch = (result, after)) :
    Fetched cache client fetch before result after := by
  have ends := cache.fetched client before fetch
  rwa [stepped] at ends

section

variable {result : Except FetchFault Path} {path : Path}

theorem Wants.eq_true (wants : Wants before fetch path) :
    (fetch.force || (before.files.read? path).isNone) = true := by
  obtain ⟨known, isFile, asks⟩ := wants
  have isKnown := FileTree.isSome_read?_of_isFile isFile
  rwa [← isKnown, Option.not_isSome] at asks

/-- A fetch sends what the client sends for its URL if it is forced or there is no file, and otherwise
nothing; one that cannot tell because the path is too long sends nothing and changes nothing. -/
theorem Fetched.requested (ends : Fetched cache client fetch before result after)
    (isPath : cache.pathFor fetch.url = .ok path) :
    after.requested = before.requested
        ++ (if fetch.force || (before.files.read? path).isNone then (client fetch.url).sent else []) ∨
      path.TooLong ∧ result = .error (.file (.nameTooLong path.text)) ∧ after = before := by
  cases ends with
  | unnamed noPath =>
      rw [isPath] at noPath
      cases noPath
  | untold isPath' fails =>
      cases isPath.symm.trans isPath'
      obtain ⟨tooLong, rfl⟩ := FileTree.tooLong_of_isFile fails
      exact Or.inr ⟨tooLong, rfl, rfl⟩
  | known isPath' isFile unforced =>
      cases isPath.symm.trans isPath'
      have isKnown := FileTree.isSome_read?_of_isFile isFile
      left
      simp [unforced, ← Option.not_isSome, isKnown]
  | undelivered isPath' wants | unkept isPath' wants | kept isPath' wants =>
      cases isPath.symm.trans isPath'
      left
      rw [if_pos wants.eq_true]
      rfl

/-- A fetch that fails as a download leaves every file as it was. -/
theorem Fetched.files_of_download {fault : DownloadFault}
    (ends : Fetched cache client fetch before (.error (.download fault)) after) :
    after.files = before.files := by
  cases ends with
  | unnamed | undelivered => rfl

/-- A fetch leaves no file where a directory is. -/
theorem Fetched.plain (ends : Fetched cache client fetch before result after)
    (plain : before.files.Plain) : after.files.Plain := by
  cases ends with
  | unnamed | untold | known | undelivered => exact plain
  | unkept _ _ _ keeping => exact FileTree.plain_keeping keeping plain
  | kept _ _ _ keeping => exact FileTree.plain_keeping keeping plain

end

/-! ### Downloads -/

/-- The path of a URL and the body of the reply to it, if that tells of success. -/
def delivered? (cache : HeaderCache) (client : Client) (url : String) : Option (Path × List UInt8) :=
  match cache.pathFor url, (client url).answer with
  | .ok path, .body bytes => some (path, bytes)
  | _, _ => none

theorem delivered?_eq {url : String} {path : Path} (isPath : cache.pathFor url = .ok path) :
    cache.delivered? client url = (outcome client url).toOption.map (path, ·) := by
  unfold delivered? outcome
  rw [isPath]
  cases (client url).answer <;> rfl

/-- What a fetch downloads: what the reply delivers, if a request is sent. -/
def downloads (cache : HeaderCache) (client : Client) (before : Transfer) (fetch : Fetch) :
    List (Path × List UInt8) :=
  if (cache.step client before fetch).2.requested = before.requested then []
  else (cache.delivered? client fetch.url).toList

/-- The body that was downloaded last for a path. -/
def latest? (downloaded : List (Path × List UInt8)) (path : Path) : Option (List UInt8) :=
  downloaded.reverse.lookup path

theorem latest?_append_self (downloaded : List (Path × List UInt8)) (path : Path) (body : List UInt8) :
    latest? (downloaded ++ [(path, body)]) path = some body := by
  simp [latest?]

theorem latest?_append_of_ne {downloaded : List (Path × List UInt8)} {path other : Path} {body : List UInt8}
    (different : other ≠ path) :
    latest? (downloaded ++ [(path, body)]) other = latest? downloaded other := by
  have isOther : (other == path) = false := by simpa using different
  simp [latest?, List.lookup_cons, isOther]

/-- What the files of a cache hold, given the files at the start and what was downloaded since: no file is
where a directory is, and a file that there is, or comes to be, holds what was downloaded last for its path,
or what was there at the start. -/
structure Faithful (cache : HeaderCache) (start : FileTree) (downloaded : List (Path × List UInt8))
    (files : FileTree) : Prop where
  plain : files.Plain
  content : ∀ {name : String} {later : FileTree}, FileTree.Extends files later → later.Plain →
    later.isFile (cache.directory.child name) = .ok true →
    files.bytesAt? (cache.directory.child name).place
      = (latest? downloaded (cache.directory.child name)).or
        (start.bytesAt? (cache.directory.child name).place)

variable {transport : String → Reply} {start : FileTree} {downloaded : List (Path × List UInt8)}

theorem faithful_start (plain : start.Plain) : Faithful cache start [] start where
  plain
  content _ _ _ := rfl

/-- When a download is kept, the file holds it, and all others hold what they did. -/
theorem Faithful.kept {name : String} {body : List UInt8} {files changed : FileTree}
    (faithful : Faithful cache start downloaded files)
    (keeps : carryOut files (FileTree.keeping (cache.directory.child name) body) = (.ok (), changed)) :
    Faithful cache start (downloaded ++ [(cache.directory.child name, body)]) changed := by
  refine ⟨FileTree.plain_keeping keeps faithful.plain, ?_⟩
  obtain ⟨made, making, found, notDirectory, rfl⟩ := FileTree.making_of_keeping_ok keeps
  obtain ⟨_, trail, _⟩ := FileTree.locate_eq_ok_iff.mp found
  have grounded := FileTree.grounded_place trail
  intro other later within plain isFile
  rw [FileTree.bytesAt?_put]
  by_cases same : cache.directory.child other = cache.directory.child name
  · rw [same, if_pos rfl, latest?_append_self, Option.some_or]
  · obtain ⟨otherFound, hasBytes⟩ := FileTree.isFile_eq_true_iff.mp isFile
    have elsewhere :=
      FileTree.place_child_ne same otherFound (plain.not_directory hasBytes) found notDirectory
    have earlier := making.extends_.trans ((FileTree.extends_put grounded).trans within)
    rw [if_neg elsewhere, latest?_append_of_ne same, making.bytesAt?, faithful.content earlier plain isFile]

/-- When a download could not be kept, no file was there, and none will be. -/
theorem Faithful.unkept {name : String} {body : List UInt8} {fault : FileFault} {files made : FileTree}
    (faithful : Faithful cache start downloaded files)
    (fails : carryOut files (FileTree.keeping (cache.directory.child name) body) = (.error fault, made)) :
    Faithful cache start (downloaded ++ [(cache.directory.child name, body)]) made := by
  refine ⟨FileTree.plain_keeping fails faithful.plain, ?_⟩
  have making := FileTree.making_of_keeping_error fails
  intro other later within plain isFile
  have earlier := making.extends_.trans within
  by_cases same : cache.directory.child other = cache.directory.child name
  · -- A file that can be there later could have been kept now.
    rw [same] at isFile
    obtain ⟨_, keeps⟩ := FileTree.keeping_within body earlier plain isFile
    cases keeps.symm.trans fails
  · rw [latest?_append_of_ne same, making.bytesAt?, faithful.content earlier plain isFile]

/-- A URL that comes to a body is asked for. -/
theorem requested_ne_of_outcome {url : String} {body : List UInt8} (asks : client.Asks transport)
    (comesTo : outcome client url = .ok body) (before : Transfer) :
    (before.requesting (client url).sent).requested ≠ before.requested := by
  have sends := asks.sent_ne_nil (accepts_of_outcome comesTo)
  simpa [Transfer.requesting] using sends

/-- A fetch keeps the files faithful to what was downloaded. -/
theorem Faithful.step (asks : client.Asks transport)
    (faithful : Faithful cache start downloaded before.files) (fetch : Fetch) :
    Faithful cache start (downloaded ++ cache.downloads client before fetch)
      (cache.step client before fetch).2.files := by
  have ends := cache.fetched client before fetch
  unfold downloads
  generalize cache.step client before fetch = stepped at ends
  obtain ⟨result, after⟩ := stepped
  dsimp only at ends ⊢
  cases ends with
  | unnamed | untold | known =>
      rw [if_pos rfl, List.append_nil]
      exact faithful
  | undelivered isPath wants comesTo =>
      rw [delivered?_eq isPath, comesTo, Except.toOption, Option.map_none, Option.toList_none, ite_self,
        List.append_nil]
      exact faithful
  | unkept isPath wants comesTo keeping =>
      rw [if_neg (requested_ne_of_outcome asks comesTo before), delivered?_eq isPath, comesTo]
      obtain ⟨name, rfl⟩ := exists_name_of_pathFor isPath
      exact faithful.unkept keeping
  | kept isPath wants comesTo keeping =>
      rw [if_neg (requested_ne_of_outcome asks comesTo before), delivered?_eq isPath, comesTo]
      obtain ⟨name, rfl⟩ := exists_name_of_pathFor isPath
      exact faithful.kept keeping

/-! ### Runs of fetches -/

/-- What is left after fetches, one after another, however each of them ends. -/
def afterAll (cache : HeaderCache) (client : Client) (start : Transfer) (fetches : List Fetch) :
    Transfer :=
  fetches.foldl (fun transfer fetch => (cache.step client transfer fetch).2) start

/-- What fetches download, one after another. -/
def allDownloads (cache : HeaderCache) (client : Client) : Transfer → List Fetch →
    List (Path × List UInt8)
  | _, [] => []
  | before, fetch :: rest => cache.downloads client before fetch
      ++ cache.allDownloads client (cache.step client before fetch).2 rest

/-- Fetches keep the files faithful to what they download. -/
theorem Faithful.afterAll (asks : client.Asks transport)
    (faithful : Faithful cache start downloaded before.files) (fetches : List Fetch) :
    Faithful cache start (downloaded ++ cache.allDownloads client before fetches)
      (cache.afterAll client before fetches).files := by
  induction fetches generalizing before downloaded with
  | nil => simpa [HeaderCache.afterAll, allDownloads] using faithful
  | cons fetch rest ih =>
      rw [allDownloads, ← List.append_assoc]
      exact ih (faithful.step asks fetch)

/-- Fetches leave no file where a directory is. -/
theorem plain_afterAll (cache : HeaderCache) (client : Client) (plain : before.files.Plain)
    (fetches : List Fetch) : (cache.afterAll client before fetches).files.Plain := by
  induction fetches generalizing before with
  | nil => exact plain
  | cons fetch rest ih => exact ih ((cache.fetched client before fetch).plain plain)

/-- A fetch that returns answers the path of its URL, where there is a file then; no other file is
changed. -/
theorem Fetched.returned {returned : Path}
    (ends : Fetched cache client fetch before (.ok returned) after) :
    cache.pathFor fetch.url = .ok returned ∧ after.files.isFile returned = .ok true ∧
      ∀ place, place ≠ returned.place → after.files.bytesAt? place = before.files.bytesAt? place := by
  cases ends with
  | known isPath isFile unforced => exact ⟨isPath, isFile, fun _ _ => rfl⟩
  | @kept _ body files isPath wants comesTo keeping =>
      obtain ⟨made, making, found, notDirectory, rfl⟩ := FileTree.making_of_keeping_ok keeping
      obtain ⟨fits, trail, _⟩ := FileTree.locate_eq_ok_iff.mp found
      have within : FileTree.Extends made (made.put returned.place body) :=
        FileTree.extends_put (FileTree.grounded_place trail)
      refine ⟨isPath, ?_, ?_⟩
      · rw [FileTree.isFile_eq_true_iff, FileTree.locate_eq_ok_iff, FileTree.bytesAt?_put, if_pos rfl]
        exact ⟨⟨fits, fun on member => within.directory on (trail on member), rfl⟩, rfl⟩
      · intro place elsewhere
        rw [FileTree.bytesAt?_put, if_neg elsewhere, making.bytesAt?]

theorem afterAll_append (cache : HeaderCache) (client : Client) (start : Transfer)
    (history : List Fetch) (fetch : Fetch) :
    cache.afterAll client start (history ++ [fetch])
      = (cache.step client (cache.afterAll client start history) fetch).2 := by
  rw [HeaderCache.afterAll, List.foldl_append]
  rfl

/-- A cache in any run of fetches, through a client that asks a transport. Starting from files of which
none is where a directory is, and after any history: a fetch of a URL that the client takes, and that has
a path, sends exactly one request if it is forced or there is no file, and none otherwise, except that
with too long a path it may fail at once and change nothing; if it fails as a download, all files stay as
they were; and if it returns, it answers the path, where the file holds the body that was downloaded last
for the path, by whatever URL, or else what was there at the start, and all other files stay as they
were. -/
theorem fetch_contract {start : Transfer} {history : List Fetch} {fetch : Fetch} {path : Path}
    {result : Except FetchFault Path} {after : Transfer} (asks : client.Asks transport)
    (plain : start.files.Plain) (isPath : cache.pathFor fetch.url = .ok path)
    (accepted : client.Accepts fetch.url)
    (stepped : cache.step client (cache.afterAll client start history) fetch = (result, after)) :
    let before := cache.afterAll client start history
    (∃ sent, client fetch.url = ⟨[sent], (transport sent).report⟩ ∧
      (after.requested = before.requested
          ++ (if fetch.force || (before.files.read? path).isNone then [sent] else []) ∨
        path.TooLong ∧ result = .error (.file (.nameTooLong path.text)) ∧ after = before)) ∧
    (∀ fault, result = .error (.download fault) → after.files = before.files) ∧
    (∀ returned, result = .ok returned → returned = path ∧
      (∃ bytes, after.files.read? path = some bytes ∧
        (latest? (cache.allDownloads client start (history ++ [fetch])) path).or
          (start.files.bytesAt? path.place) = some bytes) ∧
      ∀ place, place ≠ path.place → after.files.bytesAt? place = before.files.bytesAt? place) := by
  intro before
  have ends := fetched_of_step stepped
  refine ⟨?_, ?_, ?_⟩
  · obtain ⟨sent, exchange⟩ := asks fetch.url accepted
    have requested := ends.requested isPath
    rw [exchange] at requested
    exact ⟨sent, exchange, requested⟩
  · rintro fault rfl
    exact ends.files_of_download
  · rintro returned rfl
    obtain ⟨isReturned, isFile, others⟩ := ends.returned
    cases isPath.symm.trans isReturned
    refine ⟨rfl, ?_, others⟩
    have faithful : Faithful cache start.files (cache.allDownloads client start (history ++ [fetch]))
        (cache.afterAll client start (history ++ [fetch])).files := by
      simpa using (faithful_start plain).afterAll asks (history ++ [fetch])
    rw [afterAll_append, stepped] at faithful
    obtain ⟨name, rfl⟩ := exists_name_of_pathFor isPath
    have content := faithful.content (.refl _) faithful.plain isFile
    obtain ⟨found, hasBytes⟩ := FileTree.isFile_eq_true_iff.mp isFile
    obtain ⟨bytes, isBytes⟩ := Option.isSome_iff_exists.mp hasBytes
    refine ⟨bytes, ?_, content.symm.trans isBytes⟩
    rw [FileTree.read?, found]
    exact isBytes

/-- A cache in the working directory. -/
def localCache : HeaderCache := ⟨⟨.workingDirectory, ["cache"]⟩, .whole 30⟩

/-- One header can be had from its second address, and nothing else from anywhere. -/
def secondAddress (url : String) : Reply :=
  if url = "http://g/a.h" then .answered 200 [2]
  else if url = "http://g/b.h" then .failed "refused"
  else .answered 404 []

/-- The header is there when it is asked for by its first address, a refused one changes nothing, and
after it was downloaded from its second address the first one leads to the new file, without a
request. -/
theorem fetch_contract_secondAddress :
    let client := Client.verbatim secondAddress
    ∃ after : Transfer, localCache.step client (localCache.afterAll client
      ⟨⟨[], [(⟨.above 0, ["cache", "a.h"]⟩, [1])]⟩, []⟩
      [⟨"http://h/a.h", false⟩, ⟨"http://g/b.h", false⟩, ⟨"http://g/a.h", true⟩])
        ⟨"http://h/a.h", false⟩
        = (.ok ⟨.workingDirectory, ["cache", "a.h"]⟩, after) ∧
    after.requested = ["http://g/b.h", "http://g/a.h"] ∧
    after.files.read? ⟨.workingDirectory, ["cache", "a.h"]⟩ = some [2] := by
  intro client
  have ran : localCache.afterAll client ⟨⟨[], [(⟨.above 0, ["cache", "a.h"]⟩, [1])]⟩, []⟩
      [⟨"http://h/a.h", false⟩, ⟨"http://g/b.h", false⟩, ⟨"http://g/a.h", true⟩]
        = ⟨⟨[], [(⟨.above 0, ["cache", "a.h"]⟩, [2])]⟩, ["http://g/b.h", "http://g/a.h"]⟩ := by
    decide +kernel
  have stepped : localCache.step client (localCache.afterAll client
      ⟨⟨[], [(⟨.above 0, ["cache", "a.h"]⟩, [1])]⟩, []⟩
      [⟨"http://h/a.h", false⟩, ⟨"http://g/b.h", false⟩, ⟨"http://g/a.h", true⟩])
        ⟨"http://h/a.h", false⟩
        = (.ok ⟨.workingDirectory, ["cache", "a.h"]⟩,
          ⟨⟨[], [(⟨.above 0, ["cache", "a.h"]⟩, [2])]⟩, ["http://g/b.h", "http://g/a.h"]⟩) := by
    rw [ran]
    rfl
  have isPath : localCache.pathFor (Fetch.mk "http://h/a.h" false).url
      = .ok ⟨.workingDirectory, ["cache", "a.h"]⟩ := rfl
  have returns := (fetch_contract (Client.asks_verbatim secondAddress) (by decide) isPath
    (Client.accepts_verbatim secondAddress _) stepped).2.2 _ rfl
  obtain ⟨bytes, holds, isLatest⟩ := returns.2.1
  refine ⟨_, stepped, rfl, ?_⟩
  rw [holds, ← isLatest]
  decide +kernel

/-! ### Names that are too long -/

/-- In a cache directory that is there, a fetch of a name that is too long fails at once: it sends no
request, even if it is forced, and changes nothing. -/
theorem step_of_longName {name : String}
    (isPath : cache.pathFor fetch.url = .ok (cache.directory.child name))
    (found : before.files.locate cache.directory = .ok cache.directory.place)
    (directory : before.files.isDirectoryAt cache.directory.place = true)
    (noZero : '\x00' ∉ (cache.directory.child name).text.toList)
    (long : name.utf8ByteSize > FileTree.longestName) :
    cache.step client before fetch
      = (.error (.file (.nameTooLong (cache.directory.child name).text)), before) := by
  have fails := FileTree.locate_child_of_long found directory noZero long
  unfold step HeaderCache.fetch
  rw [isPath]
  dsimp only
  rw [carryOut_bind, carryOut_get]
  dsimp only
  rw [carryOut_bind, carryOut_ofExcept, FileTree.isFile, FileTree.leadsTo, fails]
  rfl

/-- A URL without parameters, query and fragment is read part by part. -/
theorem ofString_ofList {text scheme rest authority path : List Char}
    (isScheme : Url.takeScheme (Url.significant text) = (scheme, rest))
    (isAuthority : Url.takeAuthority rest = (authority, path))
    (noFault : Url.authorityFault? authority = none)
    (mayHave : Url.schemesWithParameters.contains (String.ofList scheme) = true)
    (whole : path.takeWhile (fun c => c != '#' && c != '?') = path)
    (without : Url.withoutParameters path = path) :
    Url.ofString (String.ofList text)
      = .ok ⟨String.ofList scheme, String.ofList authority, String.ofList path⟩ := by
  unfold Url.ofString
  rw [String.toList_ofList, isScheme]
  dsimp only
  rw [isAuthority]
  dsimp only
  rw [noFault]
  dsimp only
  rw [whole, if_pos mayHave, without]

/-- A path of one name leads to a file of that name. -/
theorem fileName?_of_name {scheme authority : String} {path name : List Char} (named : name ≠ [])
    (decoded : PercentEncoding.decode path = path)
    (isName : (Text.splitAtMark '/' path).filter Path.isPart = [name]) :
    Url.fileName? ⟨scheme, authority, String.ofList path⟩ = some (String.ofList name) := by
  have nonempty : ¬ (String.ofList name).isEmpty = true := by
    intro empty
    have noName := congrArg String.toList (String.isEmpty_iff.mp empty)
    rw [String.toList_ofList] at noName
    exact named noName
  unfold Url.fileName? Url.decodedPath Path.ofString Path.ofChars
  dsimp only
  rw [String.toList_ofList, String.toList_ofList, decoded, isName, List.map_singleton]
  exact if_neg nonempty

theorem pathFor_of_fileName {url name : String} {parts : Url} (isUrl : Url.ofString url = .ok parts)
    (named : parts.fileName? = some name) : cache.pathFor url = .ok (cache.directory.child name) := by
  rw [pathFor, isUrl]
  dsimp only
  rw [named]

/-- A name of 256 letters. -/
def longName : List Char := List.replicate 256 'a'

/-- The address of a file with a long name. -/
def longAddress : List Char := "http://h/".toList ++ longName

theorem utf8ByteSize_replicate (count : Nat) :
    (String.ofList (List.replicate count 'a')).utf8ByteSize = count := by
  induction count with
  | zero => rfl
  | succ count ih =>
      have letter : (String.singleton 'a').utf8ByteSize = 1 := rfl
      rw [List.replicate_succ, String.ofList_cons, String.utf8ByteSize_append, ih, letter, Nat.add_comm]

theorem pathFor_longAddress : localCache.pathFor (String.ofList longAddress)
    = .ok (localCache.directory.child (String.ofList longName)) := by
  have scheme : Url.takeScheme (Url.significant longAddress)
      = ("http".toList, "//h/".toList ++ longName) := by
    decide +kernel
  have authority : Url.takeAuthority ("//h/".toList ++ longName) = (['h'], '/' :: longName) := by
    decide +kernel
  have whole : ('/' :: longName).takeWhile (fun c => c != '#' && c != '?') = '/' :: longName := by
    decide +kernel
  have without : Url.withoutParameters ('/' :: longName) = '/' :: longName := by decide +kernel
  have decoded : PercentEncoding.decode ('/' :: longName) = '/' :: longName := by decide +kernel
  have isName : (Text.splitAtMark '/' ('/' :: longName)).filter Path.isPart = [longName] := by
    decide +kernel
  exact pathFor_of_fileName (ofString_ofList scheme authority (by decide) (by decide) whole without)
    (fileName?_of_name (List.cons_ne_nil _ _) decoded isName)

theorem text_child_localCache (name : String) :
    (localCache.directory.child name).text = "cache/" ++ name := by
  simp [Path.text, Path.child, localCache, Anchor.text, String.intercalate_cons_cons,
    String.intercalate_singleton]

/-- A cache directory with a file. -/
def oneFile : Transfer := ⟨⟨[], [(⟨.above 0, ["cache", "old.h"]⟩, [1])]⟩, []⟩

/-- The file of a long name, asked for in a directory with another file, is not there, and yet no request
is sent. -/
theorem step_longName : oneFile.files.Plain ∧
    localCache.pathFor (String.ofList longAddress)
      = .ok (localCache.directory.child (String.ofList longName)) ∧
    String.ofList longName ≠ ".." ∧ '\x00' ∉ (String.ofList longName).toList ∧
    oneFile.files.read? (localCache.directory.child (String.ofList longName)) = none ∧
    ∃ transport, (Client.verbatim transport).Asks transport ∧
      (Client.verbatim transport).Accepts (String.ofList longAddress) ∧
      ∀ sent, (localCache.step (Client.verbatim transport) oneFile
        ⟨String.ofList longAddress, false⟩).2.requested ≠ oneFile.requested ++ [sent] := by
  have size : (String.ofList longName).utf8ByteSize = 256 := utf8ByteSize_replicate 256
  have long : (String.ofList longName).utf8ByteSize > FileTree.longestName := by
    rw [size]
    decide
  have notUp : String.ofList longName ≠ ".." := by
    intro same
    have sizeUp : "..".utf8ByteSize = 2 := rfl
    rw [same, sizeUp] at size
    cases size
  have noZero : '\x00' ∉ (String.ofList longName).toList := by
    rw [String.toList_ofList]
    decide +kernel
  have noZeroInText : '\x00' ∉ (localCache.directory.child (String.ofList longName)).text.toList := by
    rw [text_child_localCache, String.toList_append, List.mem_append, not_or]
    exact ⟨by decide, noZero⟩
  have missing : oneFile.files.read? (localCache.directory.child (String.ofList longName)) = none := by
    rw [FileTree.read?, FileTree.locate_child_of_long rfl rfl noZeroInText long]
    rfl
  let transport : String → Reply := fun _ => .answered 200 [2]
  have stepped : localCache.step (Client.verbatim transport) oneFile ⟨String.ofList longAddress, false⟩
      = (_, oneFile) :=
    step_of_longName pathFor_longAddress rfl rfl noZeroInText long
  refine ⟨by decide, pathFor_longAddress, notUp, noZero, missing, transport,
    Client.asks_verbatim transport, Client.accepts_verbatim transport _, fun sent => ?_⟩
  rw [stepped]
  simp

end HeaderCache

end HeaderBindings
