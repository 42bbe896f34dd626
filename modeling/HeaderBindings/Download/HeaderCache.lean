/-
Module: HeaderBindings.Download.HeaderCache
Purpose: Headers downloaded into a directory, each once unless it is asked for again.
Main exports: Timeout, HeaderCache, Exchange, Client, DownloadFault, FetchFault, HeaderCache.ofSettings,
  HeaderCache.pathFor, HeaderCache.fetch
-/
import HeaderBindings.Download.Url
import HeaderBindings.Files.FileTree
import HeaderBindings.Settings

namespace HeaderBindings

/-- The seconds that a download may take: a whole number, or the number of the settings. -/
inductive Timeout where
  | whole (seconds : Int)
  | measured (seconds : Number.Binary64)
deriving Repr, DecidableEq

/-- A timeout in decimal. -/
def Timeout.text : Timeout → String
  | whole seconds => toString seconds
  | measured seconds => Number.writeDecimal seconds

/-- Where downloads are kept, and how long one may take. -/
structure HeaderCache where
  directory : Path
  timeout : Timeout
deriving Repr, DecidableEq

/-- A fault of a client other than a request that failed, such as a URL that it does not take: its kind
and its text. -/
structure ClientFault where
  kind : String
  message : String
deriving Repr, DecidableEq

/-- How a client answers: with the body of a reply that tells of success, with the status of another one,
or with the reason why there is none; or it breaks off with a fault. -/
inductive ClientAnswer where
  | body (bytes : List UInt8)
  | refused (status : Int)
  | failed (reason : String)
  | brokenOff (fault : ClientFault)
deriving Repr, DecidableEq

/-- What a client does for a URL: the requests that it sends, as the URLs in them, and its answer. -/
structure Exchange where
  sent : List String
  answer : ClientAnswer
deriving Repr, DecidableEq

/-- A client that can be asked for URLs. Which of them it takes, what it sends for them, and what comes
back is not known here. -/
abbrev Client := String → Exchange

/-- Why a header cannot be had. -/
inductive DownloadFault where
  | noFileName (url : String)
  | refused (status : Int) (url : String)
  | failed (reason : String)
deriving Repr, DecidableEq

/-- The report of a fault. -/
def DownloadFault.message : DownloadFault → String
  | noFileName url => "Cannot derive a file name from URL: " ++ url
  | refused status url => "HTTP " ++ toString status ++ ": " ++ url
  | failed reason => "Request failed: " ++ reason

/-- Why a fetch ends without a file. -/
inductive FetchFault where
  | download (fault : DownloadFault)
  | url (fault : UrlFault)
  | client (fault : ClientFault)
  | file (fault : FileFault)
deriving Repr, DecidableEq

/-- The report of a fault. -/
def FetchFault.message : FetchFault → String
  | download fault => fault.message
  | url fault => fault.message
  | client fault => fault.message
  | file fault => fault.message

/-- The files, and the URLs that were requested, in order. -/
structure Transfer where
  files : FileTree
  requested : List String
deriving Repr, DecidableEq

/-- A fetch; what it did before a fault stays done. -/
abbrev FetchRun := ExceptT FetchFault (StateM Transfer)

namespace HeaderCache

/-- The cache in a directory, or in the one of the settings if none is named. -/
def ofSettings (settings : Settings) (homes : Homes) (directory : String)
    (timeout : Option Timeout) : Except HomeFault HeaderCache :=
  let named := if directory.isEmpty then settings.cacheDirectory else directory
  ((Path.ofString named).expandHome homes).map fun directory =>
    ⟨directory, timeout.getD (.measured settings.fetchTimeout)⟩

/-- Where the header of a URL is kept. -/
def pathFor (cache : HeaderCache) (url : String) : Except FetchFault Path :=
  match Url.ofString url with
  | .error fault => .error (.url fault)
  | .ok parts => match parts.fileName? with
    | none => .error (.download (.noFileName url))
    | some name => .ok (cache.directory.child name)

/-- Keep bytes as a file, in a directory that is made if it is missing. -/
def store (path : Path) (bytes : List UInt8) : FetchRun Unit := do
  let transfer ← get
  let (result, files) := transfer.files.apply do
    FileChange.makeDirectories path.parent
    FileChange.write path bytes
  set { transfer with files }
  MonadExcept.ofExcept (result.mapError FetchFault.file)

/-- Ask a client for a URL; return the body of a reply that tells of success. -/
def request (client : Client) (url : String) : FetchRun (List UInt8) := do
  let exchange := client url
  modify fun transfer => { transfer with requested := transfer.requested ++ exchange.sent }
  match exchange.answer with
  | .body bytes => return bytes
  | .refused status => throw (.download (.refused status url))
  | .failed reason => throw (.download (.failed reason))
  | .brokenOff fault => throw (.client fault)

/-- The file of a URL's header, downloaded unless it is there already; `force` downloads it anyway. -/
def fetch (cache : HeaderCache) (client : Client) (url : String) (force : Bool) :
    FetchRun Path := do
  match cache.pathFor url with
  | .error fault => throw fault
  | .ok path =>
      let known ← MonadExcept.ofExcept (((← get).files.isFile path).mapError FetchFault.file)
      if known && !force then return path
      let body ← request client url
      store path body
      return path

end HeaderCache

end HeaderBindings
