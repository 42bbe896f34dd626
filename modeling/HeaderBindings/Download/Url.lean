/-
Module: HeaderBindings.Download.Url
Purpose: The parts of a URL, and the name of the file that it leads to.
Main exports: Url, UrlFault, Url.ofString, Url.fileName?
-/
import HeaderBindings.Download.PercentEncoding
import HeaderBindings.Files.Path
import HeaderBindings.Text.Quoted

namespace HeaderBindings

open Text

/-- The parts of a URL that lead to a file. The path is as it was written. -/
structure Url where
  scheme : String
  authority : String
  path : String
deriving Repr, DecidableEq

/-- Why a text is no URL. -/
inductive UrlFault where
  | misplacedBrackets
  | notAnAddress (host : String)
  | bracketedVersion4
  | badFutureAddress
  | hiddenSeparator (authority : String)
deriving Repr, DecidableEq

/-- The report of a fault. -/
def UrlFault.message : UrlFault → String
  | misplacedBrackets => "Invalid IPv6 URL"
  | notAnAddress host => quote host ++ " does not appear to be an IPv4 or IPv6 address"
  | bracketedVersion4 => "An IPv4 address cannot be in brackets"
  | badFutureAddress => "IPvFuture address is invalid"
  | hiddenSeparator authority =>
      "netloc '" ++ authority ++ "' contains invalid characters under NFKC normalization"

namespace Url

/-! ### Scheme -/

/-- The characters that count in a URL: not controls and spaces at its beginning, and no tabs and
line breaks anywhere. -/
def significant (text : List Char) : List Char :=
  (text.dropWhile (·.toNat ≤ 32)).filter fun c => !(['\t', '\r', '\n'].contains c)

/-- Whether a character may be in a scheme. -/
def isSchemeChar (c : Char) : Bool := c.isAlphanum || ['+', '-', '.'].contains c

/-- Take the scheme off a URL, if it begins with one. -/
def takeScheme (text : List Char) : List Char × List Char :=
  let scheme := text.takeWhile (· != ':')
  match text.dropWhile (· != ':') with
  | [] => ([], text)
  | _ :: rest =>
      if scheme.head?.any Char.isAlpha && scheme.all isSchemeChar then
        (scheme.map Char.toLower, rest)
      else ([], text)

/-! ### Authority -/

/-- Whether a character ends an authority. -/
def endsAuthority (c : Char) : Bool := ['/', '?', '#'].contains c

/-- Take the authority, which two slashes announce, off the rest of a URL. -/
def takeAuthority : List Char → List Char × List Char
  | '/' :: '/' :: rest =>
      (rest.takeWhile fun c => !endsAuthority c, rest.dropWhile fun c => !endsAuthority c)
  | text => ([], text)

/-- Characters other than ASCII that stand for text with a slash, a question mark, a number sign, an
at sign or a colon in it. -/
def hiddenSeparators : List Nat :=
  [0x2047, 0x2048, 0x2049, 0x2100, 0x2101, 0x2105, 0x2106, 0x2A74, 0xFE13, 0xFE16, 0xFE55, 0xFE56,
   0xFE5F, 0xFE6B, 0xFF03, 0xFF0F, 0xFF1A, 0xFF1F, 0xFF20]

/-- What is wrong with a host in brackets, if anything. -/
def hostFault? (host : List Char) : Option UrlFault :=
  if host.head? == some 'v' then
    if HostAddress.isFuture host then none else some .badFutureAddress
  else if HostAddress.isVersion4 host then some .bracketedVersion4
  else if HostAddress.isVersion6 host then none
  else some (.notAnAddress (String.ofList host))

/-- What is wrong with the part of an authority after its last at sign, if anything, given that the
authority has brackets. Nothing may stand before the brackets around a host, and only a port after
them; without brackets, the host ends at the first colon. -/
def bracketFault? (hostAndPort : List Char) : Option UrlFault :=
  match hostAndPort.dropWhile (· != '[') with
  | [] => hostFault? (hostAndPort.takeWhile (· != ':'))
  | _ :: inside =>
      let after := (inside.dropWhile (· != ']')).drop 1
      if hostAndPort.head? != some '[' || !(after.isEmpty || after.head? == some ':') then
        some .misplacedBrackets
      else hostFault? (inside.takeWhile (· != ']'))

/-- What is wrong with an authority, if anything. -/
def authorityFault? (authority : List Char) : Option UrlFault :=
  let opened := authority.contains '['
  let closed := authority.contains ']'
  let brackets :=
    if opened != closed then some .misplacedBrackets
    else if opened then bracketFault? (authority.reverse.takeWhile (· != '@')).reverse
    else none
  brackets.or <|
    if authority.any fun c => hiddenSeparators.contains c.toNat then
      some (.hiddenSeparator (String.ofList authority))
    else none

/-! ### Path -/

/-- The schemes whose paths may end in parameters; a URL without scheme is one of them. -/
def schemesWithParameters : List String :=
  ["", "ftp", "hdl", "prospero", "http", "imap", "https", "shttp", "rtsp", "rtspu", "sip", "sips",
   "mms", "sftp", "tel"]

/-- A path without the parameters of its last part, which follow a semicolon. -/
def withoutParameters (path : List Char) : List Char :=
  let last := (path.reverse.takeWhile (· != '/')).reverse
  path.take (path.length - last.length) ++ last.takeWhile (· != ';')

/-- The URL that a text spells. -/
def ofString (text : String) : Except UrlFault Url :=
  let (scheme, rest) := takeScheme (significant text.toList)
  let (authority, rest) := takeAuthority rest
  match authorityFault? authority with
  | some fault => .error fault
  | none =>
      let path := rest.takeWhile fun c => c != '#' && c != '?'
      let scheme := String.ofList scheme
      let path := if schemesWithParameters.contains scheme then withoutParameters path else path
      .ok ⟨scheme, String.ofList authority, String.ofList path⟩

/-! ### File name -/

/-- The path of a URL with its escaped bytes read. -/
def decodedPath (url : Url) : String :=
  String.ofList (PercentEncoding.decode url.path.toList)

/-- The name of the file that a URL leads to, if there is one. -/
def fileName? (url : Url) : Option String :=
  let name := (Path.ofString url.decodedPath).name
  if name.isEmpty then none else some name

end Url

end HeaderBindings
