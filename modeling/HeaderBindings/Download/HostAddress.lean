/-
Module: HeaderBindings.Download.HostAddress
Purpose: Which texts are numeric addresses of hosts.
Main exports: HostAddress.isVersion4, HostAddress.isVersion6, HostAddress.isFuture
-/
import HeaderBindings.Text.Blank

namespace HeaderBindings.HostAddress

open Text

/-- Whether a character is a hexadecimal digit. -/
def isHexDigit (c : Char) : Bool :=
  c.isDigit || ('a'.toNat ≤ c.toNat && c.toNat ≤ 'f'.toNat)
    || ('A'.toNat ≤ c.toNat && c.toNat ≤ 'F'.toNat)

/-- The number that digits spell. -/
def octetValue (digits : List Char) : Nat :=
  digits.foldl (fun value c => value * 10 + (c.toNat - 48)) 0

/-- Whether a text is a part of an address of version 4: a number up to 255, without leading zeros. -/
def isOctet (part : List Char) : Bool :=
  !part.isEmpty && part.length ≤ 3 && part.all Char.isDigit
    && (part.length == 1 || part.head? != some '0') && octetValue part ≤ 255

/-- Whether a text is an address of version 4: four numbers with dots between them. -/
def isVersion4 (text : List Char) : Bool :=
  let parts := splitAtMark '.' text
  parts.length == 4 && parts.all isOctet

/-- Whether a text is a part of an address of version 6: up to four hexadecimal digits. -/
def isHextet (part : List Char) : Bool :=
  !part.isEmpty && part.length ≤ 4 && part.all isHexDigit

/-- The parts of an address of version 6. An address of version 4 at the end counts as two parts. -/
def hextets (text : List Char) : List (List Char) :=
  let parts := splitAtMark ':' text
  match parts.getLast? with
  | some last =>
      if last.contains '.' && isVersion4 last then parts.dropLast ++ [['0'], ['0']] else parts
  | none => parts

/-- The parts on one side of the gap that two colons leave; one empty part is none. -/
def besideGap (parts : List (List Char)) : List (List Char) :=
  if parts == [[]] then [] else parts

/-- Whether parts with colons between them are an address of version 6: eight parts, or fewer with
one gap. -/
def areHextets (parts : List (List Char)) : Bool :=
  if parts.length == 8 && parts.all isHextet then true
  else match (parts.drop 1).findIdx? List.isEmpty with
    | none => false
    | some index =>
        let before := besideGap (parts.take (index + 1))
        let after := besideGap (parts.drop (index + 2))
        parts.length > index + 2 && before.all isHextet && after.all isHextet
          && before.length + after.length ≤ 7

/-- Whether a text is an address of version 6. A zone may follow it after a percent sign. -/
def isVersion6 (text : List Char) : Bool :=
  let zone := text.dropWhile (· != '%')
  let zoneAllowed := match zone with
    | [] => true
    | _ :: name => !name.isEmpty && !name.contains '%'
  let parts := hextets (text.takeWhile (· != '%'))
  zoneAllowed && parts.length ≥ 3 && areHextets parts

/-- Whether a text that begins with the letter of future versions is such an address: hexadecimal
digits, a dot, and something. -/
def isFuture (text : List Char) : Bool :=
  let version := (text.drop 1).takeWhile isHexDigit
  match (text.drop 1).dropWhile isHexDigit with
  | '.' :: _ :: _ => !version.isEmpty
  | _ => false

end HeaderBindings.HostAddress
