/-
Module: HeaderBindings.Download.PercentEncoding
Purpose: Bytes in a URL as percent signs with two hexadecimal digits.
Main exports: PercentEncoding.decode
-/
import HeaderBindings.Download.HostAddress
import HeaderBindings.Text.Utf8

namespace HeaderBindings.PercentEncoding

open Text

/-- The value of a hexadecimal digit. -/
def hexValue? (c : Char) : Option Nat :=
  if c.isDigit then some (c.toNat - 48)
  else if !HostAddress.isHexDigit c then none
  else if c.isLower then some (c.toNat - 87)
  else some (c.toNat - 55)

/-- The bytes of ASCII text, in which a percent sign and two hexadecimal digits are one byte. -/
def unescape : List Char → List UInt8
  | '%' :: high :: low :: rest =>
      match hexValue? high, hexValue? low with
      | some upper, some lower => UInt8.ofNat (16 * upper + lower) :: unescape rest
      | _, _ => UInt8.ofNat '%'.toNat :: unescape (high :: low :: rest)
  | c :: rest => UInt8.ofNat c.toNat :: unescape rest
  | [] => []

/-- A text in which escaped bytes are read as UTF-8, given the ASCII characters just before it, last
one first. A character beyond ASCII ends a sequence of bytes. -/
def decodeFrom (ascii : List Char) : List Char → List Char
  | [] => decodeUtf8From ['\uFFFD'] none (unescape ascii.reverse)
  | c :: rest =>
      if c.toNat < 128 then decodeFrom (c :: ascii) rest
      else decodeUtf8From ['\uFFFD'] none (unescape ascii.reverse) ++ c :: decodeFrom [] rest

/-- A text in which escaped bytes are read as UTF-8. -/
def decode (text : List Char) : List Char := decodeFrom [] text

end HeaderBindings.PercentEncoding
