/-
Module: HeaderBindings.Text.Utf8
Purpose: Reading bytes as UTF-8 text, with a choice of what stands for an ill-formed sequence.
Main exports: Text.decodeUtf8From, Text.decodeDropping, Text.decodeReplacing
-/

namespace HeaderBindings.Text

/-- A sequence under way: the number read so far, how many bytes are missing, and the closed range
that the next byte must lie in. -/
structure Pending where
  value : Nat
  missing : Nat
  low : Nat
  high : Nat
deriving Repr, DecidableEq

/-- The sequence that a byte opens. The range of the second byte leaves out overlong forms,
surrogates and numbers beyond the last character. -/
def Pending.ofLead? (lead : Nat) : Option Pending :=
  if 0xC2 ≤ lead && lead ≤ 0xDF then some ⟨lead % 32, 1, 0x80, 0xBF⟩
  else if lead == 0xE0 then some ⟨0, 2, 0xA0, 0xBF⟩
  else if lead == 0xED then some ⟨lead % 16, 2, 0x80, 0x9F⟩
  else if 0xE1 ≤ lead && lead ≤ 0xEF then some ⟨lead % 16, 2, 0x80, 0xBF⟩
  else if lead == 0xF0 then some ⟨0, 3, 0x90, 0xBF⟩
  else if 0xF1 ≤ lead && lead ≤ 0xF3 then some ⟨lead % 8, 3, 0x80, 0xBF⟩
  else if lead == 0xF4 then some ⟨lead % 8, 3, 0x80, 0x8F⟩
  else none

/-- What a byte outside any sequence adds to the text, and the sequence that it opens. -/
def openSequence (bad : List Char) (byte : Nat) : List Char × Option Pending :=
  if byte < 0x80 then ([Char.ofNat byte], none)
  else match Pending.ofLead? byte with
    | some pending => ([], some pending)
    | none => (bad, none)

/-- What a byte adds to the text, and the sequence under way after it. A byte that cannot continue
the sequence under way ends it as ill-formed and is read again as a first byte. -/
def decodeByte (bad : List Char) (byte : Nat) : Option Pending → List Char × Option Pending
  | none => openSequence bad byte
  | some pending =>
      if pending.low ≤ byte && byte ≤ pending.high then
        let value := pending.value * 64 + byte % 64
        if pending.missing ≤ 1 then ([Char.ofNat value], none)
        else ([], some ⟨value, pending.missing - 1, 0x80, 0xBF⟩)
      else
        let next := openSequence bad byte
        (bad ++ next.1, next.2)

/-- Read bytes as UTF-8 after a sequence under way; `bad` stands for each ill-formed sequence. -/
def decodeUtf8From (bad : List Char) : Option Pending → List UInt8 → List Char
  | none, [] => []
  | some _, [] => bad
  | pending, byte :: rest =>
      let next := decodeByte bad byte.toNat pending
      next.1 ++ decodeUtf8From bad next.2 rest

/-- Bytes as text; what is not well-formed is dropped. -/
def decodeDropping (bytes : List UInt8) : String :=
  String.ofList (decodeUtf8From [] none bytes)

/-- Bytes as text; the replacement character stands for each ill-formed sequence. -/
def decodeReplacing (bytes : List UInt8) : String :=
  String.ofList (decodeUtf8From ['\uFFFD'] none bytes)

end HeaderBindings.Text
