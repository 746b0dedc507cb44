/- RowStore/Text/Utf8
   role: definitions
   digest: UTF-8 decoding of byte strings, strict or with one replacement per malformed piece. -/

import RowStore.Text.Bytes

/-!
A byte string splits into well-formed characters and malformed pieces. A malformed piece is the
longest start of a well-formed character that the next byte breaks off, or a single byte that
starts none. Strict decoding needs a string without malformed pieces; lossy decoding writes one
replacement character for each.
-/

set_option autoImplicit false
set_option relaxedAutoImplicit false

namespace RowStore.Text.Utf8

inductive Piece
  | char (c : Char)
  | malformed
  deriving DecidableEq, Repr

/-- A character begun: its value so far, the bounds of the byte that must come next, and how many
more continuation bytes follow that one. -/
structure Pending where
  value : Nat
  low : UInt8
  high : UInt8
  more : Nat
  deriving DecidableEq, Repr

/-- What a byte starts when no character is pending. The bounds of the second byte exclude
overlong forms, surrogates and values above the last code point. -/
def start (b : UInt8) : Piece ⊕ Pending :=
  if b < 0x80 then .inl (.char (Char.ofNat b.toNat))
  else if b < 0xc2 then .inl .malformed
  else if b < 0xe0 then .inr ⟨b.toNat % 32, 0x80, 0xbf, 0⟩
  else if b = 0xe0 then .inr ⟨b.toNat % 16, 0xa0, 0xbf, 1⟩
  else if b = 0xed then .inr ⟨b.toNat % 16, 0x80, 0x9f, 1⟩
  else if b < 0xf0 then .inr ⟨b.toNat % 16, 0x80, 0xbf, 1⟩
  else if b = 0xf0 then .inr ⟨b.toNat % 8, 0x90, 0xbf, 2⟩
  else if b < 0xf4 then .inr ⟨b.toNat % 8, 0x80, 0xbf, 2⟩
  else if b = 0xf4 then .inr ⟨b.toNat % 8, 0x80, 0x8f, 2⟩
  else .inl .malformed

/-- The pieces of a byte string that follows a pending character, in order. -/
def scan : Option Pending → Bytes → List Piece
  | none, [] => []
  | some _, [] => [.malformed]
  | none, b :: rest =>
    match start b with
    | .inl piece => piece :: scan none rest
    | .inr begun => scan (some begun) rest
  | some pending, b :: rest =>
    if pending.low ≤ b ∧ b ≤ pending.high then
      let value := pending.value * 64 + b.toNat % 64
      if pending.more = 0 then .char (Char.ofNat value) :: scan none rest
      else scan (some ⟨value, 0x80, 0xbf, pending.more - 1⟩) rest
    else
      match start b with
      | .inl piece => .malformed :: piece :: scan none rest
      | .inr begun => .malformed :: scan (some begun) rest

def decode? (bytes : Bytes) : Option (List Char) :=
  (scan none bytes).mapM fun piece =>
    match piece with
    | .char c => some c
    | .malformed => none

/-- The characters of a byte string, with a replacement character for each malformed piece. -/
def decodeLossy (bytes : Bytes) : List Char :=
  (scan none bytes).map fun piece =>
    match piece with
    | .char c => c
    | .malformed => '\uFFFD'

def encode (text : String) : Bytes := text.toUTF8.toList

end RowStore.Text.Utf8
