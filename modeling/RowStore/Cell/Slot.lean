/- RowStore/Cell/Slot
   role: definitions
   digest: How values are laid down in the fixed-width slots of a row and read back. -/

import RowStore.Cell.Value

set_option autoImplicit false
set_option relaxedAutoImplicit false

namespace RowStore.Cell.Slot

open RowStore.Number (Binary32)
open RowStore.Text (Bytes)

/-- The four bytes of a word, least significant first. -/
def bytesOfWord (word : UInt32) : Bytes :=
  [word.toUInt8, (word >>> 8).toUInt8, (word >>> 16).toUInt8, (word >>> 24).toUInt8]

def wordOfBytes (b₀ b₁ b₂ b₃ : UInt8) : UInt32 :=
  UInt32.ofNat (b₀.toNat + 0x100 * b₁.toNat + 0x10000 * b₂.toNat + 0x1000000 * b₃.toNat)

def word (slot : Bytes) : Except CellFault UInt32 :=
  match slot with
  | [b₀, b₁, b₂, b₃] => .ok (wordOfBytes b₀ b₁ b₂ b₃)
  | slot => .error (.slotWidth 4 slot.length)

def decode (type : CellType) (slot : Bytes) : Except CellFault Value :=
  match type with
  | .int => (word slot).map fun w => .int w.toInt32
  | .float => (word slot).map fun w => .float ⟨w⟩
  | .chars => .ok (.chars (Bytes.content slot))

/-- A byte string cut or padded to a slot: shorter ones are filled up with zero bytes, others keep
what leaves room for one zero byte. -/
def fitChars (bytes : Bytes) (width : Nat) : Bytes :=
  let kept := bytes.take (width - 1)
  kept ++ List.replicate (width - kept.length) 0

def fitWord (w : UInt32) (width : Nat) : Except CellFault Bytes :=
  if width = 4 then .ok (bytesOfWord w) else .error (.slotWidth 4 width)

/-- The bytes that a value leaves in a slot of the given type and width. The value must have the
slot's type. -/
def encode (type : CellType) (value : Value) (width : Nat) : Except CellFault Bytes :=
  match type, value with
  | .int, .int n => fitWord n.toUInt32 width
  | .float, .float x => fitWord x.bits width
  | .chars, .chars bytes => .ok (fitChars bytes width)
  | type, value => .error (.typeMismatch type value.type)

end RowStore.Cell.Slot
