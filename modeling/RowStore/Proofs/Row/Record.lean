/- RowStore/Proofs/Row/Record
   role: theorems
   digest: Fields written in place, and rows replaced, keep the length of the row. -/

import RowStore.Engine.Statement
import RowStore.Proofs.Fault

set_option autoImplicit false
set_option relaxedAutoImplicit false

namespace RowStore

open RowStore.Cell (CellType Value)
open RowStore.Row (Record setCell)
open RowStore.Schema (Layout RowField)
open RowStore.Text (Bytes)

namespace Cell.Slot

theorem length_fitWord {w : UInt32} {width : Nat} {slot : Bytes}
    (fits : fitWord w width = .ok slot) : slot.length = width := by
  simp only [fitWord] at fits
  split at fits
  case isTrue four =>
    cases fits
    exact four.symm
  case isFalse => cases fits

theorem length_fitChars (bytes : Bytes) (width : Nat) : (fitChars bytes width).length = width := by
  simp only [fitChars]
  rw [List.length_append, List.length_replicate, List.length_take]
  omega

theorem length_encode {type : CellType} {value : Value} {width : Nat} {slot : Bytes}
    (encoded : encode type value width = .ok slot) : slot.length = width := by
  simp only [encode] at encoded
  split at encoded
  · exact length_fitWord encoded
  · exact length_fitWord encoded
  · cases encoded
    exact length_fitChars _ width
  · cases encoded

end Cell.Slot

namespace Row

theorem length_splice {bytes slot : Bytes} {offset : Nat}
    (inside : offset + slot.length ≤ bytes.length) :
    (Bytes.splice bytes offset slot).length = bytes.length := by
  unfold Bytes.splice
  rw [List.length_append, List.length_append, List.length_take, List.length_drop]
  omega

theorem length_slot {field : RowField} {data cut : Bytes} (found : slot field data = .ok cut) :
    cut.length = field.width ∧ field.offset + field.width ≤ data.length := by
  simp only [slot] at found
  split at found
  case isTrue inside =>
    cases found
    have inside : field.offset + field.width ≤ data.length := inside
    refine ⟨?_, inside⟩
    rw [List.length_take, List.length_drop]
    omega
  case isFalse => cases found

theorem length_setCell {field : RowField} {value : Value} {data data' : Bytes}
    (written : setCell field value data = .ok data') : data'.length = data.length := by
  obtain ⟨old, found, rest⟩ := exists_of_bind_eq_ok written
  obtain ⟨new, encoded, spliced⟩ := exists_of_bind_eq_ok rest
  obtain ⟨width, inside⟩ := length_slot found
  cases spliced
  have full := Cell.Slot.length_encode (ofCell_eq_ok_iff.1 encoded)
  apply length_splice
  omega

end Row

namespace Target

theorem length_write {layout : Layout} {old : Record} {targets : List Target}
    {fields : List RowField} {data data' : Bytes}
    (written : write layout old targets fields data = .ok data') :
    data'.length = data.length := by
  induction targets generalizing fields data with
  | nil =>
    cases written
    rfl
  | cons target targets ih =>
    cases fields with
    | nil =>
      cases written
      rfl
    | cons field fields =>
      obtain ⟨value, -, rest⟩ := exists_of_bind_eq_ok written
      obtain ⟨first, set, later⟩ := exists_of_bind_eq_ok rest
      rw [ih later, Row.length_setCell set]

theorem length_replacement {layout : Layout} {targets : List Target} {fields : List RowField}
    {old : Record} {data : Bytes} (replaced : replacement layout targets fields old = .ok data) :
    data.length = old.data.length :=
  length_write replaced

end Target

end RowStore
