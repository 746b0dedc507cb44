/- RowStore/Proofs/Row/Canonical
   role: theorems
   digest: Which byte strings leave a canonical slot, and which slots survive being read and rewritten. -/

import RowStore.Proofs.Engine.Targets
import RowStore.Proofs.Text.Content

/-!
A canonical slot consists of content without a zero byte and of zero bytes behind it, up to the end of
the slot. It is the slot that its own content is laid down as, so reading a field and writing back
what was read changes nothing. A byte string is cut to the room in a slot, not at its first zero byte:
where another byte follows there, it stays in the slot, where nobody reads it, until the field is
written again.
-/

set_option autoImplicit false
set_option relaxedAutoImplicit false

namespace RowStore

open RowStore.Cell (CellType Value)
open RowStore.Row (Cells Expression Record cell coerceTo findField setCell slot)
open RowStore.Schema (Layout RowField)
open RowStore.Text (Bytes)
open RowStore.Text.Bytes (content content_append_of_not_mem content_append_rest
  content_replicate_zero rest rest_append_zeros rest_eq_nil_iff zero_not_mem_content)

namespace Cell.Slot

variable {cut : Bytes}

/-- Content without a zero byte, and behind it nothing but zero bytes, at least one. -/
def IsCanonical (cut : Bytes) : Prop :=
  ∃ bytes zeros, cut = bytes ++ List.replicate (zeros + 1) 0 ∧ 0 ∉ bytes

theorem isCanonical_iff : IsCanonical cut ↔ rest cut ≠ [] ∧ ∀ b ∈ rest cut, b = 0 := by
  constructor
  · rintro ⟨bytes, zeros, rfl, nonzero⟩
    rw [rest_append_zeros, rest_eq_nil_iff.2 nonzero, List.nil_append]
    exact ⟨List.cons_ne_nil _ _, fun b mem => List.eq_of_mem_replicate mem⟩
  · rintro ⟨ended, zero⟩
    obtain ⟨zeros, length⟩ := Nat.exists_eq_succ_of_ne_zero (mt List.length_eq_zero_iff.1 ended)
    have padding : rest cut = List.replicate (zeros + 1) 0 :=
      List.eq_replicate_iff.2 ⟨length, zero⟩
    refine ⟨content cut, zeros, ?_, zero_not_mem_content cut⟩
    rw [← padding]
    exact (content_append_rest cut).symm

instance : DecidablePred IsCanonical := fun cut =>
  decidable_of_iff (rest cut ≠ [] ∧ (rest cut).all (· == 0) = true) (by simp [isCanonical_iff])

/-- A byte string leaves a canonical slot just if none but zero bytes follow its first zero byte, as
far as they are kept. -/
theorem isCanonical_fitChars_iff {width : Nat} (room : 1 ≤ width) (bytes : Bytes) :
    IsCanonical (fitChars bytes width) ↔ ∀ b ∈ rest (bytes.take (width - 1)), b = 0 := by
  have ended : 0 < width - (bytes.take (width - 1)).length := by
    rw [List.length_take]
    omega
  have padded : List.replicate (width - (bytes.take (width - 1)).length) (0 : UInt8) ≠ [] := by
    rw [← List.length_pos_iff, List.length_replicate]
    exact ended
  rw [isCanonical_iff, fitChars, rest_append_zeros]
  constructor
  · rintro ⟨-, zero⟩ b mem
    exact zero b (List.mem_append_left _ mem)
  · intro zero
    refine ⟨List.append_ne_nil_of_right_ne_nil _ padded, fun b mem => ?_⟩
    rcases List.mem_append.1 mem with kept | padding
    · exact zero b kept
    · exact List.eq_of_mem_replicate padding

theorem isCanonical_fitChars {width : Nat} (room : 1 ≤ width) {bytes : Bytes}
    (nonzero : 0 ∉ bytes) : IsCanonical (fitChars bytes width) := by
  have kept : 0 ∉ bytes.take (width - 1) := fun mem => nonzero (List.mem_of_mem_take mem)
  rw [isCanonical_fitChars_iff room, rest_eq_nil_iff.2 kept]
  exact List.forall_mem_nil _

theorem getLast?_fitChars {width : Nat} (room : 1 ≤ width) (bytes : Bytes) :
    (fitChars bytes width).getLast? = some 0 := by
  obtain ⟨zeros, padding⟩ : ∃ zeros, width - (bytes.take (width - 1)).length = zeros + 1 := by
    apply Nat.exists_eq_succ_of_ne_zero
    rw [List.length_take]
    omega
  rw [fitChars, padding, List.replicate_succ', ← List.append_assoc, List.getLast?_concat]

/-- The canonical slots are those that their own content is laid down as. -/
theorem fitChars_content_eq_iff (room : 1 ≤ cut.length) :
    fitChars (content cut) cut.length = cut ↔ IsCanonical cut := by
  constructor
  · intro same
    rw [← same]
    exact isCanonical_fitChars room (zero_not_mem_content cut)
  · rintro ⟨bytes, zeros, rfl, nonzero⟩
    have read : content (bytes ++ List.replicate (zeros + 1) 0) = bytes := by
      rw [content_append_of_not_mem nonzero, content_replicate_zero, List.append_nil]
    have length : (bytes ++ List.replicate (zeros + 1) (0 : UInt8)).length =
        bytes.length + (zeros + 1) := by
      rw [List.length_append, List.length_replicate]
    have kept : bytes.take (bytes.length + (zeros + 1) - 1) = bytes :=
      List.take_of_length_le (by omega)
    rw [read, length, fitChars, kept, Nat.add_sub_cancel_left]

end Cell.Slot

namespace Row

variable {field : RowField} {value : Value} {data data' : Bytes}

theorem setCell_eq_self_iff (written : setCell field value data = .ok data') :
    data' = data ↔ slot field data' = slot field data := by
  constructor
  · rintro rfl
    rfl
  · intro same
    obtain ⟨new, -, found⟩ := slot_setCell written
    apply List.ext_getElem?
    intro position
    by_cases covered : field.Covers position
    · have lower : field.offset ≤ position := covered.1
      have upper : position < field.offset + field.width := covered.2
      have inside : position - field.offset < field.width := by omega
      have here : field.offset + (position - field.offset) = position := by omega
      have now := getElem?_slot found inside
      have before := getElem?_slot (same.symm.trans found) inside
      rw [here] at now before
      exact now.symm.trans before
    · exact getElem?_setCell_of_not_covers written covered

theorem exists_setCell_chars (chars : field.type = .chars) (inside : field.stop ≤ data.length)
    (bytes : Bytes) :
    ∃ data', setCell field (.chars bytes) data = .ok data' ∧
      Cell.Slot.encode field.type (.chars bytes) field.width =
        .ok (Cell.Slot.fitChars bytes field.width) ∧
      slot field data' = .ok (Cell.Slot.fitChars bytes field.width) ∧
      cell field data' = .ok (.chars ((content bytes).take (field.width - 1))) := by
  have encoded : Cell.Slot.encode field.type (.chars bytes) field.width =
      .ok (Cell.Slot.fitChars bytes field.width) := by
    rw [chars]
    rfl
  have written := setCell_eq_ok.2 ⟨inside, _, encoded, rfl⟩
  obtain ⟨new, encoded', found⟩ := slot_setCell written
  cases encoded.symm.trans encoded'
  refine ⟨_, written, encoded, found, ?_⟩
  rw [cell_of_slot found, Cell.Slot.decode_encode encoded]
  rfl

end Row

theorem newRecord_self {layout : Layout} {field : RowField} {old : Record} {value : Value}
    {data : Bytes} (named : layout.field? field.name = some field)
    (held : old.get field = .ok value) (typed : value.type = field.type)
    (set : setCell field value old.data = .ok data) :
    Target.newRecord layout [⟨field.name, .computed (.field none field.name)⟩] [field] old =
      .ok { old with data } := by
  have found : findField layout old none field.name = .ok value :=
    (Row.findField_of_named rfl named).trans held
  have stored : coerceTo field value = .ok value := by
    rw [Row.coerceTo_eq_ok, ← typed]
    cases value <;> rfl
  have given : Target.value layout old field ⟨field.name, .computed (.field none field.name)⟩ =
      .ok value := by
    rw [Target.value_computed rfl, Expression.eval, found]
    exact stored
  unfold Target.newRecord Target.replacement Target.write
  rw [given]
  change Except.map _ (setCell field value old.data >>= _) = _
  rw [set]
  rfl

/-- A column of byte strings keeps what has been written into it, but not byte by byte. Whatever the
slot held before, writing a byte string succeeds and ends the slot with a zero byte, and the field
reads as the content of the byte string, cut to the room there is. The slot is canonical just if only
zero bytes follow the first zero byte of what was kept. Writing back what the field reads always makes
it canonical, so that this, or an expression that sets the field to itself, changes no byte of the
row just if the slot was canonical. -/
theorem setCell_chars_canonical {field : RowField} (chars : field.type = .chars)
    (room : 1 ≤ field.width) {data : Bytes} (inside : field.stop ≤ data.length) (bytes : Bytes) :
    ∃ data' cut data'' cut'', setCell field (.chars bytes) data = .ok data' ∧
      Cell.Slot.encode field.type (.chars bytes) field.width = .ok cut ∧
      slot field data' = .ok cut ∧ cut.length = field.width ∧ cut.getLast? = some 0 ∧
      (Cell.Slot.IsCanonical cut ↔ ∀ b ∈ rest (bytes.take (field.width - 1)), b = 0) ∧
      cell field data' = .ok (.chars ((content bytes).take (field.width - 1))) ∧
      setCell field (.chars ((content bytes).take (field.width - 1))) data' = .ok data'' ∧
      slot field data'' = .ok cut'' ∧ Cell.Slot.IsCanonical cut'' ∧
      (data'' = data' ↔ Cell.Slot.IsCanonical cut) ∧
      ∀ layout id, Layout.field? layout field.name = some field →
        Target.newRecord layout [⟨field.name, .computed (.field none field.name)⟩] [field]
          ⟨id, data'⟩ = .ok ⟨id, data''⟩ := by
  obtain ⟨data', written, encoded, found, held⟩ := Row.exists_setCell_chars chars inside bytes
  have inside' : field.stop ≤ data'.length := by
    rw [Row.length_setCell written]
    exact inside
  obtain ⟨data'', rewritten, -, found'', -⟩ :=
    Row.exists_setCell_chars chars inside' ((content bytes).take (field.width - 1))
  have width := Cell.Slot.length_fitChars bytes field.width
  have read : content (Cell.Slot.fitChars bytes field.width) =
      (content bytes).take (field.width - 1) := Cell.Slot.content_append_zeros bytes _ _
  -- The slot written back is the one that the content of the first slot is laid down as.
  have same : Cell.Slot.fitChars ((content bytes).take (field.width - 1)) field.width =
        Cell.Slot.fitChars bytes field.width ↔
      Cell.Slot.IsCanonical (Cell.Slot.fitChars bytes field.width) := by
    have again := Cell.Slot.fitChars_content_eq_iff (room.trans_eq width.symm)
    rw [read, width] at again
    exact again
  have nonzero : 0 ∉ (content bytes).take (field.width - 1) := fun mem =>
    zero_not_mem_content bytes (List.mem_of_mem_take mem)
  refine ⟨data', _, data'', _, written, encoded, found, width, Cell.Slot.getLast?_fitChars room bytes,
    Cell.Slot.isCanonical_fitChars_iff room bytes, held, rewritten, found'',
    Cell.Slot.isCanonical_fitChars room nonzero, ?_, ?_⟩
  · rw [Row.setCell_eq_self_iff rewritten, found, found'', Except.ok.injEq]
    exact same
  · intro layout id named
    exact newRecord_self named held chars.symm rewritten

theorem setCell_chars_canonical_four :
    let field : RowField := ⟨"c", .chars, 1, 4⟩
    let layout : Layout := ⟨1, "t", [⟨"a", .chars, 0, 1⟩, field]⟩
    let itself : List Target := [⟨"c", .computed (.field none "c")⟩]
    (∃ data cut, setCell field (.chars [0x61, 0x62, 0x63, 0x64]) [1, 2, 3, 4, 5] = .ok data ∧
      slot field data = .ok cut ∧ Cell.Slot.IsCanonical cut ∧
      Target.newRecord layout itself [field] ⟨⟨0, 0⟩, data⟩ = .ok ⟨⟨0, 0⟩, data⟩) ∧
    ∃ data data' cut, setCell field (.chars [0x61, 0, 0x62]) [1, 2, 3, 4, 5] = .ok data ∧
      slot field data = .ok cut ∧ ¬ Cell.Slot.IsCanonical cut ∧
      Target.newRecord layout itself [field] ⟨⟨0, 0⟩, data⟩ = .ok ⟨⟨0, 0⟩, data'⟩ ∧ data' ≠ data := by
  intro field layout itself
  have room : 1 ≤ field.width := by decide
  have inside : field.stop ≤ [1, 2, 3, 4, (5 : UInt8)].length := by decide
  constructor
  · obtain ⟨data, cut, data', cut', written, -, found, -, -, canonical, -, -, -, -, same, itself⟩ :=
      setCell_chars_canonical rfl room inside [0x61, 0x62, 0x63, 0x64]
    have whole : rest ([0x61, 0x62, 0x63, 0x64].take 3) = [] := by rfl
    have canonical := canonical.2 (whole ▸ List.forall_mem_nil _)
    have itself := itself layout ⟨0, 0⟩ rfl
    rw [same.2 canonical] at itself
    exact ⟨data, cut, written, found, canonical, itself⟩
  · obtain ⟨data, cut, data', cut', written, -, found, -, -, canonical, -, -, -, -, same, itself⟩ :=
      setCell_chars_canonical rfl room inside [0x61, 0, 0x62]
    have hidden : 0x62 ∈ rest ([0x61, 0, 0x62].take 3) := by decide
    have canonical := mt canonical.1 fun zero => absurd (zero 0x62 hidden) (by decide)
    exact ⟨data, data', cut, written, found, canonical, itself layout ⟨0, 0⟩ rfl, mt same.1 canonical⟩

/-- A byte behind a zero byte stays in the slot: what is read back from it is laid down otherwise, and
an update that sets the column to itself changes the row. -/
theorem setCell_keeps_hidden_byte :
    let field : RowField := ⟨"c", .chars, 0, 4⟩
    setCell field (.chars [0x61, 0, 0x62]) [0xff, 0xff, 0xff, 0xff] = .ok [0x61, 0, 0x62, 0] ∧
      ¬ Cell.Slot.IsCanonical [0x61, 0, 0x62, 0] ∧
      cell field [0x61, 0, 0x62, 0] = .ok (.chars [0x61]) ∧
      setCell field (.chars [0x61]) [0x61, 0, 0x62, 0] = .ok [0x61, 0, 0, 0] ∧
      Target.newRecord ⟨1, "t", [field]⟩ [⟨"c", .computed (.field none "c")⟩] [field]
        ⟨⟨0, 0⟩, [0x61, 0, 0x62, 0]⟩ = .ok ⟨⟨0, 0⟩, [0x61, 0, 0, 0]⟩ := by
  refine ⟨by rfl, by decide, by rfl, by rfl, by rfl⟩

end RowStore
