/- RowStore/Proofs/Row/Slots
   role: theorems
   digest: What is written into a slot is read back from it, and no other byte changes. -/

import Mathlib.Data.List.Induction
import RowStore.Proofs.Row.Faults

set_option autoImplicit false
set_option relaxedAutoImplicit false

namespace RowStore

open RowStore.Cell (CellType Value)
open RowStore.Schema (Layout RowField TableSpec)
open RowStore.Text (Bytes)

/-- The value as a slot of a width gives it back. -/
def Cell.Value.stored (width : Nat) : Value → Value
  | .int n => .int n
  | .float x => .float x
  | .chars bytes => .chars ((Bytes.content bytes).take (width - 1))

namespace Cell.Slot

theorem wordOfBytes_bytesOfWord (w : UInt32) :
    wordOfBytes w.toUInt8 (w >>> 8).toUInt8 (w >>> 16).toUInt8 (w >>> 24).toUInt8 = w := by
  have bound := w.toNat_lt
  apply UInt32.toNat_inj.1
  simp only [wordOfBytes, UInt32.toNat_ofNat', UInt32.toNat_toUInt8, UInt32.toNat_shiftRight,
    Nat.shiftRight_eq_div_pow]
  simp
  omega

theorem word_bytesOfWord (w : UInt32) : word (bytesOfWord w) = .ok w := by
  simp only [bytesOfWord, word, wordOfBytes_bytesOfWord]

theorem fitWord_eq_ok {w : UInt32} {width : Nat} {slot : Bytes}
    (fits : fitWord w width = .ok slot) : slot = bytesOfWord w := by
  unfold fitWord at fits
  split at fits
  · cases fits
    rfl
  · cases fits

theorem content_append_zeros (bytes : Bytes) (kept zeros : Nat) :
    Bytes.content (bytes.take kept ++ List.replicate zeros 0) = (Bytes.content bytes).take kept := by
  induction bytes generalizing kept with
  | nil =>
    cases zeros <;> simp [Bytes.content, List.replicate_succ]
  | cons b rest ih =>
    cases kept with
    | zero => cases zeros <;> simp [Bytes.content, List.replicate_succ]
    | succ kept =>
      have later := ih kept
      by_cases zero : b = 0
      · simp [Bytes.content, zero]
      · simp only [Bytes.content] at later ⊢
        simp [zero, later]

theorem decode_encode {type : CellType} {value : Value} {width : Nat} {slot : Bytes}
    (encoded : encode type value width = .ok slot) :
    decode type slot = .ok (value.stored width) := by
  unfold encode at encoded
  split at encoded
  case h_1 n =>
    rw [fitWord_eq_ok encoded, decode, word_bytesOfWord]
    simp [Value.stored, Except.map, Int32.toInt32_toUInt32]
  case h_2 x =>
    rw [fitWord_eq_ok encoded, decode, word_bytesOfWord]
    rfl
  case h_3 bytes =>
    cases encoded
    rw [decode, fitChars, content_append_zeros]
    rfl
  case h_4 => cases encoded

theorem encode_of_type_ne {type : CellType} {value : Value} (width : Nat)
    (apart : value.type ≠ type) :
    encode type value width = .error (.typeMismatch type value.type) := by
  cases value with
  | int n =>
    cases type with
    | int => exact absurd rfl apart
    | float | chars => rfl
  | float x =>
    cases type with
    | float => exact absurd rfl apart
    | int | chars => rfl
  | chars bytes =>
    cases type with
    | chars => exact absurd rfl apart
    | int | float => rfl

end Cell.Slot

namespace Row

variable {field g : RowField} {fields : List RowField} {value : Value} {data data' cut new : Bytes}
  {fault : Fault} {position : Nat} {writes writes' : List (RowField × Value)}

theorem slot_eq_ok :
    slot field data = .ok cut ↔
      field.stop ≤ data.length ∧ (data.drop field.offset).take field.width = cut := by
  unfold slot
  by_cases inside : field.stop ≤ data.length
  · simp [inside]
  · simp [inside]

theorem getElem?_slot {offset : Nat} (found : slot field data = .ok cut)
    (inside : offset < field.width) : cut[offset]? = data[field.offset + offset]? := by
  obtain ⟨-, rfl⟩ := slot_eq_ok.1 found
  rw [List.getElem?_take, if_pos inside, List.getElem?_drop]

theorem slot_congr (length : data'.length = data.length)
    (same : ∀ position, field.Covers position → data'[position]? = data[position]?) :
    slot field data' = slot field data := by
  have cuts : (data'.drop field.offset).take field.width =
      (data.drop field.offset).take field.width := by
    apply List.ext_getElem?
    intro i
    rw [List.getElem?_take, List.getElem?_take, List.getElem?_drop, List.getElem?_drop]
    by_cases inside : i < field.width
    · have covered : field.Covers (field.offset + i) :=
        ⟨Nat.le_add_right _ _, Nat.add_lt_add_left inside _⟩
      rw [same _ covered]
    · rw [if_neg inside, if_neg inside]
  unfold slot
  rw [length, cuts]

theorem getElem?_splice_of_not_covers (width : new.length = field.width)
    (inside : field.stop ≤ data.length) (outside : ¬ field.Covers position) :
    (Bytes.splice data field.offset new)[position]? = data[position]? := by
  have stop : field.stop = field.offset + field.width := rfl
  have front : (data.take field.offset).length = field.offset := by
    rw [List.length_take]
    omega
  unfold Bytes.splice
  rw [List.append_assoc]
  by_cases before : position < field.offset
  · rw [List.getElem?_append_left (by omega), List.getElem?_take, if_pos before]
  · have after : field.stop ≤ position := by
      by_contra covered
      exact outside ⟨by omega, by omega⟩
    rw [List.getElem?_append_right (by omega), List.getElem?_append_right (by omega),
      List.getElem?_drop]
    congr 1
    omega

theorem slot_splice (width : new.length = field.width) (inside : field.stop ≤ data.length) :
    slot field (Bytes.splice data field.offset new) = .ok new := by
  have stop : field.stop = field.offset + field.width := rfl
  have front : (data.take field.offset).length = field.offset := by
    rw [List.length_take]
    omega
  rw [slot_eq_ok, length_splice (by omega)]
  refine ⟨inside, ?_⟩
  unfold Bytes.splice
  rw [List.append_assoc, List.drop_left' front, List.take_left' width]

theorem setCell_eq_ok :
    setCell field value data = .ok data' ↔
      field.stop ≤ data.length ∧ ∃ new, Cell.Slot.encode field.type value field.width = .ok new ∧
        data' = Bytes.splice data field.offset new := by
  constructor
  · intro written
    obtain ⟨old, found, rest⟩ := exists_of_bind_eq_ok written
    obtain ⟨new, encoded, spliced⟩ := exists_of_bind_eq_ok rest
    obtain ⟨width, -⟩ := length_slot found
    rw [width] at encoded
    exact ⟨(slot_eq_ok.1 found).1, new, ofCell_eq_ok_iff.1 encoded, (Except.ok.inj spliced).symm⟩
  · rintro ⟨inside, new, encoded, rfl⟩
    have found : slot field data = .ok ((data.drop field.offset).take field.width) :=
      slot_eq_ok.2 ⟨inside, rfl⟩
    unfold setCell
    rw [found]
    change (Fault.ofCell (Cell.Slot.encode field.type value _) >>= fun new =>
      pure (Bytes.splice data field.offset new)) = _
    rw [(length_slot found).1, encoded]
    rfl

theorem slot_setCell (written : setCell field value data = .ok data') :
    ∃ new, Cell.Slot.encode field.type value field.width = .ok new ∧
      slot field data' = .ok new := by
  obtain ⟨inside, new, encoded, rfl⟩ := setCell_eq_ok.1 written
  exact ⟨new, encoded, slot_splice (Cell.Slot.length_encode encoded) inside⟩

theorem getElem?_setCell_of_not_covers (written : setCell field value data = .ok data')
    (outside : ¬ field.Covers position) : data'[position]? = data[position]? := by
  obtain ⟨inside, new, encoded, rfl⟩ := setCell_eq_ok.1 written
  exact getElem?_splice_of_not_covers (Cell.Slot.length_encode encoded) inside outside

def lastWritten (field : RowField) (writes : List (RowField × Value)) : Option Value :=
  (writes.reverse.find? fun write => write.1 == field).map (·.2)

theorem lastWritten_append_singleton (writes : List (RowField × Value)) (g : RowField)
    (value : Value) :
    lastWritten field (writes ++ [(g, value)]) =
      if g = field then some value else lastWritten field writes := by
  unfold lastWritten
  rw [List.reverse_append, List.reverse_singleton, List.singleton_append, List.find?_cons]
  by_cases same : g = field
  · simp [same]
  · rw [if_neg same, beq_false_of_ne same]

theorem mem_of_lastWritten (last : lastWritten field writes = some value) :
    (field, value) ∈ writes := by
  obtain ⟨⟨g, v⟩, found, rfl⟩ := Option.map_eq_some_iff.1 last
  have same : g = field := by simpa using List.find?_some found
  have mem := List.mem_of_find?_eq_some found
  rw [List.mem_reverse, same] at mem
  exact mem

theorem lastWritten_eq_none_iff :
    lastWritten field writes = none ↔ ∀ write ∈ writes, write.1 ≠ field := by
  simp [lastWritten]

theorem lastWritten_perm (once : (writes.map (·.1)).Nodup) (perm : writes.Perm writes') :
    lastWritten field writes = lastWritten field writes' := by
  have last {writes : List (RowField × Value)} (once : (writes.map (·.1)).Nodup) (value : Value) :
      lastWritten field writes = some value ↔ (field, value) ∈ writes := by
    refine ⟨mem_of_lastWritten, fun mem => ?_⟩
    have once' : (writes.reverse.map (·.1)).Nodup := by
      rw [List.map_reverse]
      exact List.nodup_reverse.2 once
    have found := (Schema.find?_eq_some_of_nodup once' (k := field) (a := (field, value))).2
      ⟨List.mem_reverse.2 mem, rfl⟩
    unfold lastWritten
    rw [found]
    rfl
  have once' : (writes'.map (·.1)).Nodup := (perm.map _).nodup_iff.1 once
  apply Option.ext
  intro value
  rw [last once, last once']
  exact perm.mem_iff

/-- No position lies in the slots of two of the fields. -/
def Apart (fields : List RowField) : Prop :=
  ∀ f ∈ fields, ∀ g ∈ fields, ∀ position, f.Covers position → g.Covers position → f = g

/-- The bytes that writes into some of the fields leave: every field written holds what was written
into it last, and bytes outside of these fields are as before. -/
structure Laid (fields : List RowField) (data : Bytes) (writes : List (RowField × Value))
    (data' : Bytes) : Prop where
  length : data'.length = data.length
  known : ∀ write ∈ writes, write.1 ∈ fields
  written : ∀ field value, lastWritten field writes = some value →
    ∃ new, Cell.Slot.encode field.type value field.width = .ok new ∧ slot field data' = .ok new
  untouched : ∀ position, (∀ write ∈ writes, ¬ write.1.Covers position) →
    data'[position]? = data[position]?

namespace Laid

theorem nil (fields : List RowField) (data : Bytes) : Laid fields data [] data where
  length := rfl
  known := List.forall_mem_nil _
  written field value last := by cases last
  untouched position _ := rfl

theorem append_singleton {data'' : Bytes} (apart : Apart fields)
    (laid : Laid fields data writes data') (mem : field ∈ fields)
    (set : setCell field value data' = .ok data'') :
    Laid fields data (writes ++ [(field, value)]) data'' where
  length := (length_setCell set).trans laid.length
  known write new := by
    rcases List.mem_append.1 new with old | new
    · exact laid.known write old
    · rw [List.mem_singleton.1 new]
      exact mem
  written g v last := by
    rw [lastWritten_append_singleton] at last
    split at last
    case isTrue same =>
      cases last
      subst same
      exact slot_setCell set
    case isFalse other =>
      obtain ⟨new, encoded, found⟩ := laid.written g v last
      refine ⟨new, encoded, ?_⟩
      have known : g ∈ fields := laid.known _ (mem_of_lastWritten last)
      have kept : slot g data'' = slot g data' := by
        apply slot_congr (length_setCell set)
        intro position covered
        apply getElem?_setCell_of_not_covers set
        intro written
        exact other (apart field mem g known position written covered)
      rw [kept]
      exact found
  untouched position outside := by
    have last : ¬ field.Covers position :=
      outside (field, value) (List.mem_append_right _ List.mem_cons_self)
    rw [getElem?_setCell_of_not_covers set last]
    apply laid.untouched
    intro write old
    exact outside write (List.mem_append_left _ old)

theorem getElem?_eq (apart : Apart fields) (laid : Laid fields data writes data')
    (mem : field ∈ fields) (unwritten : lastWritten field writes = none)
    (covered : field.Covers position) : data'[position]? = data[position]? := by
  apply laid.untouched
  intro write old written
  have same : write.1 = field := apart _ (laid.known write old) field mem position written covered
  exact lastWritten_eq_none_iff.1 unwritten write old same

theorem slot_eq (apart : Apart fields) (laid : Laid fields data writes data')
    (mem : field ∈ fields) (unwritten : lastWritten field writes = none) :
    slot field data' = slot field data := by
  apply slot_congr laid.length
  intro position covered
  exact laid.getElem?_eq apart mem unwritten covered

theorem perm (laid : Laid fields data writes data') (once : (writes.map (·.1)).Nodup)
    (perm : writes.Perm writes') : Laid fields data writes' data' where
  length := laid.length
  known write mem := laid.known write (perm.mem_iff.2 mem)
  written field value last := by
    rw [← lastWritten_perm once perm] at last
    exact laid.written field value last
  untouched position outside := by
    apply laid.untouched
    intro write mem
    exact outside write (perm.mem_iff.1 mem)

/-- What is written last into each field decides all bytes. -/
theorem unique {data'' : Bytes} (laid : Laid fields data writes data')
    (laid' : Laid fields data writes' data'')
    (same : ∀ field, lastWritten field writes = lastWritten field writes') : data' = data'' := by
  apply List.ext_getElem?
  intro position
  by_cases covered : ∃ write ∈ writes, write.1.Covers position
  · obtain ⟨⟨field, value⟩, mem, covers⟩ := covered
    cases last : lastWritten field writes with
    | none => exact absurd rfl (lastWritten_eq_none_iff.1 last _ mem)
    | some final =>
      obtain ⟨new, encoded, found⟩ := laid.written field final last
      obtain ⟨new', encoded', found'⟩ := laid'.written field final ((same field).symm.trans last)
      cases encoded.symm.trans encoded'
      have lower : field.offset ≤ position := covers.1
      have upper : position < field.offset + field.width := covers.2
      have inside : position - field.offset < field.width := by omega
      have bytes := getElem?_slot found inside
      have bytes' := getElem?_slot found' inside
      have here : field.offset + (position - field.offset) = position := by omega
      rw [here] at bytes bytes'
      exact bytes.symm.trans bytes'
  · have outside : ∀ write ∈ writes, ¬ write.1.Covers position := by
      intro write mem covers
      exact covered ⟨write, mem, covers⟩
    have outside' : ∀ write ∈ writes', ¬ write.1.Covers position := by
      rintro ⟨field, value⟩ mem covers
      have written : lastWritten field writes ≠ none := by
        rw [same field]
        intro unwritten
        exact lastWritten_eq_none_iff.1 unwritten _ mem rfl
      obtain ⟨final, last⟩ := Option.ne_none_iff_exists'.1 written
      exact outside _ (mem_of_lastWritten last) covers
    rw [laid.untouched position outside, laid'.untouched position outside']

end Laid

namespace Record

variable {record : Record}

/-- Values written into fields one after the other; those that cannot be written are passed over. -/
def writeAll (record : Record) (writes : List (RowField × Value)) : Record :=
  writes.foldl (fun record write => (record.write write.1 write.2).2) record

theorem writeAll_append_singleton (writes : List (RowField × Value)) (write : RowField × Value) :
    record.writeAll (writes ++ [write]) =
      ((record.writeAll writes).write write.1 write.2).2 := by
  unfold writeAll
  rw [List.foldl_append]
  rfl

theorem write_of_type (fits : field.Fits record.data.length) (typed : value.type = field.type) :
    ∃ data, setCell field value record.data = .ok data ∧
      record.write field value = (.ok (), { record with data }) := by
  obtain ⟨data, set⟩ := exists_setCell fits typed
  refine ⟨data, set, ?_⟩
  unfold write Record.set
  rw [set]
  rfl

theorem write_of_type_ne (fits : field.Fits record.data.length) (apart : value.type ≠ field.type) :
    record.write field value =
      (.error (.cell (.typeMismatch field.type value.type)), record) := by
  have found : slot field record.data = .ok ((record.data.drop field.offset).take field.width) :=
    slot_eq_ok.2 ⟨fits.inside, rfl⟩
  have refused : setCell field value record.data =
      .error (.cell (.typeMismatch field.type value.type)) := by
    unfold setCell
    rw [found]
    change (Fault.ofCell (Cell.Slot.encode field.type value _) >>= _) = _
    rw [Cell.Slot.encode_of_type_ne _ apart]
    rfl
  unfold write Record.set
  rw [refused]
  rfl

def typed (writes : List (RowField × Value)) : List (RowField × Value) :=
  writes.filter fun write => write.2.type == write.1.type

theorem mem_typed {write : RowField × Value} :
    write ∈ typed writes ↔ write ∈ writes ∧ write.2.type = write.1.type := by
  simp [typed]

/-- The writes that succeed are those of values of the right type, and the others leave no trace. -/
theorem laid_writeAll (apart : Apart fields)
    (fitted : ∀ field ∈ fields, field.Fits record.data.length)
    (known : ∀ write ∈ writes, write.1 ∈ fields) :
    Laid fields record.data (typed writes) (record.writeAll writes).data := by
  -- From the last write: it sets its field, or it leaves the bytes and does not count.
  induction writes using List.reverseRecOn with
  | nil => exact Laid.nil fields record.data
  | append_singleton writes write ih =>
    obtain ⟨before, now⟩ := List.forall_mem_append.1 known
    have mem : write.1 ∈ fields := now write List.mem_cons_self
    have laid := ih before
    have fits : write.1.Fits (record.writeAll writes).data.length := by
      rw [laid.length]
      exact fitted write.1 mem
    rw [writeAll_append_singleton]
    unfold typed
    rw [List.filter_append]
    by_cases same : write.2.type = write.1.type
    · obtain ⟨data, set, done⟩ := write_of_type fits same
      rw [List.filter_singleton, same, beq_self_eq_true, done]
      exact laid.append_singleton apart mem set
    · rw [write_of_type_ne fits same, List.filter_singleton, beq_false_of_ne same]
      simpa [typed] using laid

end Record

theorem cell_of_slot (found : slot field data = .ok cut) :
    cell field data = Fault.ofCell (Cell.Slot.decode field.type cut) := by
  unfold cell
  rw [found]
  rfl

theorem apart_layout (spec : TableSpec) (id : Nat) : Apart (spec.layout id).fields := by
  intro f hf g hg position
  exact Schema.eq_of_covers_tile hf hg

/-- A row of a table is an array of independent cells. In any sequence of writes into its fields, a
value is written if it has the type of the field, and otherwise refused without any change. Afterwards
every field has a value: the one written into it last, as its slot gives it back, or else the one it
had at first. Bytes outside the slots written are as they were. -/
theorem cells_independent {spec : TableSpec} {id : Nat} {layout : Layout}
    (accepted : Layout.ofSpec id spec = .ok layout) {record : Record}
    (full : record.data.length = layout.recordSize) {writes : List (RowField × Value)}
    (known : ∀ write ∈ writes, write.1 ∈ layout.fields) :
    (∀ before field value after, writes = before ++ (field, value) :: after →
      (((record.writeAll before).write field value).1 = .ok () ↔ value.type = field.type) ∧
      (value.type ≠ field.type → (record.writeAll before).write field value =
        (.error (.cell (.typeMismatch field.type value.type)), record.writeAll before))) ∧
    (∀ field ∈ layout.fields, ∃ value, (record.writeAll writes).get field = .ok value ∧
      match lastWritten field (Record.typed writes) with
      | some last => value = last.stored field.width
      | none => record.get field = .ok value) ∧
    (record.writeAll writes).data.length = record.data.length ∧
    ∀ position, (∀ write ∈ writes, write.2.type = write.1.type → ¬ write.1.Covers position) →
      (record.writeAll writes).data[position]? = record.data[position]? := by
  obtain ⟨s, rfl⟩ := Schema.ofSpec_eq_ok.1 accepted
  have apart := apart_layout spec id
  have fitted : ∀ field ∈ (spec.layout id).fields, field.Fits record.data.length := by
    intro field mem
    rw [full]
    exact s.fits mem
  have laid := Record.laid_writeAll apart fitted known
  refine ⟨?_, ?_, laid.length, ?_⟩
  · rintro before field value after rfl
    obtain ⟨known', -⟩ := List.forall_mem_append.1 known
    have mem : field ∈ (spec.layout id).fields :=
      known (field, value) (List.mem_append_right _ List.mem_cons_self)
    have fits : field.Fits (record.writeAll before).data.length := by
      rw [(Record.laid_writeAll apart fitted known').length]
      exact fitted field mem
    constructor
    · constructor
      · intro done
        by_contra wrong
        rw [Record.write_of_type_ne fits wrong] at done
        cases done
      · intro typed
        obtain ⟨data, -, done⟩ := Record.write_of_type fits typed
        rw [done]
    · exact Record.write_of_type_ne fits
  · intro field mem
    cases last : lastWritten field (Record.typed writes) with
    | some value =>
      obtain ⟨new, encoded, found⟩ := laid.written field value last
      refine ⟨value.stored field.width, ?_, rfl⟩
      rw [Record.get, cell_of_slot found, Cell.Slot.decode_encode encoded]
      rfl
    | none =>
      obtain ⟨value, held, -⟩ := exists_cell (fitted field mem)
      have same := laid.slot_eq apart mem last
      refine ⟨value, ?_, held⟩
      rw [← held, Record.get, cell, cell, same]
  · intro position outside
    apply laid.untouched
    intro write mem
    obtain ⟨mem, typed⟩ := Record.mem_typed.1 mem
    exact outside write mem typed

/-- A number, a byte string and a float, of which the byte string is written twice, too long at first
and then with a zero byte inside, the float with bits that are no number, and the number not at all,
since the only value for it is a byte string. -/
def mixedWrites : List (RowField × Value) :=
  [(⟨"s", .chars, 4, 4⟩, .chars [0x77, 0x78, 0x79, 0x7a]), (⟨"a", .int, 0, 4⟩, .chars [0x31]),
    (⟨"f", .float, 8, 4⟩, .float ⟨0x7f800001⟩), (⟨"s", .chars, 4, 4⟩, .chars [0x62, 0, 0x63])]

theorem cells_independent_mixed :
    let record : Record := ⟨⟨0, 0⟩, [7, 0, 0, 0, 1, 1, 1, 1, 2, 2, 2, 2]⟩
    Layout.ofSpec 1 ⟨"t", [⟨"a", .int, 4⟩, ⟨"s", .chars, 4⟩, ⟨"f", .float, 4⟩]⟩ =
        .ok ⟨1, "t", [⟨"a", .int, 0, 4⟩, ⟨"s", .chars, 4, 4⟩, ⟨"f", .float, 8, 4⟩]⟩ ∧
      (record.writeAll mixedWrites).get ⟨"a", .int, 0, 4⟩ = .ok (.int 7) ∧
      (record.writeAll mixedWrites).get ⟨"s", .chars, 4, 4⟩ = .ok (.chars [0x62]) ∧
      (record.writeAll mixedWrites).get ⟨"f", .float, 8, 4⟩ = .ok (.float ⟨0x7f800001⟩) ∧
      (record.writeAll mixedWrites).data.length = 12 := by
  intro record
  have accepted : Layout.ofSpec 1 ⟨"t", [⟨"a", .int, 4⟩, ⟨"s", .chars, 4⟩, ⟨"f", .float, 4⟩]⟩ =
      .ok ⟨1, "t", [⟨"a", .int, 0, 4⟩, ⟨"s", .chars, 4, 4⟩, ⟨"f", .float, 8, 4⟩]⟩ := by rfl
  have full : record.data.length = Layout.recordSize
      ⟨1, "t", [⟨"a", .int, 0, 4⟩, ⟨"s", .chars, 4, 4⟩, ⟨"f", .float, 8, 4⟩]⟩ := by rfl
  have known : ∀ write ∈ mixedWrites, write.1 ∈ Layout.fields
      ⟨1, "t", [⟨"a", .int, 0, 4⟩, ⟨"s", .chars, 4, 4⟩, ⟨"f", .float, 8, 4⟩]⟩ := by decide
  obtain ⟨-, cells, length, -⟩ := cells_independent accepted full known
  obtain ⟨a, heldA, firstA⟩ := cells ⟨"a", .int, 0, 4⟩ (by decide)
  obtain ⟨s, heldS, lastS⟩ := cells ⟨"s", .chars, 4, 4⟩ (by decide)
  obtain ⟨f, heldF, lastF⟩ := cells ⟨"f", .float, 8, 4⟩ (by decide)
  have seven : record.get ⟨"a", .int, 0, 4⟩ = .ok (.int 7) := by rfl
  have lastS : s = .chars [0x62] := lastS
  have lastF : f = .float ⟨0x7f800001⟩ := lastF
  have firstA : record.get ⟨"a", .int, 0, 4⟩ = .ok a := firstA
  subst lastS lastF
  exact ⟨accepted, heldA.trans (firstA.symm.trans seven), heldS, heldF, length⟩

end Row

end RowStore
