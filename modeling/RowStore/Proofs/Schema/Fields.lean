/- RowStore/Proofs/Schema/Fields
   role: theorems
   digest: The slots of a layout tile its rows, and its fields have the same places by name and by number. -/

import RowStore.Proofs.Schema.Layout

set_option autoImplicit false
set_option relaxedAutoImplicit false

namespace RowStore.Schema

variable {columns : List Column} {f g : RowField} {offset i j : Nat} {c : Column} {layout : Layout}
  {name : String}

theorem getElem?_tile (columns : List Column) (offset i : Nat) :
    (tile offset columns)[i]? =
      columns[i]?.map fun c => ⟨c.name, c.type, offset + totalWidth (columns.take i), c.width⟩ := by
  induction columns generalizing offset i with
  | nil => rfl
  | cons c rest ih =>
    cases i with
    | zero => rfl
    | succ i =>
      rw [tile, List.getElem?_cons_succ, List.getElem?_cons_succ, ih, List.take_succ_cons,
        totalWidth_cons, Nat.add_assoc]

theorem totalWidth_append (before after : List Column) :
    totalWidth (before ++ after) = totalWidth before + totalWidth after := by
  induction before with
  | nil => exact (Nat.zero_add _).symm
  | cons c rest ih => rw [List.cons_append, totalWidth_cons, totalWidth_cons, ih, Nat.add_assoc]

theorem totalWidth_take_succ (found : columns[i]? = some c) :
    totalWidth (columns.take (i + 1)) = totalWidth (columns.take i) + c.width := by
  rw [List.take_add_one, found, totalWidth_append]
  rfl

theorem totalWidth_take_mono (columns : List Column) (le : i ≤ j) :
    totalWidth (columns.take i) ≤ totalWidth (columns.take j) := by
  rw [← Nat.min_eq_left le, ← List.take_take]
  conv_rhs => rw [← List.take_append_drop i (columns.take j), totalWidth_append]
  exact Nat.le_add_right _ _

/-- Of two slots the one at the lesser position ends before the other one begins. -/
theorem stop_le_offset_tile (hf : (tile offset columns)[i]? = some f)
    (hg : (tile offset columns)[j]? = some g) (lt : i < j) : f.stop ≤ g.offset := by
  rw [getElem?_tile] at hf hg
  obtain ⟨c, found, rfl⟩ := Option.map_eq_some_iff.1 hf
  obtain ⟨d, -, rfl⟩ := Option.map_eq_some_iff.1 hg
  have ends := totalWidth_take_succ found
  have below := totalWidth_take_mono columns (show i + 1 ≤ j from lt)
  change offset + totalWidth (columns.take i) + c.width ≤ offset + totalWidth (columns.take j)
  omega

theorem exists_covers_tile {place : Nat} (lower : offset ≤ place)
    (upper : place < offset + totalWidth columns) : ∃ f ∈ tile offset columns, f.Covers place := by
  induction columns generalizing offset with
  | nil =>
    rw [totalWidth_nil] at upper
    omega
  | cons c rest ih =>
    rw [totalWidth_cons] at upper
    by_cases first : place < offset + c.width
    · exact ⟨_, List.mem_cons_self, lower, first⟩
    · obtain ⟨f, later, covers⟩ := ih (Nat.not_lt.1 first) (by omega)
      exact ⟨f, List.mem_cons_of_mem _ later, covers⟩

theorem field?_eq_bind (layout : Layout) (name : String) :
    layout.field? name = (layout.position? name).bind layout.fieldAt? :=
  List.find?_eq_bind_findIdx?_getElem?

theorem position?_eq_none_iff : layout.position? name = none ↔ name ∉ layout.fields.map (·.name) := by
  unfold Layout.position?
  rw [List.findIdx?_eq_none_iff, List.mem_map]
  constructor
  · rintro apart ⟨f, mem, rfl⟩
    simpa using apart f mem
  · intro absent f mem
    rw [beq_eq_false_iff_ne]
    exact fun same => absent ⟨f, mem, same⟩

theorem position?_eq_some (apart : (layout.fields.map (·.name)).Nodup)
    (found : layout.fieldAt? i = some f) : layout.position? f.name = some i := by
  obtain ⟨bound, rfl⟩ := List.getElem?_eq_some_iff.1 found
  apply List.findIdx?_eq_some_iff_getElem.2
  refine ⟨bound, beq_self_eq_true _, fun j before same => ?_⟩
  have present : layout.fields[j]? = some (layout.fields[j]) := List.getElem?_eq_getElem _
  have names : (layout.fields.map (·.name))[j]? = (layout.fields.map (·.name))[i]? := by
    rw [List.getElem?_map, List.getElem?_map, present, List.getElem?_eq_getElem bound]
    exact congrArg some (beq_iff_eq.1 same)
  have bound' : j < (layout.fields.map (·.name)).length := by
    rw [List.length_map]
    exact Nat.lt_trans before bound
  exact Nat.ne_of_lt before ((List.getElem?_inj bound' apart).1 names)

/-- The fields are the columns in their order. The slot of each starts where the widths before it end,
no place lies in two slots, and the places in slots are just those of a row. -/
structure Layout.Tiles (layout : Layout) (columns : List Column) : Prop where
  count : layout.fields.length = columns.length
  size : layout.recordSize = (columns.map (·.width)).sum
  placed : ∀ i c, columns[i]? = some c → layout.fieldAt? i =
    some ⟨c.name, c.type, ((columns.take i).map (·.width)).sum, c.width⟩
  disjoint : ∀ i j f g place, layout.fieldAt? i = some f → layout.fieldAt? j = some g →
    f.Covers place → g.Covers place → i = j
  covered : ∀ place, (∃ f ∈ layout.fields, f.Covers place) ↔ place < layout.recordSize

/-- A field is found by name where it is found by position. The name of a column has the position of
the column, and no other name and no position behind the last column has a field. -/
structure Layout.Indexes (layout : Layout) (columns : List Column) : Prop where
  agree : ∀ name, layout.field? name = (layout.position? name).bind layout.fieldAt?
  position : ∀ i c, columns[i]? = some c → layout.position? c.name = some i
  unnamed : ∀ name, name ∉ columns.map (·.name) →
    layout.position? name = none ∧ layout.field? name = none
  beyond : ∀ i, layout.fields.length ≤ i → layout.fieldAt? i = none

theorem tiles_layout (spec : TableSpec) (id : Nat) : (spec.layout id).Tiles spec.columns where
  count := length_fields spec id
  size := (recordSize_layout spec id).trans (totalWidth_eq_sum spec.columns)
  placed i c found := by
    change (tile 0 spec.columns)[i]? = _
    rw [getElem?_tile, found, Option.map_some, Nat.zero_add, totalWidth_eq_sum]
  disjoint i j f g place hf hg cf cg := by
    have before {i j : Nat} {f g : RowField} (hf : (tile 0 spec.columns)[i]? = some f)
        (hg : (tile 0 spec.columns)[j]? = some g) (cf : f.Covers place) (cg : g.Covers place) :
        ¬ i < j := by
      intro lt
      have apart := stop_le_offset_tile hf hg lt
      have ends : place < f.stop := cf.2
      have begins : g.offset ≤ place := cg.1
      omega
    exact Nat.le_antisymm (Nat.not_lt.1 (before hg hf cg cf)) (Nat.not_lt.1 (before hf hg cf cg))
  covered place := by
    rw [recordSize_layout]
    constructor
    · rintro ⟨f, mem, covers⟩
      obtain ⟨-, ends, -⟩ := exists_of_mem_tile mem
      have inside : place < f.stop := covers.2
      omega
    · intro inside
      exact exists_covers_tile (Nat.zero_le place) (by omega)

theorem TableSpec.Accepted.indexes {spec : TableSpec} (accepted : spec.Accepted) (id : Nat) :
    (spec.layout id).Indexes spec.columns where
  agree := field?_eq_bind _
  position i c found := by
    have names : ((spec.layout id).fields.map (·.name)).Nodup :=
      (names_tile spec.columns 0) ▸ accepted.apart
    exact position?_eq_some names ((tiles_layout spec id).placed i c found)
  unnamed name absent := by
    have none : (spec.layout id).position? name = none := by
      rw [position?_eq_none_iff]
      exact (names_tile spec.columns 0).symm ▸ absent
    exact ⟨none, by rw [field?_eq_bind, none, Option.bind_none]⟩
  beyond i behind := List.getElem?_eq_none behind

/-- A table can be laid out as declared just if it has a name and columns, every number has a width of
four and every byte string one of at least two, no column name occurs twice, and the widths together
stay below the bound of sizes. Its slots then tile its rows in the order of the columns, and its fields
are the same by name and by position. -/
theorem ofSpec_exact (id : Nat) (spec : TableSpec) :
    ((∃ made, Layout.ofSpec id spec = .ok made) ↔
      spec.name ≠ "" ∧ spec.columns ≠ [] ∧ (∀ c ∈ spec.columns, c.Suits) ∧
        (spec.columns.map (·.name)).Nodup ∧ (spec.columns.map (·.width)).sum < sizeBound) ∧
    ∀ made, Layout.ofSpec id spec = .ok made →
      made.id = id ∧ made.name = spec.name ∧ made.Tiles spec.columns ∧ made.Indexes spec.columns := by
  constructor
  · rw [← totalWidth_eq_sum]
    constructor
    · rintro ⟨made, done⟩
      obtain ⟨accepted, -⟩ := ofSpec_eq_ok.1 done
      exact ⟨accepted.named, accepted.inhabited, accepted.suits, accepted.apart, accepted.bounded⟩
    · rintro ⟨named, inhabited, suits, apart, bounded⟩
      exact ⟨spec.layout id, ofSpec_eq_ok.2 ⟨⟨named, inhabited, suits, apart, bounded⟩, rfl⟩⟩
  · intro made done
    obtain ⟨accepted, rfl⟩ := ofSpec_eq_ok.1 done
    exact ⟨rfl, rfl, tiles_layout spec id, accepted.indexes id⟩

theorem ofSpec_exact_three :
    let spec : TableSpec := ⟨"t", [⟨"id", .int, 4⟩, ⟨"name", .chars, 8⟩, ⟨"score", .float, 4⟩]⟩
    ∃ made, Layout.ofSpec 1 spec = .ok made ∧ made.recordSize = 16 ∧
      made.fieldAt? 2 = some ⟨"score", .float, 12, 4⟩ ∧ made.position? "score" = some 2 ∧
      made.field? "score" = some ⟨"score", .float, 12, 4⟩ ∧ made.field? "age" = none ∧
      made.fieldAt? 3 = none ∧ ∃ f ∈ made.fields, f.Covers 11 := by
  intro spec
  obtain ⟨accepts, places⟩ := ofSpec_exact 1 spec
  have suits : ∀ c ∈ spec.columns, c.Suits := by
    simp only [spec, List.forall_mem_cons]
    exact ⟨rfl, show 2 ≤ 8 by decide, rfl, List.forall_mem_nil _⟩
  obtain ⟨made, done⟩ := accepts.2 ⟨by decide, by decide, suits, by decide, by decide⟩
  obtain ⟨-, -, tiles, indexes⟩ := places made done
  have size : made.recordSize = 16 := tiles.size
  have count : made.fields.length = 3 := tiles.count
  have third := tiles.placed 2 ⟨"score", .float, 4⟩ rfl
  have position := indexes.position 2 ⟨"score", .float, 4⟩ rfl
  refine ⟨made, done, size, third, position, ?_, ?_, ?_, ?_⟩
  · rw [indexes.agree, position]
    exact third
  · exact (indexes.unnamed "age" (by decide)).2
  · exact indexes.beyond 3 (Nat.le_of_eq count)
  · exact (tiles.covered 11).2 (by omega)

end RowStore.Schema
