/- RowStore/Proofs/Engine/Creation
   role: theorems
   digest: Tables created one after the other; the catalog and the heaps stay in step. -/

import Mathlib.Data.List.Induction
import RowStore.Engine.Basic
import RowStore.Proofs.Schema.Layout

set_option autoImplicit false
set_option relaxedAutoImplicit false

namespace RowStore

open RowStore.Schema (Catalog Layout TableSpec find?_eq_some_of_nodup ofSpec_eq_ok sizeBound tile
  totalWidth totalWidth_eq_sum)
open RowStore.Table (Heap)

variable {engine engine' : Engine} {spec : TableSpec} {layout : Layout} {catalog catalog' : Catalog}
  {config : Config} {made : List Layout}

theorem Engine.listed_of_findTable {name : String} (found : engine.findTable name = .ok layout) :
    layout ∈ engine.catalog.layouts ∧ layout.name = name := by
  unfold findTable Catalog.find? at found
  split at found
  case h_1 => cases found
  case h_2 listed =>
    split at found
    case h_1 => cases found
    case h_2 =>
      cases found
      have named := List.find?_some listed
      exact ⟨List.mem_of_find?_eq_some listed, eq_of_beq named⟩

theorem Schema.Catalog.contains_iff {name : String} :
    catalog.contains name = true ↔ ∃ layout ∈ catalog.layouts, layout.name = name := by
  simp [contains, find?]

theorem Schema.Catalog.create_eq_ok :
    catalog.create spec = .ok (layout, catalog') ↔
      (∀ other ∈ catalog.layouts, other.name ≠ spec.name) ∧ spec.Accepted ∧
        layout = spec.layout (catalog.lastId + 1) ∧
        catalog' = ⟨catalog.layouts ++ [layout], layout.id⟩ := by
  unfold create
  by_cases used : catalog.contains spec.name = true
  case pos =>
    obtain ⟨other, mem, same⟩ := contains_iff.1 used
    rw [if_pos used]
    refine ⟨fun done => ?_, fun ⟨new, _⟩ => absurd same (new other mem)⟩
    cases done
  have new : ∀ other ∈ catalog.layouts, other.name ≠ spec.name := by
    intro other mem same
    exact used (contains_iff.2 ⟨other, mem, same⟩)
  rw [if_neg used]
  dsimp only
  constructor
  · intro done
    cases made : Layout.ofSpec (catalog.lastId + 1) spec with
    | error fault =>
      rw [made] at done
      cases done
    | ok layout' =>
      obtain ⟨accepted, rfl⟩ := ofSpec_eq_ok.1 made
      rw [made] at done
      cases done
      exact ⟨new, accepted, rfl, rfl⟩
  · rintro ⟨-, accepted, rfl, rfl⟩
    rw [ofSpec_eq_ok.2 ⟨accepted, rfl⟩]
    rfl

namespace Engine

theorem declaredSize?_eq (spec : TableSpec) :
    declaredSize? spec =
      if totalWidth spec.columns < sizeBound then some (totalWidth spec.columns) else none := rfl

/-- A table is created when its rows are not too wide for the store, its name is new and its
declaration accepted. -/
theorem createTable_eq_ok :
    engine.createTable spec = .ok (layout, engine') ↔
      totalWidth spec.columns ≤ engine.config.maxRecordSize ∧
        (∀ other ∈ engine.catalog.layouts, other.name ≠ spec.name) ∧ spec.Accepted ∧
        layout = spec.layout (engine.catalog.lastId + 1) ∧
        engine' = { engine.setHeap layout.id {} with
          catalog := ⟨engine.catalog.layouts ++ [layout], layout.id⟩ } := by
  unfold createTable
  rw [declaredSize?_eq]
  by_cases bounded : totalWidth spec.columns < sizeBound
  case neg =>
    rw [if_neg bounded]
    refine ⟨fun done => ?_, fun ⟨_, _, accepted, _⟩ => absurd accepted.bounded bounded⟩
    cases done
  rw [if_pos bounded]
  by_cases wide : engine.config.maxRecordSize < totalWidth spec.columns
  case pos =>
    simp only [if_pos wide]
    refine ⟨fun done => ?_, fun ⟨narrow, _⟩ => absurd wide (Nat.not_lt.2 narrow)⟩
    cases done
  simp only [if_neg wide]
  constructor
  · intro done
    cases created : engine.catalog.create spec with
    | error fault =>
      rw [created] at done
      cases done
    | ok pair =>
      obtain ⟨layout', catalog'⟩ := pair
      obtain ⟨new, accepted, same, rfl⟩ := Catalog.create_eq_ok.1 created
      rw [created] at done
      cases done
      exact ⟨Nat.not_lt.1 wide, new, accepted, same, rfl⟩
  · rintro ⟨-, new, accepted, same, rfl⟩
    rw [Catalog.create_eq_ok.2 ⟨new, accepted, same, rfl⟩]
    rfl

def createNext (state : List Layout × Engine) (spec : TableSpec) : List Layout × Engine :=
  match state.2.createTable spec with
  | .ok (layout, engine) => (state.1 ++ [layout], engine)
  | .error _ => state

/-- The tables that attempts one after the other create in a new store, and the store after them. -/
def createAll (config : Config) (specs : List TableSpec) : List Layout × Engine :=
  specs.foldl createNext ([], { config })

theorem createAll_append_singleton (config : Config) (past : List TableSpec) (spec : TableSpec) :
    createAll config (past ++ [spec]) = createNext (createAll config past) spec := by
  rw [createAll, List.foldl_append]
  rfl

/-- Catalog, numbers and heaps are those of the tables created. -/
structure Lists (config : Config) (made : List Layout) (engine : Engine) : Prop where
  limits : engine.config = config
  layouts : engine.catalog.layouts = made
  counted : engine.catalog.lastId = made.length
  numbered : made.map (·.id) = List.range' 1 made.length
  apart : (made.map (·.name)).Nodup
  heaps : engine.heaps = made.map fun layout => (layout.id, {})

private theorem putHeap_of_new {table : Nat} {heap : Heap} {heaps : List (Nat × Heap)}
    (new : ∀ e ∈ heaps, e.1 ≠ table) : putHeap table heap heaps = heaps ++ [(table, heap)] := by
  induction heaps with
  | nil => rfl
  | cons e rest ih =>
    rw [List.forall_mem_cons] at new
    rw [putHeap, if_neg new.1, ih new.2, List.cons_append]

private theorem Lists.lt_of_mem (lists : Lists config made engine) (mem : layout ∈ made) :
    layout.id < made.length + 1 := by
  have id := List.mem_map_of_mem (f := Layout.id) mem
  rw [lists.numbered, List.mem_range'_1] at id
  omega

private theorem Lists.created (lists : Lists config made engine)
    (done : engine.createTable spec = .ok (layout, engine')) :
    Lists config (made ++ [layout]) engine' := by
  obtain ⟨-, new, -, same, rfl⟩ := createTable_eq_ok.1 done
  have id : layout.id = made.length + 1 := by rw [same, ← lists.counted]; rfl
  have name : layout.name = spec.name := by rw [same]; rfl
  constructor
  case limits => exact lists.limits
  case layouts =>
    change engine.catalog.layouts ++ [layout] = _
    rw [lists.layouts]
  case counted =>
    change layout.id = _
    rw [id, List.length_append, List.length_singleton]
  case numbered =>
    rw [List.map_append, lists.numbered, List.length_append, List.length_singleton,
      List.range'_concat, Nat.one_mul, List.map_singleton, id, Nat.add_comm 1]
  case apart =>
    rw [List.map_append, List.map_singleton, List.nodup_append]
    refine ⟨lists.apart, List.nodup_singleton _, ?_⟩
    intro a old b last
    obtain ⟨other, mem, rfl⟩ := List.mem_map.1 old
    rw [List.mem_singleton.1 last, name]
    exact new other (lists.layouts ▸ mem)
  case heaps =>
    change putHeap layout.id {} engine.heaps = _
    rw [putHeap_of_new, lists.heaps, List.map_append, List.map_singleton]
    intro e mem
    rw [lists.heaps] at mem
    obtain ⟨other, old, rfl⟩ := List.mem_map.1 mem
    have below := lists.lt_of_mem old
    change other.id ≠ layout.id
    omega

theorem lists_createAll (config : Config) (specs : List TableSpec) :
    Lists config (createAll config specs).1 (createAll config specs).2 := by
  induction specs using List.reverseRecOn with
  | nil => exact ⟨rfl, rfl, rfl, rfl, List.nodup_nil, rfl⟩
  | append_singleton past spec ih =>
    rw [createAll_append_singleton]
    unfold createNext
    split
    case h_1 layout engine done => exact ih.created done
    case h_2 => exact ih

private theorem Lists.find?_iff (lists : Lists config made engine) {name : String} :
    engine.catalog.find? name = some layout ↔ layout ∈ made ∧ layout.name = name := by
  unfold Catalog.find?
  rw [lists.layouts]
  exact find?_eq_some_of_nodup lists.apart

private theorem Lists.findById?_iff (lists : Lists config made engine) {id : Nat} :
    engine.catalog.findById? id = some layout ↔ layout ∈ made ∧ layout.id = id := by
  unfold Catalog.findById?
  rw [lists.layouts]
  apply find?_eq_some_of_nodup
  rw [lists.numbered]
  exact List.nodup_range' 1

private theorem Lists.lookup_heaps (lists : Lists config made engine) (mem : layout ∈ made) :
    ∃ heap, engine.heaps.lookup layout.id = some heap := by
  rw [lists.heaps]
  clear lists
  induction made with
  | nil => cases mem
  | cons first rest ih =>
    rw [List.map_cons, List.lookup_cons]
    by_cases same : layout.id = first.id
    · exact ⟨{}, by rw [same, beq_self_eq_true]⟩
    · rw [beq_false_of_ne same]
      apply ih
      exact (List.mem_cons.1 mem).resolve_left fun eq => same (by rw [eq])

private theorem Lists.findTable_eq (lists : Lists config made engine) (name : String) :
    engine.findTable name =
      match engine.catalog.find? name with
      | some layout => .ok layout
      | none => .error (.tableNotFound name) := by
  unfold findTable
  cases found : engine.catalog.find? name with
  | none => rfl
  | some layout =>
    obtain ⟨heap, set⟩ := lists.lookup_heaps (lists.find?_iff.1 found).1
    dsimp only
    rw [set]

private theorem Lists.findTable_eq_ok (lists : Lists config made engine) {name : String} :
    engine.findTable name = .ok layout ↔ layout ∈ made ∧ layout.name = name := by
  rw [lists.findTable_eq, ← lists.find?_iff]
  cases engine.catalog.find? name <;> simp

private theorem Lists.findTable_of_unknown (lists : Lists config made engine) {name : String}
    (unknown : ∀ layout ∈ made, layout.name ≠ name) :
    engine.findTable name = .error (.tableNotFound name) := by
  rw [lists.findTable_eq]
  cases found : engine.catalog.find? name with
  | none => rfl
  | some layout =>
    obtain ⟨mem, named⟩ := lists.find?_iff.1 found
    exact absurd named (unknown layout mem)

private theorem Lists.createTable_iff (lists : Lists config made engine) :
    (∃ layout engine', engine.createTable spec = .ok (layout, engine')) ↔
      spec.Accepted ∧ totalWidth spec.columns ≤ config.maxRecordSize ∧
        ∀ layout ∈ made, layout.name ≠ spec.name := by
  rw [← lists.limits, ← lists.layouts]
  constructor
  · rintro ⟨layout, engine', done⟩
    obtain ⟨narrow, new, accepted, -⟩ := createTable_eq_ok.1 done
    exact ⟨accepted, narrow, new⟩
  · rintro ⟨accepted, narrow, new⟩
    exact ⟨_, _, createTable_eq_ok.2 ⟨narrow, new, accepted, rfl, rfl⟩⟩

/-- After any attempts to create tables in a new store, the next attempt succeeds just when the widths
together are a size within the limit, table and columns are named and given, the name is not that of
a table created before, the column names are apart and the widths suit the types. The table then has
the next number, and an attempt that fails leaves everything as it was. The catalog lists the tables
created in order, the last number given out counts them, and each of them and no other is found by
its name and by its number. -/
theorem creations_exact (config : Config) (past : List TableSpec) :
    let made := (createAll config past).1
    let engine := (createAll config past).2
    (∀ spec, (∃ layout engine', engine.createTable spec = .ok (layout, engine')) ↔
      (spec.columns.map (·.width)).sum < sizeBound ∧
        (spec.columns.map (·.width)).sum ≤ config.maxRecordSize ∧ spec.name ≠ "" ∧
        spec.columns ≠ [] ∧ (∀ layout ∈ made, layout.name ≠ spec.name) ∧
        (spec.columns.map (·.name)).Nodup ∧ ∀ c ∈ spec.columns, c.Suits) ∧
      (∀ spec layout engine', engine.createTable spec = .ok (layout, engine') →
        layout.id = made.length + 1 ∧ layout.name = spec.name ∧
          layout.fields = tile 0 spec.columns ∧
          createAll config (past ++ [spec]) = (made ++ [layout], engine')) ∧
      (∀ spec fault, engine.createTable spec = .error fault →
        createAll config (past ++ [spec]) = (made, engine)) ∧
      engine.catalog.layouts = made ∧ made.map (·.id) = List.range' 1 made.length ∧
      engine.catalog.lastId = made.length ∧ engine.heaps.map (·.1) = made.map (·.id) ∧
      (∀ name layout, engine.findTable name = .ok layout ↔ layout ∈ made ∧ layout.name = name) ∧
      (∀ name, (∀ layout ∈ made, layout.name ≠ name) →
        engine.findTable name = .error (.tableNotFound name)) ∧
      (∀ name layout,
        engine.catalog.find? name = some layout ↔ layout ∈ made ∧ layout.name = name) ∧
      ∀ id layout, engine.catalog.findById? id = some layout ↔ layout ∈ made ∧ layout.id = id := by
  have lists := lists_createAll config past
  refine ⟨fun spec => ?succeeds, fun spec layout engine' done => ?created,
    fun spec fault failed => ?failed, lists.layouts, lists.numbered, lists.counted, ?heaps,
    fun _ _ => lists.findTable_eq_ok, fun _ => lists.findTable_of_unknown,
    fun _ _ => lists.find?_iff, fun _ _ => lists.findById?_iff⟩
  case succeeds =>
    rw [lists.createTable_iff, ← totalWidth_eq_sum]
    constructor
    · rintro ⟨accepted, narrow, new⟩
      exact ⟨accepted.bounded, narrow, accepted.named, accepted.inhabited, new, accepted.apart,
        accepted.suits⟩
    · rintro ⟨bounded, narrow, named, inhabited, new, apart, suits⟩
      exact ⟨⟨named, inhabited, suits, apart, bounded⟩, narrow, new⟩
  case created =>
    obtain ⟨-, -, -, same, -⟩ := createTable_eq_ok.1 done
    have listed : createAll config (past ++ [spec]) =
        ((createAll config past).1 ++ [layout], engine') := by
      rw [createAll_append_singleton, createNext, done]
    subst same
    refine ⟨?_, rfl, rfl, listed⟩
    rw [← lists.counted]
    rfl
  case failed => rw [createAll_append_singleton, createNext, failed]
  case heaps =>
    rw [lists.heaps, List.map_map]
    rfl

theorem creations_exact_after_failures :
    let past : List TableSpec := [⟨"t", [⟨"a", .int, 4⟩]⟩, ⟨"t", [⟨"b", .int, 4⟩]⟩, ⟨"u", []⟩]
    ∃ layout engine', (createAll {} past).2.createTable ⟨"u", [⟨"a", .chars, 8⟩]⟩ =
        .ok (layout, engine') ∧ layout.id = 2 ∧ engine'.findTable "u" = .ok layout := by
  intro past
  obtain ⟨succeeds, created, -⟩ := creations_exact {} past
  have suits : ∀ c ∈ [(⟨"a", .chars, 8⟩ : Schema.Column)], c.Suits := by
    intro c mem
    cases List.mem_singleton.1 mem
    exact (by decide : 2 ≤ 8)
  obtain ⟨layout, engine', done⟩ := (succeeds ⟨"u", [⟨"a", .chars, 8⟩]⟩).2
    ⟨by decide, by decide, by decide, by decide, by decide, by decide, suits⟩
  obtain ⟨id, name, -, next⟩ := created _ layout engine' done
  refine ⟨layout, engine', done, id, ?_⟩
  obtain ⟨-, -, -, -, -, -, -, found, -⟩ :=
    creations_exact {} (past ++ [⟨"u", [⟨"a", .chars, 8⟩]⟩])
  rw [next] at found
  exact (found "u" layout).2 ⟨List.mem_append_right _ List.mem_cons_self, name⟩

end Engine

end RowStore
