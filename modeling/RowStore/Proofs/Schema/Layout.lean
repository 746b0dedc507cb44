/- RowStore/Proofs/Schema/Layout
   role: theorems
   digest: Which declarations are accepted, and the slots that their columns get. -/

import Mathlib.Algebra.GroupWithZero.Nat
import Mathlib.Data.List.Nodup
import RowStore.Schema.Layout

set_option autoImplicit false
set_option relaxedAutoImplicit false

namespace RowStore.Schema

variable {columns : List Column} {fields : List RowField} {f : RowField} {offset id : Nat}
  {taken : List String} {spec : TableSpec} {made : Layout}

theorem find?_eq_some_of_nodup {α κ : Type} [BEq κ] [LawfulBEq κ] {key : α → κ} {k : κ} {a : α}
    {elements : List α} (apart : (elements.map key).Nodup) :
    (elements.find? fun b => key b == k) = some a ↔ a ∈ elements ∧ key a = k := by
  constructor
  · intro found
    exact ⟨List.mem_of_find?_eq_some found, by simpa using List.find?_some found⟩
  · rintro ⟨mem, rfl⟩
    cases found : elements.find? fun b => key b == key a with
    | none =>
      have differs := List.find?_eq_none.1 found a mem
      simp at differs
    | some b =>
      have same : key b = key a := by simpa using List.find?_some found
      rw [List.inj_on_of_nodup_map apart (List.mem_of_find?_eq_some found) mem same]

/-- A number takes four bytes, a byte string at least two. -/
def Column.Suits (c : Column) : Prop :=
  match c.type with
  | .int => c.width = 4
  | .float => c.width = 4
  | .chars => 2 ≤ c.width

theorem Column.hasValidWidth_iff (c : Column) : c.hasValidWidth = true ↔ c.Suits := by
  obtain ⟨name, type, width⟩ := c
  cases type <;> simp [hasValidWidth, Suits, Cell.CellType.fixedWidth?]

def totalWidth (columns : List Column) : Nat := columns.foldr (fun c total => c.width + total) 0

@[simp]
theorem totalWidth_nil : totalWidth [] = 0 := rfl

@[simp]
theorem totalWidth_cons (c : Column) (rest : List Column) :
    totalWidth (c :: rest) = c.width + totalWidth rest := rfl

theorem totalWidth_eq_sum (columns : List Column) :
    totalWidth columns = (columns.map (·.width)).sum := by
  induction columns with
  | nil => rfl
  | cons c rest ih => rw [totalWidth_cons, ih, List.map_cons, List.sum_cons]

/-- Columns in slots back to back, from an offset on. -/
def tile (offset : Nat) : List Column → List RowField
  | [] => []
  | c :: rest => ⟨c.name, c.type, offset, c.width⟩ :: tile (offset + c.width) rest

/-- Columns are placed when their widths suit, their names are new and apart, and the last slot ends
below the bound of sizes; the slots then stand back to back. -/
theorem place_eq_ok (bounded : offset < sizeBound) :
    Layout.place offset taken columns = .ok fields ↔
      (∀ c ∈ columns, c.Suits) ∧ (columns.map (·.name)).Nodup ∧ (∀ c ∈ columns, c.name ∉ taken) ∧
        offset + totalWidth columns < sizeBound ∧ fields = tile offset columns := by
  induction columns generalizing offset taken fields with
  | nil => simp [Layout.place, tile, bounded, eq_comm]
  | cons c rest ih =>
    simp only [Layout.place, Bool.not_eq_true', List.forall_mem_cons, List.map_cons,
      List.nodup_cons, totalWidth_cons, tile]
    by_cases suits : c.Suits
    case neg =>
      have refused : c.hasValidWidth = false := by
        rw [← Bool.not_eq_true, c.hasValidWidth_iff]
        exact suits
      simp [refused, suits]
    rw [if_neg (by simp [c.hasValidWidth_iff.2 suits])]
    by_cases named : c.name ∈ taken
    case pos => simp [named]
    rw [if_neg (by simpa using named)]
    by_cases ends : sizeBound ≤ offset + c.width
    case pos =>
      have beyond : ¬ offset + (c.width + totalWidth rest) < sizeBound := by omega
      simp [ends, beyond]
    rw [if_neg ends]
    -- What is left to decide is whether the other columns can be placed behind this one.
    constructor
    · intro done
      cases rest' : Layout.place (offset + c.width) (c.name :: taken) rest with
      | error fault =>
        rw [rest'] at done
        cases done
      | ok tail =>
        obtain ⟨suit, apart, new, below, rfl⟩ := (ih (by omega)).1 rest'
        rw [rest'] at done
        cases done
        refine ⟨⟨suits, suit⟩, ⟨?_, apart⟩, ⟨named, fun d hd => ?_⟩, by omega, rfl⟩
        · intro again
          obtain ⟨d, hd, same⟩ := List.mem_map.1 again
          exact new d hd (same ▸ List.mem_cons_self)
        · exact fun old => new d hd (List.mem_cons_of_mem _ old)
    · rintro ⟨⟨-, suit⟩, ⟨once, apart⟩, ⟨-, new⟩, below, rfl⟩
      have new' : ∀ d ∈ rest, d.name ∉ c.name :: taken := by
        intro d hd
        rw [List.mem_cons, not_or]
        exact ⟨fun same => once (same ▸ List.mem_map_of_mem hd), new d hd⟩
      rw [(ih (by omega)).2 ⟨suit, apart, new', by omega, rfl⟩]
      rfl

theorem exists_of_mem_tile (mem : f ∈ tile offset columns) :
    offset ≤ f.offset ∧ f.stop ≤ offset + totalWidth columns ∧
      ∃ c ∈ columns, f.name = c.name ∧ f.type = c.type ∧ f.width = c.width := by
  induction columns generalizing offset with
  | nil => cases mem
  | cons c rest ih =>
    rw [totalWidth_cons]
    rcases List.mem_cons.1 mem with rfl | mem
    · refine ⟨Nat.le_refl _, ?_, c, List.mem_cons_self, rfl, rfl, rfl⟩
      change offset + c.width ≤ _
      omega
    · obtain ⟨lower, upper, d, hd, same⟩ := ih mem
      exact ⟨by omega, by omega, d, List.mem_cons_of_mem _ hd, same⟩

def RowField.Covers (f : RowField) (position : Nat) : Prop :=
  f.offset ≤ position ∧ position < f.stop

/-- No position lies in two slots. -/
theorem eq_of_covers_tile {g : RowField} {position : Nat} (hf : f ∈ tile offset columns)
    (hg : g ∈ tile offset columns) (cf : f.Covers position) (cg : g.Covers position) : f = g := by
  induction columns generalizing offset with
  | nil => cases hf
  | cons c rest ih =>
    have first {g : RowField} (later : g ∈ tile (offset + c.width) rest)
        (inFirst : RowField.Covers ⟨c.name, c.type, offset, c.width⟩ position) :
        ¬ g.Covers position := by
      intro inLater
      have begins : offset + c.width ≤ g.offset := (exists_of_mem_tile later).1
      have ends : position < offset + c.width := inFirst.2
      have lower : g.offset ≤ position := inLater.1
      omega
    rcases List.mem_cons.1 hf with rfl | hf
    · rcases List.mem_cons.1 hg with rfl | hg
      · rfl
      · exact absurd cg (first hg cf)
    · rcases List.mem_cons.1 hg with rfl | hg
      · exact absurd cf (first hf cg)
      · exact ih hf hg

theorem names_tile (columns : List Column) (offset : Nat) :
    (tile offset columns).map (·.name) = columns.map (·.name) := by
  induction columns generalizing offset with
  | nil => rfl
  | cons c rest ih => rw [tile, List.map_cons, List.map_cons, ih]

structure TableSpec.Accepted (spec : TableSpec) : Prop where
  named : spec.name ≠ ""
  inhabited : spec.columns ≠ []
  suits : ∀ c ∈ spec.columns, c.Suits
  apart : (spec.columns.map (·.name)).Nodup
  bounded : totalWidth spec.columns < sizeBound

def TableSpec.layout (spec : TableSpec) (id : Nat) : Layout := ⟨id, spec.name, tile 0 spec.columns⟩

theorem ofSpec_eq_ok : Layout.ofSpec id spec = .ok made ↔ spec.Accepted ∧ made = spec.layout id := by
  unfold Layout.ofSpec
  by_cases unnamed : spec.name = ""
  case pos => simpa [unnamed] using fun s : spec.Accepted => absurd unnamed s.named
  by_cases empty : spec.columns = []
  case pos => simpa [unnamed, empty] using fun s : spec.Accepted => absurd empty s.inhabited
  rw [if_neg unnamed, if_neg empty]
  constructor
  · intro done
    cases placed : Layout.place 0 [] spec.columns with
    | error fault =>
      rw [placed] at done
      cases done
    | ok fields =>
      obtain ⟨suits, apart, -, bounded, rfl⟩ := (place_eq_ok (by decide)).1 placed
      rw [placed] at done
      cases done
      exact ⟨⟨unnamed, empty, suits, apart, by omega⟩, rfl⟩
  · rintro ⟨s, rfl⟩
    have bounded := s.bounded
    rw [(place_eq_ok (by decide)).2
      ⟨s.suits, s.apart, fun _ _ => List.not_mem_nil, by omega, rfl⟩]
    rfl

theorem length_fields (spec : TableSpec) (id : Nat) :
    (spec.layout id).fields.length = spec.columns.length := by
  have names := congrArg List.length (names_tile spec.columns 0)
  rwa [List.length_map, List.length_map] at names

theorem recordSize_layout (spec : TableSpec) (id : Nat) :
    (spec.layout id).recordSize = totalWidth spec.columns := by
  have sized (columns : List Column) (offset : Nat) :
      (tile offset columns).foldr (fun f total => f.width + total) 0 = totalWidth columns := by
    induction columns generalizing offset with
    | nil => rfl
    | cons c rest ih => rw [tile, List.foldr_cons, ih, totalWidth_cons]
  exact sized spec.columns 0

/-- The slot lies within rows of a length, and has the four bytes of a number if it holds one. -/
structure RowField.Fits (f : RowField) (size : Nat) : Prop where
  inside : f.stop ≤ size
  number : f.type ≠ .chars → f.width = 4

theorem TableSpec.Accepted.fits (s : spec.Accepted) (mem : f ∈ (spec.layout id).fields) :
    f.Fits (spec.layout id).recordSize := by
  obtain ⟨-, stop, c, hc, -, type, width⟩ := exists_of_mem_tile mem
  rw [Nat.zero_add, ← recordSize_layout spec id] at stop
  refine ⟨stop, fun number => ?_⟩
  have suits := s.suits c hc
  rw [type] at number
  rw [width]
  obtain ⟨name, kind, w⟩ := c
  cases kind with
  | int => exact suits
  | float => exact suits
  | chars => exact absurd rfl number

theorem TableSpec.Accepted.field?_iff (s : spec.Accepted) {name : String} :
    (spec.layout id).field? name = some f ↔ f ∈ (spec.layout id).fields ∧ f.name = name := by
  apply find?_eq_some_of_nodup
  have names : (spec.layout id).fields.map (·.name) = spec.columns.map (·.name) :=
    names_tile spec.columns 0
  rw [names]
  exact s.apart

end RowStore.Schema
