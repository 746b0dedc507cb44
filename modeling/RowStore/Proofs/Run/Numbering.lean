/- RowStore/Proofs/Run/Numbering
   role: theorems
   digest: The rows of a table are numbered in the order of their insertion, and no id is given twice. -/

import Mathlib.Data.List.Sort
import RowStore.Proofs.Engine.Creation
import RowStore.Proofs.Row.Id
import RowStore.Proofs.Run.Growth
import RowStore.Proofs.Run.Scanning
import RowStore.Run.Action

set_option autoImplicit false
set_option relaxedAutoImplicit false

namespace RowStore

open RowStore.Row (Record RowId)
open RowStore.Schema (Layout TableSpec)
open RowStore.Text (Bytes)
open RowStore.Transaction (Timestamp Touch TxnId View)

namespace Row.RowId

/-- The ids of the first numbers, as far as they have one. -/
def firstIds (rowsPerPage count : Nat) : List RowId :=
  (List.range count).filterMap fun number => ofSequence number rowsPerPage

theorem firstIds_succ (rowsPerPage count : Nat) :
    firstIds rowsPerPage (count + 1) =
      firstIds rowsPerPage count ++ (ofSequence count rowsPerPage).toList := by
  unfold firstIds
  rw [List.range_succ, List.filterMap_append]
  cases place : ofSequence count rowsPerPage with
  | none => simp only [List.filterMap_cons, List.filterMap_nil, place, Option.toList_none]
  | some id => simp only [List.filterMap_cons, List.filterMap_nil, place, Option.toList_some]

theorem firstIds_increasing (rowsPerPage count : Nat) :
    (firstIds rowsPerPage count).Pairwise (· < ·) := by
  apply List.Pairwise.filterMap _ _ List.pairwise_lt_range
  intro number later lt id place other place'
  exact lt_of_ofSequence place place' lt

theorem not_mem_firstIds {rowsPerPage count : Nat} {id : RowId}
    (place : ofSequence count rowsPerPage = some id) : id ∉ firstIds rowsPerPage count := by
  intro mem
  obtain ⟨number, below, place'⟩ := List.mem_filterMap.1 mem
  exact Nat.ne_of_lt (List.mem_range.1 below) (ofSequence_injective place' place)

theorem ofSequence_eq_none {sequence rowsPerPage : Nat} (pages : 0 < rowsPerPage) :
    ofSequence sequence rowsPerPage = none ↔
      0x100000000 ≤ sequence / rowsPerPage ∨ 0x100000000 ≤ sequence % rowsPerPage := by
  unfold ofSequence
  dsimp only
  split
  case isTrue fits => exact iff_of_false nofun (by omega)
  case isFalse unfit => exact iff_of_true rfl (by omega)

theorem lt_of_not_lt {id last other : RowId} (reached : ¬ last < id) (behind : last < other) :
    id < other :=
  Nat.lt_of_le_of_lt (Nat.not_lt.1 reached) behind

instance : Std.Irrefl (α := RowId) (· < ·) := ⟨lt_irrefl⟩

instance : Std.Antisymm (α := RowId) (· < ·) :=
  ⟨fun a _ lt gt => absurd (lt_trans lt gt) (lt_irrefl a)⟩

/-- Increasing ids stand in the same order in any increasing list that has all of them. -/
theorem sublist_of_subset {ids others : List RowId} (increasing : ids.Pairwise (· < ·))
    (increasing' : others.Pairwise (· < ·)) (subset : others ⊆ ids) : others.Sublist ids :=
  List.sublist_of_subperm_of_pairwise (List.subperm_of_subset increasing'.nodup subset) increasing'
    increasing

end Row.RowId

namespace Run

variable {config : Config} {table : Nat} {past : List Insertion} {state : State} {action : Action}
  {insertion : Insertion} {engine old new : Engine} {layout : Layout} {data : Bytes}
  {answer : Except Fault RowId}

theorem State.insertion?_eq_some (attempt : state.insertion? table action = some insertion) :
    ∃ layout ∈ state.engine.catalog.layouts, ∃ data, layout.id = table ∧
      insertion.sized = decide (data.length = layout.recordSize) ∧
      Engine.Inserts layout data state.engine insertion.answer (state.act action).engine := by
  unfold State.insertion? at attempt
  split at attempt
  case h_1 h named data =>
    split at attempt
    case isTrue known =>
      obtain ⟨rfl, known⟩ := known
      obtain ⟨layout, found, rfl⟩ := Option.map_eq_some_iff.1 attempt
      refine ⟨layout, List.mem_of_find?_eq_some found, data, by simpa using List.find?_some found,
        rfl, ?_⟩
      rw [State.act, State.step, onTable_of_found (of_decide_eq_true known) found, engine_attempt]
      exact Engine.inserts_insert state.engine h layout data
    case isFalse => cases attempt
  case h_2 txn named data =>
    split at attempt
    case isTrue own =>
      subst own
      obtain ⟨layout, found, rfl⟩ := Option.map_eq_some_iff.1 attempt
      refine ⟨layout, List.mem_of_find?_eq_some found, data, by simpa using List.find?_some found,
        rfl, ?_⟩
      rw [State.act, State.withTable, found]
      exact Engine.inserts_insertRow state.engine txn layout data
    case isFalse => cases attempt
  case h_3 => cases attempt

/-- Apart from insertions into the table and the creation of tables, no call adds a row. -/
theorem State.step_cases (state : State) (table : Nat) (call : Call)
    (other : call.isInsertInto table = false) :
    Engine.AddsNoRow table state.engine (state.step call).engine ∨
      ∃ spec layout, state.engine.createTable spec = .ok (layout, (state.step call).engine) := by
  have tabled (h : HandleId) (named : Nat) (act : Layout → State)
      (acts : ∀ layout : Layout, layout.id = named →
        Engine.AddsNoRow table state.engine (act layout).engine) :
      Engine.AddsNoRow table state.engine (state.onTable h named act).engine :=
    onTable_cases (P := fun new => Engine.AddsNoRow table state.engine new.engine)
      (.refl table state.engine) fun _ layout _ named => acts layout named
  have unchanged {engine : Engine} (same : Engine.SameRows state.engine engine) :
      Engine.AddsNoRow table state.engine engine := same.addsNoRow table
  have idle := unchanged (.refl state.engine)
  cases call with
  | createTable spec =>
    simp only [State.step]
    split
    case h_1 layout engine created => exact .inr ⟨spec, layout, created⟩
    case h_2 => exact .inl idle
  | newHandle | viewNow | recordLock => exact .inl (unchanged ⟨rfl, rfl, rfl⟩)
  | start h =>
    simp only [State.step]
    split
    · exact .inl (unchanged (state.engine.sameRows_ensureStarted h))
    · exact .inl idle
  | insert h named data =>
    refine .inl (tabled h named _ fun layout own => ?_)
    rw [engine_attempt]
    exact (Engine.inserts_insert state.engine h layout data).addsNoRow
      (own ▸ of_decide_eq_false other)
  | replace h named row data =>
    refine .inl (tabled h named _ fun layout _ => ?_)
    rw [engine_attempt]
    exact state.engine.addsNoRow_replace h layout row data table
  | delete h named row =>
    refine .inl (tabled h named _ fun layout _ => ?_)
    rw [engine_attempt]
    exact state.engine.addsNoRow_delete h layout row table
  | commit h => exact .inl (state.engine.addsNoRow_commit h table)
  | rollback h => exact .inl (state.engine.addsNoRow_rollback h table)
  | viewOf h =>
    simp only [State.step]
    split
    · exact .inl (unchanged (state.engine.sameRows_readView h))
    · exact .inl idle
  | copyView | dropView =>
    simp only [State.step]
    split
    · exact .inl (unchanged ⟨rfl, rfl, rfl⟩)
    · exact .inl idle
  | openScan h named mode =>
    refine .inl (tabled h named _ fun layout _ => ?_)
    exact unchanged (Scanner.sameRows_start { layout, handle := h, mode } state.engine)
  | advance i =>
    simp only [State.step]
    split
    · exact .inl idle
    · exact .inl (unchanged (Scanner.sameRows_next _ _))
  | closeScan i =>
    simp only [State.step]
    split
    · exact .inl idle
    · exact .inl (unchanged (Scanner.sameRows_releaseView _ _))
  | checkLock h page mode =>
    simp only [State.step]
    split
    case h_1 engine checked =>
      obtain ⟨locks, rfl⟩ := Engine.checkLock_eq_ok checked
      exact .inl (unchanged ⟨rfl, rfl, rfl⟩)
    case h_2 => exact .inl idle

theorem State.act_cases (idle : state.insertion? table action = none) :
    Engine.AddsNoRow table state.engine (state.act action).engine ∨
      ∃ spec layout, state.engine.createTable spec = .ok (layout, (state.act action).engine) := by
  have tabled (named : Nat) (change : Layout → Engine)
      (changes : ∀ layout : Layout, layout.id = named →
        Engine.AddsNoRow table state.engine (change layout)) :
      Engine.AddsNoRow table state.engine (state.withTable named change).engine := by
    unfold State.withTable
    split
    case h_1 layout found => exact changes layout (by simpa using List.find?_some found)
    case h_2 => exact .refl table state.engine
  have kept {result : Except Fault Engine}
      (changes : ∀ engine, result = .ok engine → Engine.AddsNoRow table state.engine engine) :
      Engine.AddsNoRow table state.engine (state.keeping result) := by
    cases result with
    | ok engine => exact changes engine rfl
    | error fault => exact .refl table state.engine
  cases action with
  | call call =>
    cases into : call.isInsertInto table with
    | false => exact state.step_cases table call into
    | true =>
      cases call with
      | insert h named data =>
        have own : named = table := of_decide_eq_true into
        subst own
        have same : state.act (.call (.insert h named data)) = state := by
          rw [State.act, State.step, State.onTable]
          split
          case isTrue known =>
            rw [State.insertion?, if_pos ⟨rfl, known⟩, Option.map_eq_none_iff] at idle
            rw [idle]
          case isFalse => rfl
        rw [same]
        exact .inl (.refl named state.engine)
      | _ => cases into
  | reopenScan i =>
    simp only [State.act]
    split
    · exact .inl (.refl table state.engine)
    · exact .inl ((Scanner.sameRows_start _ _).addsNoRow table)
  | operate h operator use => exact .inl (operator.perform_addsNoRow state.engine use)
  | execute h statement => exact .inl (state.engine.addsNoRow_execute h statement table)
  | beginTxn =>
    have same : Engine.SameRows state.engine state.engine.beginTxn.2 := ⟨rfl, rfl, rfl⟩
    exact .inl (same.addsNoRow table)
  | insertRow txn named data =>
    by_cases own : named = table
    · subst own
      rw [State.insertion?, if_pos rfl, Option.map_eq_none_iff] at idle
      rw [State.act, State.withTable, idle]
      exact .inl (.refl named state.engine)
    · refine .inl (tabled named _ fun layout same => ?_)
      exact (Engine.inserts_insertRow state.engine txn layout data).addsNoRow (same ▸ own)
  | replaceRow txn named row data =>
    exact .inl (tabled named _ fun layout _ => kept fun engine done =>
      Engine.addsNoRow_replaceRow done table)
  | deleteRow txn named row =>
    exact .inl (tabled named _ fun layout _ => kept fun engine done =>
      Engine.addsNoRow_deleteRow done table)
  | commitTxn txn => exact .inl (state.engine.addsNoRow_commitTxn txn table)
  | rollbackTxn txn => exact .inl (state.engine.addsNoRow_rollbackTxn txn table)
  | withdrawRow txn row => exact .inl (state.engine.addsNoRow_withdrawRow txn row table)
  | purgeRow horizon row => exact .inl (state.engine.addsNoRow_purgeRow horizon row table)

namespace Insertion

theorem ids_append (past later : List Insertion) : ids (past ++ later) = ids past ++ ids later :=
  List.filterMap_append

theorem sizedCount_append (past later : List Insertion) :
    sizedCount (past ++ later) = sizedCount past + sizedCount later :=
  List.countP_append

theorem sizedCount_append_singleton (past : List Insertion) (sized : Bool)
    (answer : Except Fault RowId) :
    sizedCount (past ++ [⟨sized, answer⟩]) =
      if sized = true then sizedCount past + 1 else sizedCount past := by
  rw [sizedCount_append]
  cases sized <;> rfl

theorem sizedCount_le_length (past : List Insertion) : sizedCount past ≤ past.length :=
  List.countP_le_length

end Insertion

open Insertion

/-- What the attempts made so far to insert rows into a table say of the store: how many numbers are
used up, which ids have been given to them, and that no other row of the table has versions. -/
structure Numbered (config : Config) (table : Nat) (past : List Insertion) (engine : Engine) :
    Prop where
  limits : engine.config = config
  listed : ∀ layout ∈ engine.catalog.layouts, layout.id ≤ engine.catalog.lastId
  unlisted : engine.catalog.lastId < table → past = []
  counted : engine.nextSequence table = sizedCount past
  issued : ids past = RowId.firstIds config.rowsPerPage (sizedCount past)
  stored : ∀ row, engine.chain ⟨table, row⟩ ≠ [] → row ∈ ids past

namespace Numbered

theorem initial (config : Config) (table : Nat) :
    Numbered config table [] (initial config).engine where
  limits := rfl
  listed := List.forall_mem_nil _
  unlisted _ := rfl
  counted := rfl
  issued := rfl
  stored _ present := absurd rfl present

theorem addsNoRow (numbered : Numbered config table past old)
    (adds : Engine.AddsNoRow table old new) : Numbered config table past new where
  limits := adds.config.trans numbered.limits
  listed := by
    rw [adds.catalog]
    exact numbered.listed
  unlisted := by
    rw [adds.catalog]
    exact numbered.unlisted
  counted := adds.sequence.trans numbered.counted
  issued := numbered.issued
  stored row present := numbered.stored row (mt (adds.absent row) present)

theorem createTable {spec : TableSpec} (numbered : Numbered config table past old)
    (created : old.createTable spec = .ok (layout, new)) : Numbered config table past new := by
  obtain ⟨-, -, -, rfl, rfl⟩ := Engine.createTable_eq_ok.1 created
  have id : (spec.layout (old.catalog.lastId + 1)).id = old.catalog.lastId + 1 := rfl
  have begins (own : table = old.catalog.lastId + 1) : past = [] :=
    numbered.unlisted (own ▸ Nat.lt_succ_self _)
  constructor
  case limits => exact numbered.limits
  case listed =>
    intro layout mem
    rcases List.mem_append.1 mem with before | now
    · exact Nat.le_succ_of_le (numbered.listed layout before)
    · rw [List.mem_singleton.1 now]
  case unlisted =>
    intro after
    exact numbered.unlisted (Nat.lt_of_succ_lt after)
  case counted =>
    refine (Engine.nextSequence_setHeap old _ table {}).trans ?_
    rw [id]
    split
    case isTrue own => rw [begins own]; rfl
    case isFalse => exact numbered.counted
  case issued => exact numbered.issued
  case stored =>
    intro row present
    apply numbered.stored
    have chain : (old.setHeap (spec.layout (old.catalog.lastId + 1)).id {}).chain ⟨table, row⟩ ≠ [] :=
      present
    rw [Engine.chain_setHeap] at chain
    split at chain
    case isTrue => exact absurd rfl chain
    case isFalse => exact chain

/-- An attempt that is made uses up the next number, if the bytes have the right length, and gives the
row the id of that number, if it has one. -/
theorem inserts (numbered : Numbered config table past old)
    (mem : layout ∈ old.catalog.layouts) (own : layout.id = table)
    (few : past.length + 1 < 0x10000000000000000)
    (inserts : Engine.Inserts layout data old answer new) :
    Numbered config table (past ++ [⟨decide (data.length = layout.recordSize), answer⟩]) new := by
  subst own
  obtain ⟨limits, catalog, sequence⟩ := inserts.keeps
  have below := sizedCount_le_length past
  have count (sized : data.length = layout.recordSize) :
      sizedCount (past ++ [⟨decide (data.length = layout.recordSize), answer⟩]) =
        sizedCount past + 1 := by
    rw [sizedCount_append_singleton, if_pos (decide_eq_true sized)]
  constructor
  case limits => exact limits.trans numbered.limits
  case listed =>
    rw [catalog]
    exact numbered.listed
  case unlisted =>
    rw [catalog]
    exact fun unlisted => absurd unlisted (Nat.not_lt.2 (numbered.listed layout mem))
  case counted =>
    rw [sequence, numbered.counted, sizedCount_append_singleton]
    -- The counter has 64 bits and has counted no more than the attempts.
    by_cases sized : data.length = layout.recordSize
    · rw [if_pos ⟨rfl, sized⟩, if_pos (decide_eq_true sized)]
      exact Nat.mod_eq_of_lt (by omega)
    · rw [if_neg (sized ·.2), if_neg (by simpa using sized)]
  case issued =>
    have number : old.nextSequence layout.id = sizedCount past := numbered.counted
    cases answer with
    | ok row =>
      obtain ⟨sized, place⟩ := inserts.place
      rw [number, numbered.limits] at place
      rw [count sized, RowId.firstIds_succ, place, ids_append, numbered.issued]
      rfl
    | error fault =>
      rw [ids_append, numbered.issued]
      by_cases sized : data.length = layout.recordSize
      · -- The number is used up all the same, but it has no id to give.
        have unplaced := (inserts.refused_iff sized).1 ⟨fault, rfl⟩
        rw [number, numbered.limits] at unplaced
        rw [count sized, RowId.firstIds_succ, unplaced]
        rfl
      · rw [sizedCount_append_singleton, if_neg (by simpa using sized)]
        exact List.append_nil _
  case stored =>
    intro row present
    rw [ids_append]
    cases answer with
    | ok inserted =>
      by_cases same : row = inserted
      · subst same
        exact List.mem_append_right _ List.mem_cons_self
      · rw [inserts.chain (by simpa using same)] at present
        exact List.mem_append_left _ (numbered.stored row present)
    | error fault =>
      rw [inserts.chain_of_error] at present
      exact List.mem_append_left _ (numbered.stored row present)

theorem act (numbered : Numbered config table past state.engine) (action : Action)
    (few : (past ++ (state.insertion? table action).toList).length < 0x10000000000000000) :
    Numbered config table (past ++ (state.insertion? table action).toList)
      (state.act action).engine := by
  cases attempt : state.insertion? table action with
  | none =>
    rw [Option.toList_none, List.append_nil]
    rcases State.act_cases attempt with adds | ⟨spec, layout, created⟩
    · exact numbered.addsNoRow adds
    · exact numbered.createTable created
  | some insertion =>
    obtain ⟨sized, answer⟩ := insertion
    obtain ⟨layout, mem, data, own, rfl, inserts⟩ := State.insertion?_eq_some attempt
    rw [attempt, Option.toList_some, List.length_append, List.length_singleton] at few
    exact numbered.inserts mem own few inserts

theorem refused_iff (numbered : Numbered config table past state.engine)
    (pages : 0 < config.rowsPerPage) (attempt : state.insertion? table action = some insertion)
    (sized : insertion.sized = true) :
    (∃ fault, insertion.answer = .error fault) ↔
      0x100000000 ≤ sizedCount past / config.rowsPerPage ∨
        0x100000000 ≤ sizedCount past % config.rowsPerPage := by
  obtain ⟨layout, -, data, rfl, sized', inserts⟩ := State.insertion?_eq_some attempt
  have fits : data.length = layout.recordSize := of_decide_eq_true (sized'.symm.trans sized)
  rw [inserts.refused_iff fits, numbered.counted, numbered.limits, RowId.ofSequence_eq_none pages]

theorem placed (numbered : Numbered config table past state.engine) {row : RowId}
    (attempt : state.insertion? table action = some insertion)
    (done : insertion.answer = .ok row) :
    row.page.toNat = sizedCount past / config.rowsPerPage ∧
      row.slot.toNat = sizedCount past % config.rowsPerPage ∧
      state.engine.chain ⟨table, row⟩ = [] ∧
      ∀ t, t ≠ ⟨table, row⟩ → (state.act action).engine.chain t = state.engine.chain t := by
  obtain ⟨layout, -, data, rfl, -, inserts⟩ := State.insertion?_eq_some attempt
  rw [done] at inserts
  obtain ⟨-, place⟩ := inserts.place
  rw [numbered.counted, numbered.limits] at place
  obtain ⟨-, page, slot⟩ := RowId.ofSequence_eq_some.1 place
  refine ⟨page, slot, ?_, fun t other => inserts.chain other⟩
  by_contra present
  have given := numbered.stored row present
  rw [numbered.issued] at given
  exact RowId.not_mem_firstIds place given

end Numbered

def Scan.advanced (engine : Engine) (scan : Scan) : Scan :=
  ⟨(scan.scanner.next engine).2.1, scan.returned ++
    match (scan.scanner.next engine).1 with
    | .ok record => record.toList
    | .error _ => []⟩

/-- What an action can do to a scan: it opens it, leaves it alone, advances it or closes it. -/
inductive State.ScanStep (state : State) (i : Nat) : Scan → Prop
  | opened (scanner : Scanner) (engine : Engine) : ScanStep state i ⟨(scanner.start engine).1, []⟩
  | kept {scan : Scan} (before : state.scans[i]? = some scan) : ScanStep state i scan
  | advanced {old : Scan} (before : state.scans[i]? = some old) :
      ScanStep state i (old.advanced state.engine)
  | closed {old : Scan} (before : state.scans[i]? = some old) :
      ScanStep state i ⟨(old.scanner.close state.engine).1, old.returned⟩

theorem State.scanStep_act {i : Nat} {scan : Scan}
    (found : (state.act action).scans[i]? = some scan) : state.ScanStep i scan := by
  have same (kept : (state.act action).scans = state.scans) : state.ScanStep i scan :=
    .kept (kept ▸ found)
  have modified {j : Nat} {new : Scan}
      (moved : (state.act action).scans = state.scans.modify j fun _ => new)
      (here : state.ScanStep j new) : state.ScanStep i scan := by
    rw [moved, Array.getElem?_modify] at found
    split at found
    case isTrue at' =>
      subst at'
      obtain ⟨old, -, rfl⟩ := Option.map_eq_some_iff.1 found
      exact here
    case isFalse => exact .kept found
  cases action with
  | call call =>
    cases call with
    | openScan h table mode =>
      apply onTable_cases (P := fun new => new.scans[i]? = some scan → state.ScanStep i scan) _ _
        found
      · exact .kept
      · intro _ layout _ _ found
        dsimp only at found
        rw [Array.getElem?_push] at found
        split at found
        case isTrue =>
          cases found
          exact .opened _ _
        case isFalse => exact .kept found
    | advance j =>
      cases at' : state.scans[j]? with
      | none => exact same (by simp only [State.act, State.step, at'])
      | some old =>
        refine modified ?_ (.advanced at')
        simp only [State.act, State.step]
        split
        case h_1 absent => cases absent.symm.trans at'
        case h_2 scan' found' =>
          cases found'.symm.trans at'
          rfl
    | closeScan j =>
      cases at' : state.scans[j]? with
      | none => exact same (by simp only [State.act, State.step, at'])
      | some old => exact modified (by simp only [State.act, State.step, at']) (.closed at')
    | _ => exact same (scans_step_of_other state rfl)
  | reopenScan j =>
    cases at' : state.scans[j]? with
    | none => exact same (by simp only [State.act, at'])
    | some old =>
      have opened : state.ScanStep j ⟨(old.scanner.start state.engine).1, []⟩ := .opened _ _
      refine modified ?_ opened
      simp only [State.act, at']
  | insertRow | replaceRow | deleteRow =>
    refine same ?_
    simp only [State.act, State.withTable]
    split <;> rfl
  | operate | execute | beginTxn | commitTxn | rollbackTxn | withdrawRow | purgeRow => exact same rfl

/-- The scan has returned one row more, which lies behind the one it stood at and has versions, or it
has returned what it had before and stands where it stood. -/
def Continues (engine : Engine) (old new : Scan) : Prop :=
  new.scanner.layout = old.scanner.layout ∧
    (new.returned = old.returned ∧ new.scanner.cursor = old.scanner.cursor ∨
      ∃ record, engine.chain ⟨old.scanner.layout.id, record.id⟩ ≠ [] ∧
        (∀ last, old.scanner.cursor = some last → last < record.id) ∧
        new.returned = old.returned ++ [record] ∧ new.scanner.cursor = some record.id)

theorem continues_advanced (engine : Engine) (scan : Scan) :
    Continues engine scan (scan.advanced engine) := by
  unfold Scan.advanced
  cases shows : scan.scanner.view with
  | none =>
    have stays : scan.scanner.next engine =
        (.error (.lapse .scannerClosed), scan.scanner, engine) := by
      unfold Scanner.next
      rw [shows]
    rw [stays]
    exact ⟨rfl, .inl ⟨List.append_nil _, rfl⟩⟩
  | some view =>
    obtain ⟨page, engine', next⟩ : ∃ page engine', scan.scanner.next engine = _ :=
      Scanner.next_of_open shows
    rw [next]
    refine ⟨rfl, ?_⟩
    dsimp only
    cases found : (engine.heap scan.scanner.layout.id).next engine.stamps view
        scan.scanner.cursor with
    | none => exact .inl ⟨List.append_nil _, rfl⟩
    | some record =>
      rw [Table.Heap.next_eq_head?] at found
      have listed := List.mem_of_head? found
      exact .inr ⟨record, Table.Heap.occupied_of_mem_ahead listed,
        (Table.Heap.mem_ahead.1 listed).1, rfl, rfl⟩

theorem State.scan_act {i : Nat} {scan : Scan} (found : (state.act action).scans[i]? = some scan) :
    scan.returned = [] ∨ ∃ old, state.scans[i]? = some old ∧ Continues state.engine old scan := by
  cases State.scanStep_act found with
  | opened => exact .inl rfl
  | kept before => exact .inr ⟨scan, before, rfl, .inl ⟨rfl, rfl⟩⟩
  | advanced before => exact .inr ⟨_, before, continues_advanced state.engine _⟩
  | closed before => exact .inr ⟨_, before, rfl, .inl ⟨rfl, rfl⟩⟩

/-- What a scan has returned lies in increasing order and not behind the row at which it stands, and
all of it are rows with given ids. -/
structure Scanned (given : List RowId) (scan : Scan) : Prop where
  increasing : (scan.returned.map (·.id)).Pairwise (· < ·)
  passed : ∀ record ∈ scan.returned, ∃ last, scan.scanner.cursor = some last ∧ ¬ last < record.id
  given : scan.returned.map (·.id) ⊆ given

namespace Scanned

theorem of_nothing (given : List RowId) {scan : Scan} (nothing : scan.returned = []) :
    Scanned given scan where
  increasing := by
    rw [nothing]
    exact List.Pairwise.nil
  passed := by
    rw [nothing]
    exact List.forall_mem_nil _
  given := by
    rw [nothing]
    exact List.nil_subset given

theorem continues {given more : List RowId} {old new : Scan} (scanned : Scanned given old)
    (goes : Continues engine old new)
    (stored : ∀ row, engine.chain ⟨old.scanner.layout.id, row⟩ ≠ [] → row ∈ given)
    (grows : given ⊆ more) : Scanned more new := by
  obtain ⟨-, ⟨returned, cursor⟩ | ⟨record, present, behind, returned, cursor⟩⟩ := goes
  · refine ⟨?_, ?_, ?_⟩
    · rw [returned]
      exact scanned.increasing
    · rw [returned, cursor]
      exact scanned.passed
    · rw [returned]
      exact fun id mem => grows (scanned.given mem)
  · have above : ∀ earlier ∈ old.returned, earlier.id < record.id := by
      intro earlier mem
      obtain ⟨last, stands, passed⟩ := scanned.passed earlier mem
      exact RowId.lt_of_not_lt passed (behind last stands)
    constructor
    case increasing =>
      rw [returned, List.map_append, List.pairwise_append]
      refine ⟨scanned.increasing, List.pairwise_singleton _ _, ?_⟩
      intro id mem last now
      obtain ⟨earlier, before, rfl⟩ := List.mem_map.1 mem
      rw [List.mem_singleton.1 now]
      exact above earlier before
    case passed =>
      intro earlier mem
      refine ⟨record.id, cursor, ?_⟩
      rw [returned] at mem
      rcases List.mem_append.1 mem with before | now
      · exact fun lt => RowId.lt_irrefl _ (RowId.lt_trans lt (above earlier before))
      · rw [List.mem_singleton.1 now]
        exact RowId.lt_irrefl _
    case given =>
      rw [returned, List.map_append]
      refine List.append_subset.2 ⟨fun id mem => grows (scanned.given mem), ?_⟩
      exact List.cons_subset.2 ⟨grows (stored record.id present), List.nil_subset more⟩

end Scanned

theorem State.perform_append (state : State) (past later : List Action) :
    state.perform (past ++ later) = (state.perform past).perform later := by
  unfold State.perform
  rw [List.foldl_append]

theorem State.insertions_append (state : State) (table : Nat) (past later : List Action) :
    state.insertions table (past ++ later) =
      state.insertions table past ++ (state.perform past).insertions table later := by
  induction past generalizing state with
  | nil => rfl
  | cons action past ih =>
    rw [List.cons_append, State.insertions, State.insertions, ih, List.append_assoc]
    rfl

theorem State.insertions_append_singleton (state : State) (table : Nat) (past : List Action)
    (action : Action) :
    state.insertions table (past ++ [action]) =
      state.insertions table past ++ ((state.perform past).insertion? table action).toList := by
  rw [insertions_append, State.insertions, State.insertions, List.append_nil]

theorem numbered_perform (config : Config) (table : Nat) (actions : List Action)
    (few : ((initial config).insertions table actions).length < 0x10000000000000000) :
    Numbered config table ((initial config).insertions table actions)
      ((initial config).perform actions).engine := by
  induction actions using List.reverseRecOn with
  | nil => exact .initial config table
  | append_singleton past action ih =>
    rw [State.insertions_append_singleton] at few ⊢
    have before : ((initial config).insertions table past).length < 0x10000000000000000 := by
      rw [List.length_append] at few
      omega
    rw [State.perform_append]
    exact (ih before).act action few

theorem scanned_perform (config : Config) (table : Nat) (actions : List Action)
    (few : ((initial config).insertions table actions).length < 0x10000000000000000) :
    ∀ (i : Nat) (scan : Scan), ((initial config).perform actions).scans[i]? = some scan →
      scan.scanner.layout.id = table →
        Scanned (ids ((initial config).insertions table actions)) scan := by
  induction actions using List.reverseRecOn with
  | nil =>
    intro i scan found
    cases found
  | append_singleton past action ih =>
    intro i scan found own
    rw [State.insertions_append_singleton] at few ⊢
    have before : ((initial config).insertions table past).length < 0x10000000000000000 := by
      rw [List.length_append] at few
      omega
    rw [State.perform_append] at found
    rcases State.scan_act found with nothing | ⟨old, found', goes⟩
    · exact .of_nothing _ nothing
    · have own' : old.scanner.layout.id = table := by
        rw [← goes.1]
        exact own
      rw [ids_append]
      refine (ih before i old found' own').continues goes ?_ (List.subset_append_left _ _)
      rw [own']
      exact (numbered_perform config table past before).stored

/-- The rows of a table are numbered for ever in the order of their insertion. In any run with fewer
than `2 ^ 64` attempts to insert rows into a table, by handles and by bare transactions, and with
whatever else between them, the ids of the rows inserted are strictly increasing, so none is given
twice, not even after its row was rolled back or purged. A row is inserted where there was none and
changes no other row. Bytes of the right length are refused just if page or slot of their number do
not fit 32 bits, and an attempt that fails changes no row at all. So every scan, and every view at any
time, shows rows in the order of their insertion. -/
theorem row_ids_exact {config : Config} (pages : 0 < config.rowsPerPage) {table : Nat}
    {actions : List Action}
    (few : ((initial config).insertions table actions).length < 0x10000000000000000) :
    let inserted := ids ((initial config).insertions table actions)
    inserted.Pairwise (· < ·) ∧
    (∀ past action later insertion, actions = past ++ action :: later →
      ((initial config).perform past).insertion? table action = some insertion →
      let before := (initial config).perform past
      let number := sizedCount ((initial config).insertions table past)
      (insertion.sized = true → ((∃ fault, insertion.answer = .error fault) ↔
        0x100000000 ≤ number / config.rowsPerPage ∨
          0x100000000 ≤ number % config.rowsPerPage)) ∧
      (∀ row, insertion.answer = .ok row →
        row.page.toNat = number / config.rowsPerPage ∧
        row.slot.toNat = number % config.rowsPerPage ∧
        before.engine.chain ⟨table, row⟩ = [] ∧
        ∀ t, t ≠ ⟨table, row⟩ →
          (before.act action).engine.chain t = before.engine.chain t) ∧
      ∀ fault, insertion.answer = .error fault →
        ∀ t, (before.act action).engine.chain t = before.engine.chain t) ∧
    (∀ scan ∈ ((initial config).perform actions).scans.toList, scan.scanner.layout.id = table →
      (scan.returned.map (·.id)).Sublist inserted) ∧
    ∀ stamps view,
      ((((initial config).perform actions).engine.heap table).readAll stamps view |>.map
        (·.id)).Sublist inserted := by
  have numbered := numbered_perform config table actions few
  have increasing : (ids ((initial config).insertions table actions)).Pairwise (· < ·) := by
    rw [numbered.issued]
    exact RowId.firstIds_increasing _ _
  refine ⟨increasing, ?_, ?_, ?_⟩
  · rintro past action later insertion rfl attempt
    have before : ((initial config).insertions table past).length < 0x10000000000000000 := by
      rw [State.insertions_append, List.length_append] at few
      omega
    have numbered := numbered_perform config table past before
    refine ⟨numbered.refused_iff pages attempt, fun row => numbered.placed attempt, ?_⟩
    intro fault failed t
    obtain ⟨layout, -, data, -, -, inserts⟩ := State.insertion?_eq_some attempt
    rw [failed] at inserts
    exact inserts.chain_of_error t
  · intro scan mem own
    obtain ⟨i, found⟩ := List.mem_iff_getElem?.1 mem
    rw [Array.getElem?_toList] at found
    have scanned := scanned_perform config table actions few i scan found own
    exact RowId.sublist_of_subset increasing scanned.increasing scanned.given
  · intro stamps view
    have shown := Table.Heap.ahead_none (((initial config).perform actions).engine.heap table) stamps
      view
    have increasing' := Table.Heap.ahead_increasing
      (((initial config).perform actions).engine.heap table) stamps view none
    rw [shown] at increasing'
    apply RowId.sublist_of_subset increasing (List.pairwise_map.2 increasing')
    intro id mem
    obtain ⟨record, listed, rfl⟩ := List.mem_map.1 mem
    rw [← shown] at listed
    exact numbered.stored record.id (Table.Heap.occupied_of_mem_ahead listed)

/-- Rows inserted by a handle and by a bare transaction into pages of two. The first one is rolled
back, the second one is deleted and purged, and one attempt has bytes of the wrong length. -/
def mixedInsertions : List Action :=
  [.call (.createTable ⟨"t", [⟨"a", .int, 4⟩]⟩), .call .newHandle,
    .call (.insert 0 1 [1, 0, 0, 0]), .call (.rollback 0),
    .beginTxn, .insertRow 1 1 [2, 0, 0, 0], .commitTxn 1,
    .call (.insert 0 1 [3]), .call (.insert 0 1 [3, 0, 0, 0]),
    .call (.delete 0 1 ⟨0, 1⟩), .call (.commit 0), .purgeRow 4 ⟨1, ⟨0, 1⟩⟩,
    .call (.openScan 0 1 .readOnly), .call (.advance 0),
    .insertRow 1 1 [4, 0, 0, 0], .call (.advance 0)]

theorem row_ids_exact_mixed :
    let run := (initial { rowsPerPage := 2 }).perform mixedInsertions
    let inserted := ids ((initial { rowsPerPage := 2 }).insertions 1 mixedInsertions)
    inserted = [⟨0, 0⟩, ⟨0, 1⟩, ⟨1, 0⟩, ⟨1, 1⟩] ∧ inserted.Pairwise (· < ·) ∧
      run.engine.chain ⟨1, ⟨0, 0⟩⟩ = [] ∧ run.engine.chain ⟨1, ⟨0, 1⟩⟩ = [] ∧
      ∃ scan ∈ run.scans.toList, scan.returned.map (·.id) = [⟨1, 0⟩, ⟨1, 1⟩] ∧
        (scan.returned.map (·.id)).Sublist inserted := by
  intro run inserted
  obtain ⟨increasing, -, scans, -⟩ := row_ids_exact
    (show 0 < Config.rowsPerPage { rowsPerPage := 2 } by decide)
    (show ((initial { rowsPerPage := 2 }).insertions 1 mixedInsertions).length <
      0x10000000000000000 by decide)
  refine ⟨by decide, increasing, by decide, by decide, ?_⟩
  have found : ∃ scan ∈ run.scans.toList, scan.scanner.layout.id = 1 ∧
      scan.returned.map (·.id) = [⟨1, 0⟩, ⟨1, 1⟩] := by decide
  obtain ⟨scan, mem, own, returned⟩ := found
  exact ⟨scan, mem, returned, scans scan mem own⟩

end Run

end RowStore
