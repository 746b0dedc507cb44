/- RowStore/Proofs/Run/Steps
   role: theorems
   digest: Every call leads from a sound state to a sound one, so every reachable state is sound. -/

import Mathlib.Data.List.Nodup
import RowStore.Proofs.Engine.Creation
import RowStore.Proofs.Run.Invariant

set_option autoImplicit false
set_option relaxedAutoImplicit false

namespace RowStore.Run

open RowStore.Row (Record RowId)
open RowStore.Schema (Layout TableSpec)
open RowStore.Text (Bytes)
open RowStore.Transaction (LockMode Registry Touch TxnId View filterMap_modify_perm
  filterMap_modify_eq filterMap_perm openBit)

variable {config : Config} {commits : Nat} {inserts : Nat → Nat} {state : State} {h : HandleId}
  {txn : TxnId} {t : Touch} {write : Write} {views : Array (Option View)} {scans : Array Scan}

namespace Quiet

theorem registry {registry : Registry} (clock : registry.clock = state.engine.registry.clock)
    (txns : registry.txns = state.engine.registry.txns)
    (active : ∀ a ∈ registry.active,
      a ∈ state.engine.registry.active ∨ a = state.engine.registry.clock) :
    Quiet state { state with engine := { state.engine with registry }, views, scans } where
  history := rfl
  unfinished := rfl
  carried _ := rfl
  limits := rfl
  catalog := rfl
  chain _ := rfl
  sequence _ := rfl
  clock := clock
  txns := txns
  active := active

theorem refl (state : State) (views : Array (Option View)) (scans : Array Scan) :
    Quiet state { state with views, scans } :=
  registry rfl rfl fun _ ha => Or.inl ha

theorem handles {handles : Array Handle}
    (running : Engine.running { state.engine with handles } = state.engine.running)
    (carried : ∀ h, (Engine.handle { state.engine with handles } h).txn =
      (state.engine.handle h).txn) {history : History} (same : history = state.history) :
    Quiet state { state with engine := { state.engine with handles }, history, views, scans } where
  history := same
  unfinished := running
  carried := carried
  limits := rfl
  catalog := rfl
  chain _ := rfl
  sequence _ := rfl
  clock := rfl
  txns := rfl
  active _ ha := Or.inl ha

theorem modifyHandle {change : Handle → Handle} (same : ∀ handle, (change handle).txn = handle.txn) :
    Quiet state { state with engine := state.engine.modifyHandle h change, views, scans } :=
  handles (Engine.running_modifyHandle state.engine h same)
    (fun other => Engine.carried_modifyHandle state.engine h other same) rfl

theorem resetHandle (idle : (state.engine.handle h).txn = none) {history : History}
    (same : history = state.history) :
    Quiet state { state with engine := state.engine.resetHandle h, history } :=
  handles (Engine.running_resetHandle_of_idle idle) (Engine.carried_resetHandle_of_idle idle) same

theorem calm {new : State} {used : List View} (q : Quiet state new)
    (covers : new.engine.registry.Covers state.unfinished used)
    (same : used.Perm new.viewsInUse) : Calm state new :=
  { q with
    covers := by
      rw [q.unfinished]
      exact covers.perm (List.Perm.refl _) same }

end Quiet

theorem viewsInUse_push_view (state : State) (engine : Engine) (view : View) :
    (view :: state.viewsInUse).Perm
      { state with engine, views := state.views.push (some view) }.viewsInUse := by
  simp only [State.viewsInUse, Array.toList_push, List.filterMap_append, List.filterMap_cons,
    List.filterMap_nil, id, List.append_assoc, List.singleton_append]
  exact List.perm_middle.symm

theorem viewsInUse_push_scan (state : State) (engine : Engine) (view : View) {scanner : Scanner}
    (opened : scanner.view = some view) :
    (view :: state.viewsInUse).Perm
      { state with engine, scans := state.scans.push ⟨scanner, []⟩ }.viewsInUse := by
  simp only [State.viewsInUse, Array.toList_push, List.filterMap_append, List.filterMap_cons,
    List.filterMap_nil, opened]
  rw [← List.append_assoc]
  exact (List.perm_append_singleton view _).symm

theorem viewsInUse_drop {i : Nat} {view : View} (engine : Engine)
    (held : state.views[i]? = some (some view)) :
    state.viewsInUse.Perm
      (view :: { state with engine, views := state.views.modify i fun _ => none }.viewsInUse) := by
  have at' : state.views.toList[i]? = some (some view) := by
    rw [Array.getElem?_toList]
    exact held
  have before := filterMap_perm id at'
  have after := filterMap_modify_perm id (fun _ => none) at'
  simp only [State.viewsInUse, Array.toList_modify]
  exact (before.trans (after.symm.cons view)).append_right _

theorem viewsInUse_modify_scan {i : Nat} {scan scan' : Scan} (engine : Engine)
    (found : state.scans[i]? = some scan) (same : scan'.scanner.view = scan.scanner.view) :
    state.viewsInUse.Perm
      { state with engine, scans := state.scans.modify i fun _ => scan' }.viewsInUse := by
  have kept : ∀ other, state.scans.toList[i]? = some other →
      scan'.scanner.view = other.scanner.view := by
    intro other found'
    rw [Array.getElem?_toList, found] at found'
    cases found'
    exact same
  simp only [State.viewsInUse, Array.toList_modify]
  rw [filterMap_modify_eq (fun scan : Scan => scan.scanner.view) (fun _ => scan') kept]

theorem viewsInUse_close_scan {i : Nat} {scan scan' : Scan} {view : View} (engine : Engine)
    (found : state.scans[i]? = some scan) (opened : scan.scanner.view = some view)
    (closed : scan'.scanner.view = none) :
    state.viewsInUse.Perm
      (view :: { state with
        engine, scans := state.scans.modify i fun _ => scan' }.viewsInUse) := by
  have at' : state.scans.toList[i]? = some scan := by
    rw [Array.getElem?_toList]
    exact found
  have before := filterMap_perm (fun scan : Scan => scan.scanner.view) at'
  have after := filterMap_modify_perm (fun scan : Scan => scan.scanner.view) (fun _ => scan') at'
  rw [opened] at before
  rw [closed] at after
  simp only [State.viewsInUse, Array.toList_modify]
  refine ((before.trans (after.symm.cons view)).append_left _).trans ?_
  exact List.perm_middle

theorem run_append (state : State) (calls later : List Call) :
    state.run (calls ++ later) = (state.run calls).run later := by
  unfold State.run
  rw [List.foldl_append]

theorem run_append_singleton (state : State) (calls : List Call) (call : Call) :
    state.run (calls ++ [call]) = (state.run calls).step call :=
  run_append state calls [call]

theorem Fits.of_append {past calls : List Call} (fits : Fits (past ++ calls)) : Fits past := by
  obtain ⟨commitFits, insertFits⟩ := fits
  simp only [List.countP_append] at commitFits insertFits
  exact ⟨Nat.lt_of_le_of_lt (Nat.le_add_right _ _) commitFits,
    fun table => Nat.lt_of_le_of_lt (Nat.le_add_right _ _) (insertFits table)⟩

namespace Sound

theorem readView (s : Sound config commits inserts state) (h : HandleId) :
    Quiet state { state with engine := (state.engine.readView h).2, views, scans } ∧
      (state.engine.readView h).2.registry.Covers state.unfinished
        ((state.engine.readView h).1 :: state.viewsInUse) := by
  unfold Engine.readView
  cases carried : (state.engine.handle h).txn with
  | some txn => exact ⟨Quiet.refl state views scans, s.covers.cons_unpinned rfl⟩
  | none =>
    refine ⟨Quiet.registry rfl rfl fun a ha => ?_, s.covers.pinNow⟩
    rcases List.mem_cons.1 ha with now | old
    · exact Or.inr now
    · exact Or.inl old

theorem dropView {view : View} {rest : List View} (s : Sound config commits inserts state)
    (used : state.viewsInUse.Perm (view :: rest)) :
    Quiet state { state with engine := state.engine.dropView view, views, scans } ∧
      (state.engine.dropView view).registry.Covers state.unfinished rest := by
  refine ⟨Quiet.registry (Registry.clock_release _ view) (Registry.txns_release _ view)
    fun a ha => Or.inl (Registry.mem_active_of_release ha), ?_⟩
  exact (s.covers.perm (List.Perm.refl _) used).release

end Sound

/-- A call on a table either does nothing, or handle and table exist. -/
theorem onTable_cases {P : State → Prop} {table : Nat} {act : Layout → State} (idle : P state)
    (acts : h < state.engine.handles.size → ∀ layout ∈ state.engine.catalog.layouts,
      layout.id = table → P (act layout)) : P (state.onTable h table act) := by
  unfold State.onTable State.hasHandle
  split
  case isTrue known =>
    split
    case h_1 layout found =>
      exact acts (by simpa using known) layout (List.mem_of_find?_eq_some found)
        (by simpa using List.find?_some found)
    case h_2 => exact idle
  case isFalse => exact idle

theorem onTable_of_found {table : Nat} {layout : Layout} {act : Layout → State}
    (known : h < state.engine.handles.size)
    (found : state.engine.catalog.findById? table = some layout) :
    state.onTable h table act = act layout := by
  have exists' : state.hasHandle h = true := decide_eq_true known
  unfold State.onTable
  rw [if_pos exists', found]

theorem engine_attempt {α : Type} (outcome : Except Fault α × Engine) (row : α → Touch)
    (write : Write) : (state.attempt txn outcome row write).engine = outcome.2 := by
  obtain ⟨result, engine⟩ := outcome
  cases result <;> rfl

namespace Sound

theorem counted (s : Sound config commits inserts state) :
    state.engine.catalog.layouts.length = state.engine.catalog.lastId := by
  have lengths := congrArg List.length s.numbered
  rwa [List.length_map, List.length_range'] at lengths

theorem listed {layout : Layout} (s : Sound config commits inserts state)
    (mem : layout ∈ state.engine.catalog.layouts) :
    layout.id ≤ state.engine.catalog.layouts.length := by
  have numbered := List.mem_map_of_mem (f := Layout.id) mem
  rw [s.numbered, List.mem_range'_1, ← s.counted] at numbered
  omega

theorem ids_nodup (s : Sound config commits inserts state) :
    (state.engine.catalog.layouts.map (·.id)).Nodup := by
  rw [s.numbered]
  exact List.nodup_range' 1

theorem eq_of_id_eq {a b : Layout} (s : Sound config commits inserts state)
    (ha : a ∈ state.engine.catalog.layouts) (hb : b ∈ state.engine.catalog.layouts)
    (same : a.id = b.id) : a = b :=
  List.inj_on_of_nodup_map s.ids_nodup ha hb same

theorem findById?_eq {layout : Layout} (s : Sound config commits inserts state)
    (listed : layout ∈ state.engine.catalog.layouts) :
    state.engine.catalog.findById? layout.id = some layout :=
  (Schema.find?_eq_some_of_nodup s.ids_nodup).2 ⟨listed, rfl⟩

theorem chain_unlisted (s : Sound config commits inserts state) {table : Nat} (row : RowId)
    (beyond : state.engine.catalog.layouts.length < table) :
    state.engine.chain ⟨table, row⟩ = [] := by
  have none : state.history.standing ⟨table, row⟩ = [] := by
    apply List.eq_nil_iff_forall_not_mem.2
    intro made hm
    obtain ⟨sequence, lt, -⟩ := s.placed _ _ _ (History.mem_standing.1 hm).1
    rw [s.unused table beyond] at lt
    omega
  exact (none ▸ s.keeps ⟨table, row⟩).eq_nil

private theorem chain_emptied (s : Sound config commits inserts state) {table : Nat}
    (beyond : state.engine.catalog.layouts.length < table) (t : Touch) :
    (state.engine.setHeap table {}).chain t = state.engine.chain t := by
  rw [Engine.chain_setHeap]
  split
  case isTrue same =>
    obtain ⟨other, row⟩ := t
    cases same
    rw [s.chain_unlisted row beyond]
    rfl
  case isFalse => rfl

private theorem created {spec : TableSpec} {layout : Layout} {engine : Engine}
    (s : Sound config commits inserts state)
    (done : state.engine.createTable spec = .ok (layout, engine)) :
    Sound config commits inserts { state with engine } := by
  obtain ⟨-, -, -, same, rfl⟩ := Engine.createTable_eq_ok.1 done
  have id : layout.id = state.engine.catalog.lastId + 1 := by rw [same]; rfl
  have beyond : state.engine.catalog.layouts.length < layout.id := by
    rw [s.counted, id]
    exact Nat.lt_succ_self _
  have number (table : Nat) : (state.engine.setHeap layout.id {}).nextSequence table =
      state.engine.nextSequence table := by
    rw [Engine.nextSequence_setHeap]
    split
    case isTrue same => rw [same, s.unused _ beyond]
    case isFalse => rfl
  have emptied : Calm state { state with engine := state.engine.setHeap layout.id {} } :=
    { Quiet.refl state state.views state.scans with
      chain := s.chain_emptied beyond
      sequence := number
      covers := s.covers }
  have s' := s.calm emptied
  refine { s' with numbered := ?_, unused := fun table beyond' => s'.unused table ?_ }
  · change (state.engine.catalog.layouts ++ [layout]).map (·.id) = List.range' 1 layout.id
    rw [List.map_append, s.numbered, List.map_singleton, id, List.range'_concat, Nat.one_mul,
      Nat.add_comm 1]
  · change (state.engine.catalog.layouts ++ [layout]).length < table at beyond'
    rw [List.length_append, List.length_singleton] at beyond'
    exact Nat.lt_of_succ_lt beyond'

theorem createTable_keeps (s : Sound config commits inserts state) (spec : TableSpec) :
    (∀ t, (state.step (.createTable spec)).engine.chain t = state.engine.chain t) ∧
      (state.step (.createTable spec)).engine.handles = state.engine.handles ∧
      (state.step (.createTable spec)).engine.registry = state.engine.registry := by
  simp only [State.step]
  split
  case h_1 layout engine done =>
    obtain ⟨-, -, -, same, rfl⟩ := Engine.createTable_eq_ok.1 done
    refine ⟨s.chain_emptied ?_, rfl, rfl⟩
    rw [s.counted, same]
    exact Nat.lt_succ_self _
  case h_2 => exact ⟨fun _ => rfl, rfl, rfl⟩

theorem createTable (s : Sound config commits inserts state) (spec : TableSpec) :
    Sound config commits inserts (state.step (.createTable spec)) := by
  simp only [State.step]
  split
  case h_1 done => exact s.created done
  case h_2 => exact s

theorem start (s : Sound config commits inserts state) (h : HandleId) :
    Sound config commits inserts (state.step (.start h)) := by
  unfold State.step State.hasHandle
  dsimp only
  split
  case isTrue known => exact s.ensureStarted (by simpa using known)
  case isFalse => exact s

theorem insert {layout : Layout} {data : Bytes} (s : Sound config commits inserts state)
    (known : h < state.engine.handles.size) (mem : layout ∈ state.engine.catalog.layouts)
    (room : inserts layout.id + 1 < 0x10000000000000000) :
    Sound config commits (oneMore inserts layout.id)
      (state.attempt (state.engine.ensureStarted h).1 (state.engine.insert h layout data)
        (fun row => ⟨layout.id, row⟩) (.inserted data)) := by
  have begun := s.ensureStarted known
  have listed' : layout.id ≤ (state.engine.ensureStarted h).2.catalog.layouts.length := by
    rw [Engine.catalog_ensureStarted]
    exact s.listed mem
  simp only [Engine.insert]
  cases result : (state.engine.ensureStarted h).2.insertRow (state.engine.ensureStarted h).1 layout
      data with
  | mk outcome engine =>
    cases outcome with
    | error fault => exact begun.skipped listed' room result
    | ok row => exact begun.inserted (Engine.runs_ensureStarted known) listed' room result

theorem replace {layout : Layout} {row : RowId} {data : Bytes}
    (s : Sound config commits inserts state) (known : h < state.engine.handles.size) :
    Sound config commits inserts
      (state.attempt (state.engine.ensureStarted h).1 (state.engine.replace h layout row data)
        (fun _ => ⟨layout.id, row⟩) (.replaced data)) := by
  have begun := s.ensureStarted known
  simp only [Engine.replace]
  cases result : (state.engine.ensureStarted h).2.replaceRow (state.engine.ensureStarted h).1 layout
      row data with
  | error fault => exact begun
  | ok engine =>
    obtain ⟨-, chain, replaced, rfl⟩ := Engine.replaceRow_eq_ok result
    obtain ⟨writable, rfl⟩ := replace_eq_ok_iff.1 replaced
    exact begun.recorded (Engine.runs_ensureStarted known) writable (by simp) layout rfl

theorem delete {layout : Layout} {row : RowId} (s : Sound config commits inserts state)
    (known : h < state.engine.handles.size) :
    Sound config commits inserts
      (state.attempt (state.engine.ensureStarted h).1 (state.engine.delete h layout row)
        (fun _ => ⟨layout.id, row⟩) .deleted) := by
  have begun := s.ensureStarted known
  simp only [Engine.delete]
  cases result : (state.engine.ensureStarted h).2.deleteRow (state.engine.ensureStarted h).1 layout
      row with
  | error fault => exact begun
  | ok engine =>
    obtain ⟨chain, deleted, rfl⟩ := Engine.deleteRow_eq_ok result
    obtain ⟨writable, rfl⟩ := delete_eq_ok_iff.1 deleted
    exact begun.recorded (Engine.runs_ensureStarted known) writable (by simp) layout rfl

theorem commit (s : Sound config commits inserts state) (h : HandleId)
    (room : commits + 2 < openBit) :
    Sound config (commits + 1) inserts (state.step (.commit h)) := by
  simp only [State.step, Engine.commit]
  cases carried : (state.engine.handle h).txn with
  | some txn => exact s.committed carried room
  | none =>
    have calm := (Quiet.resetHandle carried (List.append_nil _)).calm s.covers (List.Perm.refl _)
    exact (s.calm calm).mono (Nat.le_succ commits) fun _ => Nat.le_refl _

theorem rollback (s : Sound config commits inserts state) (h : HandleId) :
    Sound config commits inserts (state.step (.rollback h)) := by
  simp only [State.step, Engine.rollback]
  cases carried : (state.engine.handle h).txn with
  | some txn => exact s.rolledBack carried
  | none =>
    exact s.calm ((Quiet.resetHandle carried (List.append_nil _)).calm s.covers (List.Perm.refl _))

theorem calm_refl (s : Sound config commits inserts state) : Calm state state :=
  (Quiet.refl state state.views state.scans).calm s.covers (List.Perm.refl _)

theorem viewOf (s : Sound config commits inserts state) (h : HandleId) :
    Calm state (state.step (.viewOf h)) := by
  simp only [State.step]
  split
  · obtain ⟨q, covers⟩ := s.readView h
    exact q.calm covers (viewsInUse_push_view state _ _)
  · exact s.calm_refl

theorem viewNow (s : Sound config commits inserts state) : Calm state (state.step .viewNow) := by
  have q : Quiet state (state.step .viewNow) := by
    refine Quiet.registry rfl rfl ?_
    intro a ha
    rcases List.mem_cons.1 ha with now | old
    · exact Or.inr now
    · exact Or.inl old
  exact q.calm s.covers.pinNow (viewsInUse_push_view state _ _)

theorem copyView (s : Sound config commits inserts state) (i : Nat) :
    Calm state (state.step (.copyView i)) := by
  simp only [State.step]
  split
  case h_1 view held =>
    have used : view ∈ state.viewsInUse :=
      (viewsInUse_drop state.engine held).mem_iff.2 List.mem_cons_self
    refine (Quiet.registry (Registry.clock_hold _ view) (Registry.txns_hold _ view)
      fun a ha => Or.inl ?_).calm (s.covers.hold used) (viewsInUse_push_view state _ view)
    rwa [Registry.active_hold] at ha
  case h_2 => exact s.calm_refl

theorem giveUpView (s : Sound config commits inserts state) (i : Nat) :
    Calm state (state.step (.dropView i)) := by
  simp only [State.step]
  split
  case h_1 view held =>
    obtain ⟨q, covers⟩ := s.dropView (viewsInUse_drop (state.engine.dropView view) held)
    exact q.calm covers (List.Perm.refl _)
  case h_2 => exact s.calm_refl

theorem openScan (s : Sound config commits inserts state) (h : HandleId) (table : Nat) :
    Calm state (state.step (.openScan h table .readOnly)) := by
  apply onTable_cases s.calm_refl
  intro known layout _ _
  obtain ⟨q, covers⟩ := s.readView h
  exact q.calm covers (viewsInUse_push_scan state _ _ rfl)

theorem openScanForWriting (s : Sound config commits inserts state) (h : HandleId) (table : Nat) :
    Sound config commits inserts (state.step (.openScan h table .readWrite)) := by
  apply onTable_cases s
  intro known layout _ _
  have begun := s.ensureStarted known
  obtain ⟨q, covers⟩ := begun.readView h
  exact begun.calm (q.calm covers (viewsInUse_push_scan _ _ _ rfl))

theorem next_quiet (state : State) (scanner : Scanner) :
    (scanner.next state.engine).2.1.view = scanner.view ∧
      (scanner.next state.engine).2.2.registry = state.engine.registry ∧
      Quiet state { state with engine := (scanner.next state.engine).2.2, views, scans } := by
  obtain ⟨kept, same | ⟨locks, moved⟩⟩ := scanner.next_locks state.engine
  · rw [same]
    exact ⟨kept, rfl, Quiet.refl state views scans⟩
  · rw [moved]
    exact ⟨kept, rfl, Quiet.modifyHandle fun _ => rfl⟩

theorem advance (s : Sound config commits inserts state) (i : Nat) :
    Calm state (state.step (.advance i)) := by
  simp only [State.step]
  split
  case h_1 => exact s.calm_refl
  case h_2 scan found =>
    obtain ⟨kept, registry, q⟩ := next_quiet state scan.scanner
    exact q.calm (registry ▸ s.covers) (viewsInUse_modify_scan _ found kept)

theorem closeScan (s : Sound config commits inserts state) (i : Nat) :
    Calm state (state.step (.closeScan i)) := by
  simp only [State.step]
  split
  case h_1 => exact s.calm_refl
  case h_2 scan found =>
    unfold Scanner.close Scanner.releaseView
    cases opened : scan.scanner.view with
    | none =>
      exact (Quiet.refl state _ _).calm s.covers (viewsInUse_modify_scan _ found opened.symm)
    | some view =>
      have closed := @viewsInUse_close_scan state i scan
        ⟨{ scan.scanner with view := none }, scan.returned⟩ view
        (state.engine.dropView view) found opened rfl
      obtain ⟨q, covers⟩ := s.dropView closed
      exact q.calm covers (List.Perm.refl _)

theorem newHandle (s : Sound config commits inserts state) : Calm state (state.step .newHandle) :=
  (Quiet.handles (Engine.running_newHandle state.engine) (Engine.carried_newHandle state.engine)
    rfl).calm s.covers (List.Perm.refl _)

theorem checkLock (s : Sound config commits inserts state) (h : HandleId) (page : UInt32)
    (mode : LockMode) : Calm state (state.step (.checkLock h page mode)) := by
  simp only [State.step]
  split
  case h_1 locked =>
    obtain ⟨locks, rfl⟩ := Engine.checkLock_eq_ok locked
    exact Quiet.calm (Quiet.modifyHandle (by intro _; rfl)) s.covers (List.Perm.refl _)
  case h_2 => exact s.calm_refl

theorem recordLock (s : Sound config commits inserts state) (h : HandleId) (page : UInt32)
    (mode : LockMode) : Calm state (state.step (.recordLock h page mode)) :=
  Quiet.calm (Quiet.modifyHandle (by intro _; rfl)) s.covers (List.Perm.refl _)

/-- Within the counters a call leads from a sound state to a sound one, and it uses up at most what
it counts for. -/
theorem step (s : Sound config commits inserts state) (call : Call)
    (commitRoom : call.isCommit = true → commits + 2 < openBit)
    (insertRoom : ∀ table, call.isInsertInto table = true →
      inserts table + 1 < 0x10000000000000000) :
    Sound config (commits + if call.isCommit then 1 else 0)
      (fun table => inserts table + if call.isInsertInto table then 1 else 0) (state.step call) := by
  cases call with
  | createTable spec => exact s.createTable spec
  | newHandle => exact s.calm s.newHandle
  | start h => exact s.start h
  | insert h table data =>
    refine (onTable_cases (P := Sound config commits (oneMore inserts table))
      (s.mono (Nat.le_refl _) (le_oneMore inserts table)) fun known layout mem id => ?_).mono
      (Nat.le_refl _) fun other => ?_
    · subst id
      exact s.insert known mem (insertRoom layout.id (by simp [Call.isInsertInto]))
    · unfold oneMore
      by_cases same : other = table
      · simp [same, Call.isInsertInto]
      · simp [same]
  | replace h table row data =>
    apply onTable_cases s
    intro known layout _ id
    subst id
    exact s.replace known
  | delete h table row =>
    apply onTable_cases s
    intro known layout _ id
    subst id
    exact s.delete known
  | commit h => exact s.commit h (commitRoom rfl)
  | rollback h => exact s.rollback h
  | viewOf h => exact s.calm (s.viewOf h)
  | viewNow => exact s.calm s.viewNow
  | copyView i => exact s.calm (s.copyView i)
  | dropView i => exact s.calm (s.giveUpView i)
  | openScan h table mode =>
    cases mode with
    | readOnly => exact s.calm (s.openScan h table)
    | readWrite => exact s.openScanForWriting h table
  | advance i => exact s.calm (s.advance i)
  | closeScan i => exact s.calm (s.closeScan i)
  | checkLock h page mode => exact s.calm (s.checkLock h page mode)
  | recordLock h page mode => exact s.calm (s.recordLock h page mode)

theorem initial (config : Config) : Sound config 0 (fun _ => 0) (initial config) where
  limits := rfl
  covers :=
    { active := List.Perm.refl _
      holders := fun i p hp => by cases hp
      pinned := fun v hv => by cases hv }
  timely :=
    { clock_pos := Nat.zero_lt_one
      clock_lt := show 1 < openBit by decide
      active := fun a ha => by cases ha
      snapshots := fun t ht => by cases ht
      forward := fun t => Nat.le_refl _
      opened := fun t ht => by cases ht
      nodup := List.nodup_nil }
  dated :=
    { wrote := fun t row write ht => by cases ht
      committed := fun t time ht => by cases ht
      withdrawn := fun t ht => by cases ht
      known := fun t ht => by cases ht
      increasing := List.Pairwise.nil }
  keeps t := Keeps.nil _
  noted txn runs := by cases runs
  placed txn t write wrote := by cases wrote
  numbered := rfl
  unused table _ := rfl
  clock := Nat.le_refl 1
  sequence table := Nat.le_refl 0

theorem run (config : Config) (calls : List Call) (fits : Fits calls) :
    Sound config (calls.countP Call.isCommit) (fun table => calls.countP (Call.isInsertInto table))
      ((RowStore.Run.initial config).run calls) := by
  induction calls using List.reverseRecOn with
  | nil => exact Sound.initial config
  | append_singleton calls call ih =>
    have before := ih fits.of_append
    obtain ⟨commitFits, insertFits⟩ := fits
    simp only [List.countP_append, List.countP_singleton] at commitFits insertFits ⊢
    rw [run_append_singleton]
    refine before.step call (fun commit => ?_) fun table insert => ?_
    · rw [if_pos commit] at commitFits
      exact Nat.succ_lt_succ commitFits
    · have room := insertFits table
      rwa [if_pos insert] at room

end Sound

/-- A run of fewer calls than there are times stays within the counters. -/
theorem fits_of_length {calls : List Call} (short : calls.length < 0x7fffffffffffffff) :
    Fits calls := by
  refine ⟨Nat.lt_of_le_of_lt List.countP_le_length short, fun table => ?_⟩
  exact Nat.lt_of_le_of_lt List.countP_le_length (Nat.lt_trans short (by decide))

theorem Reachable.sound (reach : Reachable config state) :
    ∃ commits inserts, Sound config commits inserts state := by
  obtain ⟨calls, fits, -, rfl⟩ := reach
  exact ⟨_, _, Sound.run config calls fits⟩

end RowStore.Run
