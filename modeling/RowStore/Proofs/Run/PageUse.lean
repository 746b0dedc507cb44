/- RowStore/Proofs/Run/PageUse
   role: theorems
   digest: The locks of a handle are those that its uses of pages ask for, through whole runs. -/

import RowStore.Proofs.Engine.LockFree
import RowStore.Proofs.Run.Numbering
import RowStore.Proofs.Run.PageSteps

/-!
A scan stands at the record that it returned last, and as records come in the order of their ids, it has
returned one of a page before just if it stands on that page. So it checks every page once. With that,
each action makes the uses of pages that are written down for it, and the modes of all pages follow
them from the beginning of a run to its end.
-/

set_option autoImplicit false
set_option relaxedAutoImplicit false

namespace RowStore

open RowStore.Row (Record RowId)
open RowStore.Schema (Layout)
open RowStore.Transaction (LockMode PageUse)

variable {engine : Engine} {h : HandleId} {record : Record} {page : UInt32}

theorem Row.RowId.page_le {a b : RowId} (lt : a < b) : a.page.toNat ≤ b.page.toNat := by
  have below : a.page.toNat * 0x100000000 + a.slot.toNat < b.page.toNat * 0x100000000 + b.slot.toNat := lt
  have slot := b.slot.toNat_lt
  omega

/-- A scanner returns a record behind the one it stands at and moves there, and if the page is another
one it checks it. Otherwise it stays as it is. -/
theorem Scanner.next_cases (scanner : Scanner) (engine : Engine) :
    (∃ result, (∀ record, result ≠ .ok (some record)) ∧
      scanner.next engine = (result, scanner, engine)) ∨
    ∃ record engine', (∀ last, scanner.cursor = some last → last < record.id) ∧
      scanner.next engine = (.ok (some record), scanner.moveTo record, engine') ∧
      (scanner.page = some record.id.page → engine' = engine) ∧
      (scanner.page ≠ some record.id.page →
        engine.checkLock scanner.handle record.id.page scanner.mode = .ok engine') := by
  unfold next
  split
  case h_1 => exact .inl ⟨.error (.lapse .scannerClosed), fun _ => nofun, rfl⟩
  case h_2 view shows =>
    split
    case h_1 => exact .inl ⟨.ok none, fun _ => nofun, rfl⟩
    case h_2 record found =>
      rw [Table.Heap.next_eq_head?] at found
      have behind := (Table.Heap.mem_ahead.1 (List.mem_of_head? found)).1
      refine .inr ⟨record, ?_⟩
      dsimp only
      by_cases same : scanner.page = some record.id.page
      · rw [if_pos same]
        exact ⟨engine, behind, rfl, fun _ => rfl, fun apart => absurd same apart⟩
      · obtain ⟨engine', checked⟩ :=
          engine.exists_checkLock scanner.handle record.id.page scanner.mode
        rw [if_neg same, checked]
        exact ⟨engine', behind, rfl, fun same' => absurd same' same, fun _ => rfl⟩

namespace Run

/-- The scanner stands at the record with the greatest id of those returned, and on its page. -/
structure Scan.Tracked (scan : Scan) : Prop where
  page : scan.scanner.page = scan.scanner.cursor.map (·.page)
  returned : ∀ last, scan.scanner.cursor = some last → ∃ earlier ∈ scan.returned, earlier.id = last
  greatest : ∀ earlier ∈ scan.returned, ∃ last, scan.scanner.cursor = some last ∧ ¬ last < earlier.id

namespace Scan.Tracked

variable {scan : Scan}

theorem opened (scanner : Scanner) (engine : Engine) :
    Scan.Tracked ⟨(scanner.start engine).1, []⟩ where
  page := rfl
  returned _ stands := nomatch stands
  greatest := List.forall_mem_nil _

theorem closed (tracked : scan.Tracked) (engine : Engine) :
    Scan.Tracked ⟨(scan.scanner.close engine).1, scan.returned⟩ :=
  ⟨tracked.page, tracked.returned, tracked.greatest⟩

theorem advanced (tracked : scan.Tracked) (engine : Engine) : (scan.advanced engine).Tracked := by
  unfold Scan.advanced
  rcases scan.scanner.next_cases engine with
    ⟨result, nothing, next⟩ | ⟨record, engine', behind, next, -⟩
  · have nothingMore : scan.Tracked → Scan.Tracked ⟨scan.scanner, scan.returned ++ []⟩ := by
      rw [List.append_nil]
      exact id
    rw [next]
    cases result with
    | error fault => exact nothingMore tracked
    | ok found =>
      cases found with
      | none => exact nothingMore tracked
      | some record => exact absurd rfl (nothing record)
  · rw [next]
    constructor
    case page => rfl
    case returned =>
      intro last stands
      cases stands
      exact ⟨record, List.mem_append_right _ (List.mem_singleton_self record), rfl⟩
    case greatest =>
      intro earlier mem
      refine ⟨record.id, rfl, ?_⟩
      rcases List.mem_append.1 mem with before | now
      · obtain ⟨last, stands, above⟩ := tracked.greatest earlier before
        intro lt
        exact above (RowId.lt_trans (behind last stands) lt)
      · rw [List.mem_singleton.1 now]
        exact RowId.lt_irrefl _

/-- The scanner stands on the page of the next record just if it has returned one of that page. -/
theorem page_eq_iff (tracked : scan.Tracked)
    (behind : ∀ last, scan.scanner.cursor = some last → last < record.id) :
    scan.scanner.page = some record.id.page ↔
      ∃ earlier ∈ scan.returned, earlier.id.page = record.id.page := by
  rw [tracked.page, Option.map_eq_some_iff]
  constructor
  · rintro ⟨last, stands, same⟩
    obtain ⟨earlier, mem, rfl⟩ := tracked.returned last stands
    exact ⟨earlier, mem, same⟩
  · rintro ⟨earlier, mem, same⟩
    obtain ⟨last, stands, above⟩ := tracked.greatest earlier mem
    -- The last record lies between the earlier one and the next, and ids are ordered by page first.
    refine ⟨last, stands, UInt32.toNat_inj.1 (Nat.le_antisymm ?_ ?_)⟩
    · exact RowId.page_le (behind last stands)
    · rw [← same]
      by_cases at' : earlier.id = last
      · rw [at']
      · exact RowId.page_le (not_imp_comm.1 (fun unordered => RowId.eq_of_not_lt unordered above) at')

theorem uses_next (tracked : scan.Tracked) (known : h < engine.handles.size)
    (own : scan.scanner.handle = h) :
    Engine.UsesPages h
      (match (scan.scanner.next engine).1 with
        | .ok (some record) => usesOfReturn scan.returned scan.scanner.mode record
        | _ => [])
      engine (scan.scanner.next engine).2.2 := by
  rcases scan.scanner.next_cases engine with
    ⟨result, nothing, next⟩ | ⟨record, engine', behind, next, stays, checks⟩
  · rw [next]
    dsimp only
    split
    case h_1 record => exact absurd rfl (nothing record)
    case h_2 => exact .refl h engine
  · rw [next]
    dsimp only
    unfold usesOfReturn
    have onPage := tracked.page_eq_iff behind
    split
    case isTrue seen =>
      rw [stays (onPage.2 seen)]
      exact .refl h engine
    case isFalse fresh => exact Engine.uses_checkLock known (own ▸ checks (mt onPage.1 fresh))

end Scan.Tracked

variable {config : Config} {state : State} {action : Action} {actions : List Action}

def State.Tracks (state : State) : Prop :=
  ∀ (i : Nat) (scan : Scan), state.scans[i]? = some scan → scan.Tracked

theorem State.Tracks.act (tracks : state.Tracks) (action : Action) : (state.act action).Tracks := by
  intro i scan found
  cases State.scanStep_act found with
  | opened scanner engine => exact .opened scanner engine
  | kept before => exact tracks i scan before
  | advanced before => exact (tracks i _ before).advanced state.engine
  | closed before => exact (tracks i _ before).closed state.engine

namespace State

theorem uses_onTable {uses : Layout → List PageUse} {act : Layout → State} {table : Nat}
    (known : h < state.engine.handles.size)
    (acts : ∀ layout, Engine.UsesPages h (uses layout) state.engine (act layout).engine) :
    Engine.UsesPages h (state.usesOnTable table uses) state.engine
      (state.onTable h table act).engine := by
  have exists' : state.hasHandle h = true := decide_eq_true known
  unfold usesOnTable onTable
  rw [if_pos exists']
  cases state.engine.catalog.findById? table with
  | none => exact .refl h state.engine
  | some layout => exact acts layout

/-- An action of a handle makes the uses that are written down for it. -/
theorem uses_act (tracks : state.Tracks) (known : h < state.engine.handles.size)
    (own : state.user? action = some h) :
    Engine.UsesPages h (state.usesIn action) state.engine (state.act action).engine := by
  cases action with
  | execute user statement =>
    cases own
    exact Engine.uses_execute known statement
  | call call =>
    cases call with
    | insert user table data =>
      cases own
      refine uses_onTable known fun layout => ?_
      rw [engine_attempt]
      exact (state.engine.attempted_insert h layout data).uses known
    | replace user table row data =>
      cases own
      refine uses_onTable known fun layout => ?_
      rw [engine_attempt]
      exact (state.engine.attempted_replace h layout row data).uses known
    | delete user table row =>
      cases own
      refine uses_onTable known fun layout => ?_
      rw [engine_attempt]
      exact (state.engine.attempted_delete h layout row).uses known
    | commit user =>
      cases own
      exact Engine.uses_commit (Engine.uses_resetHandle known)
    | rollback user =>
      cases own
      exact Engine.uses_rollback (Engine.uses_resetHandle known)
    | checkLock user page mode =>
      cases own
      obtain ⟨engine', checked⟩ := state.engine.exists_checkLock h page mode
      simp only [act, step, checked]
      exact Engine.uses_checkLock known checked
    | recordLock user page mode =>
      cases own
      exact Engine.uses_recordLock known page mode
    | advance i =>
      obtain ⟨scan, found, own⟩ := Option.map_eq_some_iff.1 own
      simp only [act, step, usesIn, found]
      exact (tracks i scan found).uses_next known own
    | _ => cases own
  | _ => cases own

theorem spares_step {call : Call}
    (apart : h < state.engine.handles.size → state.user? (.call call) ≠ some h)
    (makes : call ≠ .newHandle) :
    Engine.UsesPages h [] state.engine (state.step call).engine := by
  have idle : Engine.UsesPages h [] state.engine state.engine := .refl h state.engine
  have other {user : HandleId} (acts : state.user? (.call call) = some user) :
      h < state.engine.handles.size → user ≠ h := by
    rintro known rfl
    exact apart known acts
  have tabled (user : HandleId) (table : Nat) (act : Layout → State)
      (acts : ∀ layout, Engine.UsesPages h [] state.engine (act layout).engine) :
      Engine.UsesPages h [] state.engine (state.onTable user table act).engine :=
    onTable_cases (P := fun new => Engine.UsesPages h [] state.engine new.engine) idle
      fun _ layout _ _ => acts layout
  cases call with
  | createTable spec =>
    simp only [step]
    split
    case h_1 layout engine created =>
      obtain ⟨-, -, -, rfl, rfl⟩ := Engine.createTable_eq_ok.1 created
      exact .of_handles rfl
    case h_2 => exact idle
  | newHandle => exact absurd rfl makes
  | start user =>
    simp only [step]
    split
    · exact state.engine.spares_ensureStarted h user
    · exact idle
  | insert user table data =>
    refine tabled user table _ fun layout => ?_
    rw [engine_attempt]
    exact (state.engine.attempted_insert user layout data).spares (other rfl)
  | replace user table row data =>
    refine tabled user table _ fun layout => ?_
    rw [engine_attempt]
    exact (state.engine.attempted_replace user layout row data).spares (other rfl)
  | delete user table row =>
    refine tabled user table _ fun layout => ?_
    rw [engine_attempt]
    exact (state.engine.attempted_delete user layout row).spares (other rfl)
  | commit user => exact Engine.uses_commit (Engine.spares_modifyHandle (other rfl) _)
  | rollback user => exact Engine.uses_rollback (Engine.spares_modifyHandle (other rfl) _)
  | viewOf user =>
    simp only [step]
    split
    · exact state.engine.spares_readView h user
    · exact idle
  | viewNow => exact .of_handles rfl
  | copyView | dropView =>
    simp only [step]
    split
    · exact .of_handles rfl
    · exact idle
  | openScan user table mode =>
    exact tabled user table _ fun layout =>
      Scanner.spares_start { layout, handle := user, mode } state.engine h
  | advance i =>
    cases found : state.scans[i]? with
    | none =>
      simp only [step, found]
      exact idle
    | some scan =>
      simp only [step, found]
      exact Scanner.spares_next (other (by rw [user?, found]; rfl))
  | closeScan i =>
    simp only [step]
    split
    · exact idle
    · exact Scanner.spares_releaseView _ state.engine h
  | checkLock user page mode =>
    simp only [step]
    split
    case h_1 engine checked => exact Engine.spares_checkLock (other rfl) checked
    case h_2 => exact idle
  | recordLock user page mode => exact Engine.spares_recordLock (other rfl) page mode

theorem spares_act (apart : h < state.engine.handles.size → state.user? action ≠ some h)
    (spares : action.SparesPages h) (makes : action ≠ .call .newHandle) :
    Engine.UsesPages h [] state.engine (state.act action).engine := by
  have idle : Engine.UsesPages h [] state.engine state.engine := .refl h state.engine
  have stable := Engine.stable_spares h state.engine
  have tabled (table : Nat) (change : Layout → Engine)
      (changes : ∀ layout, Engine.UsesPages h [] state.engine (change layout)) :
      Engine.UsesPages h [] state.engine (state.withTable table change).engine := by
    unfold withTable
    split
    · exact changes _
    · exact idle
  have kept {result : Except Fault Engine}
      (changes : ∀ engine, result = .ok engine → engine.handles = state.engine.handles) :
      Engine.UsesPages h [] state.engine (state.keeping result) := by
    cases result with
    | ok engine => exact .of_handles (changes engine rfl)
    | error fault => exact idle
  cases action with
  | call call => exact spares_step apart fun same => makes (same ▸ rfl)
  | reopenScan i =>
    simp only [act]
    split
    · exact idle
    · exact Scanner.spares_start _ state.engine h
  | operate user operator use =>
    cases use with
    | start => exact operator.start_keeps stable state.engine idle
    | next =>
      refine Operator.next_keeps stable (fun other acts _ same => ?_) idle
      exact spares (same ▸ acts)
    | close => exact operator.close_keeps stable state.engine idle
  | execute user statement =>
    refine Engine.execute_keeps stable (fun known same => ?_) statement idle
    exact apart known (same ▸ rfl)
  | beginTxn => exact .of_handles rfl
  | insertRow txn table data =>
    refine tabled table _ fun layout => .of_handles ?_
    unfold Engine.insertRow
    split <;> rfl
  | replaceRow txn table row data =>
    refine tabled table _ fun layout => kept fun engine done => ?_
    obtain ⟨-, chain, -, rfl⟩ := Engine.replaceRow_eq_ok done
    rfl
  | deleteRow txn table row =>
    refine tabled table _ fun layout => kept fun engine done => ?_
    obtain ⟨chain, -, rfl⟩ := Engine.deleteRow_eq_ok done
    rfl
  | commitTxn txn => exact state.engine.spares_commitTxn h txn
  | rollbackTxn txn => exact state.engine.spares_rollbackTxn h txn
  | withdrawRow | purgeRow => exact .of_handles rfl

def modeOf? (state : State) (h : HandleId) (page : UInt32) : Option LockMode :=
  (state.engine.handle h).locks.modeOf? page

/-- Every action leads from the modes before to those that its uses leave. -/
theorem modeOf?_act (tracks : state.Tracks) (spares : action.SparesPages h) (page : UInt32) :
    (state.act action).modeOf? h page =
      PageUse.leaveAll page (state.modeOf? h page) (state.usesBy h action) := by
  by_cases makes : action = .call .newHandle
  · subst makes
    have none : state.usesBy h (.call .newHandle) = [] := if_neg fun acts => nomatch acts.2
    rw [none]
    exact congrArg (fun handle => handle.locks.modeOf? page) (state.engine.handle_newHandle h)
  unfold usesBy
  split
  case isTrue acts =>
    exact (uses_act tracks (of_decide_eq_true acts.1) acts.2).modes page
  case isFalse idle =>
    have apart : h < state.engine.handles.size → state.user? action ≠ some h :=
      fun known own => idle ⟨decide_eq_true known, own⟩
    exact (spares_act apart spares makes).modes page

end State

theorem State.pageUses_append_singleton (h : HandleId) (state : State) (past : List Action)
    (action : Action) :
    state.pageUses h (past ++ [action]) =
      state.pageUses h past ++ (state.perform past).usesBy h action := by
  induction past generalizing state with
  | nil => exact List.append_nil _
  | cons first past ih =>
    rw [List.cons_append, pageUses, ih, pageUses, List.append_assoc]
    rfl

theorem State.tracks_perform (config : Config) (actions : List Action) :
    ((initial config).perform actions).Tracks := by
  induction actions using List.reverseRecOn with
  | nil =>
    intro i scan found
    cases found
  | append_singleton past action ih =>
    rw [perform_append]
    exact ih.act action

theorem State.modeOf?_perform (config : Config) (h : HandleId) (actions : List Action)
    (spares : ∀ action ∈ actions, action.SparesPages h) (page : UInt32) :
    ((initial config).perform actions).modeOf? h page =
      PageUse.leaveAll page none ((initial config).pageUses h actions) := by
  induction actions using List.reverseRecOn with
  | nil => rfl
  | append_singleton past action ih =>
    obtain ⟨before, now⟩ := List.forall_mem_append.1 spares
    have spared : action.SparesPages h := now action (List.mem_singleton_self action)
    rw [pageUses_append_singleton, PageUse.leaveAll_append, perform_append, ← ih before]
    exact modeOf?_act (tracks_perform config past) spared page

namespace State

theorem faultOnTable?_ne {α : Type} {attempt : Layout → Except Fault α} {user : HandleId}
    {table : Nat} (free : ∀ layout, LockFree (attempt layout)) (page : UInt32) :
    state.faultOnTable? user table attempt ≠ some (.lockConflict page) := by
  unfold faultOnTable?
  split
  · exact LockFree.bind_of?_ne free page
  · nofun

/-- No action is refused for the lock of a page, in whatever state. -/
theorem fault?_ne_lockConflict (state : State) (action : Action) (page : UInt32) :
    state.fault? action ≠ some (.lockConflict page) := by
  cases action with
  | call call =>
    cases call with
    | createTable spec => exact (state.engine.lockFree_createTable spec).of?_ne page
    | insert user table data =>
      exact faultOnTable?_ne (fun layout => state.engine.lockFree_insert user layout data) page
    | replace user table row data =>
      exact faultOnTable?_ne (fun layout => state.engine.lockFree_replace user layout row data) page
    | delete user table row =>
      exact faultOnTable?_ne (fun layout => state.engine.lockFree_delete user layout row) page
    | advance i =>
      exact LockFree.bind_of?_ne (fun scan => scan.scanner.lockFree_next state.engine) page
    | checkLock user other mode =>
      exact (state.engine.lockFree_checkLock user other mode).of?_ne page
    | _ => nofun
  | operate user operator use =>
    cases use with
    | start => exact (operator.lockFree_start user state.engine).of?_ne page
    | next => exact (operator.lockFree_nextWithin operator.height state.engine).of?_ne page
    | close => nofun
  | execute user statement => exact (state.engine.lockFree_execute user statement).of?_ne page
  | insertRow txn table data =>
    exact LockFree.bind_of?_ne (fun layout => state.engine.lockFree_insertRow txn layout data) page
  | replaceRow txn table row data =>
    exact LockFree.bind_of?_ne (fun layout => state.engine.lockFree_replaceRow txn layout row data)
      page
  | deleteRow txn table row =>
    exact LockFree.bind_of?_ne (fun layout => state.engine.lockFree_deleteRow txn layout row) page
  | _ => nofun

end State

/-- The locks of a handle follow the uses that it makes of pages. In any run, whatever others do in it,
as long as nobody advances an operator that acts for the handle on its own: a page is locked just if the
handle has written a row of that page, in whatever table, or recorded the page since it last ended a
transaction; and the mode is the one that the last of these uses has set, or a later check, such as a
scan makes with the first record that it returns of each page. No check enters a page, and no action at
all is ever refused for the lock of a page. -/
theorem locks_follow_uses (config : Config) (h : HandleId) (actions : List Action)
    (spares : ∀ action ∈ actions, action.SparesPages h) :
    let uses := (initial config).pageUses h actions
    let locks := (((initial config).perform actions).engine.handle h).locks
    (∀ page, locks.modeOf? page ≠ none ↔ PageUse.Entered page uses) ∧
    (∀ page mode, locks.modeOf? page = some mode ↔ PageUse.LastSet page uses mode) ∧
    ∀ (state : State) action page, state.fault? action ≠ some (.lockConflict page) := by
  intro uses locks
  have follows (page : UInt32) : PageUse.Follows page uses (locks.modeOf? page) := by
    have modes : locks.modeOf? page = PageUse.leaveAll page none uses :=
      State.modeOf?_perform config h actions spares page
    rw [modes]
    exact PageUse.follows_leaveAll page uses
  exact ⟨fun page => (follows page).entered, fun page => (follows page).lastSet,
    fun state action => state.fault?_ne_lockConflict action⟩

/-- A handle writes rows of two tables on the same pages and commits. Then it records one page and checks
another one that it never enters, writes again, scans for reading, runs a statement that changes the last
row, and begins the scan anew. Somebody else advances an operator of another handle. -/
def mixedUses : List Action :=
  let table : Layout := ⟨1, "t", [⟨"a", .int, 0, 4⟩]⟩
  [.call (.createTable ⟨"t", [⟨"a", .int, 4⟩]⟩), .call (.createTable ⟨"u", [⟨"a", .int, 4⟩]⟩),
    .call .newHandle, .call .newHandle,
    .call (.insert 0 1 [1, 0, 0, 0]), .call (.insert 0 1 [2, 0, 0, 0]),
    .call (.insert 0 1 [3, 0, 0, 0]), .call (.commit 0),
    .call (.recordLock 0 1 .readOnly), .call (.checkLock 0 7 .readWrite),
    .call (.insert 0 2 [4, 0, 0, 0]), .call (.insert 0 2 [5]),
    .call (.openScan 0 1 .readOnly), .call (.advance 0),
    .call (.replace 0 1 ⟨0, 1⟩ [6, 0, 0, 0]), .call (.advance 0),
    .execute 0 (.update table [⟨"a", .literal (.int 7)⟩]
      [⟨.field ⟨"a", .int, 0, 4⟩, .eq, .value (.int 3)⟩]),
    .operate 1 (.scan table .readWrite (some { layout := table, handle := 1, mode := .readWrite })
      none) .next,
    .reopenScan 0, .call (.advance 0)]

theorem locks_follow_uses_mixed :
    let uses := (initial { rowsPerPage := 2 }).pageUses 0 mixedUses
    uses = [.written 0, .written 0, .written 1, .ended, .recorded 1 .readOnly,
      .checked 7 .readWrite, .written 0, .checked 0 .readOnly, .written 0, .checked 0 .readWrite,
      .checked 1 .readWrite, .written 1, .checked 0 .readOnly] ∧
    PageUse.LastSet 0 uses .readOnly ∧ PageUse.LastSet 1 uses .readWrite ∧
    ¬ PageUse.Entered 7 uses ∧
    ∀ action page, ((initial { rowsPerPage := 2 }).perform mixedUses).fault? action ≠
      some (.lockConflict page) := by
  intro uses
  have spares : ∀ action ∈ mixedUses, action.SparesPages 0 := by
    simp [mixedUses, Action.SparesPages, Operator.handles]
  obtain ⟨entered, lastSet, free⟩ := locks_follow_uses { rowsPerPage := 2 } 0 mixedUses spares
  refine ⟨by decide, (lastSet 0 .readOnly).1 (by decide), (lastSet 1 .readWrite).1 (by decide), ?_,
    free _⟩
  rw [← entered 7, not_not]
  decide

end Run

end RowStore
