/- RowStore/Proofs/Run/Scanning
   role: theorems
   digest: Scans under way, the views they read by, and the rows ahead of them through all calls. -/

import RowStore.Proofs.Run.Account
import RowStore.Proofs.Run.SnapshotIsolation
import RowStore.Proofs.Table.Heap

set_option autoImplicit false
set_option relaxedAutoImplicit false

namespace RowStore

open RowStore.Row (Record RowId)
open RowStore.Schema (Layout)
open RowStore.Table (Heap)
open RowStore.Transaction (LockMode Registry Touch TxnId View)

namespace Scanner

variable {scanner : Scanner} {engine : Engine} {view : View}

/-- An open scanner never fails: it moves to the first row behind it that its view shows, if there
is one. -/
theorem next_of_open (shows : scanner.view = some view) :
    ∃ page engine', scanner.next engine =
      (.ok ((engine.heap scanner.layout.id).next engine.stamps view scanner.cursor),
        { scanner with
          cursor := (((engine.heap scanner.layout.id).next engine.stamps view scanner.cursor).map
            (·.id)).or scanner.cursor
          page := page }, engine') := by
  obtain ⟨layout, handle, mode, shown, cursor, page⟩ := scanner
  dsimp only at shows ⊢
  subst shows
  unfold next
  dsimp only
  cases (engine.heap layout.id).next engine.stamps view cursor with
  | none => exact ⟨page, engine, by simp⟩
  | some record =>
    by_cases same : page = some record.id.page
    · exact ⟨some record.id.page, engine, by simp [same]⟩
    · obtain ⟨engine', checked⟩ := engine.exists_checkLock handle record.id.page mode
      exact ⟨some record.id.page, engine', by simp [same, checked]⟩

end Scanner

namespace Run

variable {config : Config} {commits : Nat} {inserts : Nat → Nat} {state : State} {view : View}
  {h : HandleId} {table i : Nat} {mode : LockMode} {txn : TxnId} {call : Call}

namespace State

def returned (state : State) (i : Nat) : List Record :=
  (state.scans[i]?.map (·.returned)).getD []

def scanView (state : State) (i : Nat) : Option View := state.scans[i]?.bind (·.scanner.view)

def reached (state : State) (i : Nat) : Option RowId := (state.returned i).getLast?.map (·.id)

/-- The records that a view shows of a table behind the one that a scan returned last. -/
def ahead (state : State) (i table : Nat) (view : View) : List Record :=
  (state.engine.heap table).ahead state.engine.stamps view (state.reached i)

end State

def Call.isOnScan : Call → Bool
  | .openScan _ _ _ | .advance _ | .closeScan _ => true
  | _ => false

theorem scans_step_of_other (state : State) (other : call.isOnScan = false) :
    (state.step call).scans = state.scans := by
  have attempted {α : Type} (outcome : Except Fault α × Engine) (row : α → Touch)
      (write : Write) (txn : TxnId) :
      (state.attempt txn outcome row write).scans = state.scans := by
    obtain ⟨result, engine⟩ := outcome
    cases result <;> rfl
  have tabled (h : HandleId) (table : Nat) (act : Layout → State)
      (acts : ∀ layout, (act layout).scans = state.scans) :
      (state.onTable h table act).scans = state.scans :=
    onTable_cases (P := fun new => new.scans = state.scans) rfl fun _ layout _ _ => acts layout
  cases call with
  | newHandle | viewNow | recordLock | commit | rollback => rfl
  | createTable | start | viewOf | copyView | dropView | checkLock =>
    simp only [State.step]
    split <;> rfl
  | insert h table data | replace h table row data | delete h table row =>
    apply tabled h table
    intro layout
    rw [attempted]
  | openScan | advance | closeScan => cases other

theorem scans_step (state : State) (known : i < state.scans.size)
    (advances : call ≠ .advance i) (closes : call ≠ .closeScan i) :
    (state.step call).scans[i]? = state.scans[i]? := by
  cases call with
  | openScan h table mode =>
    apply onTable_cases (P := fun new => new.scans[i]? = state.scans[i]?) rfl
    intro _ layout _ _
    dsimp only
    rw [Array.getElem?_push, if_neg (Nat.ne_of_lt known)]
  | advance j =>
    have other : j ≠ i := fun same => advances (same ▸ rfl)
    simp only [State.step]
    split
    · rfl
    · rw [Array.getElem?_modify, if_neg other]
  | closeScan j =>
    have other : j ≠ i := fun same => closes (same ▸ rfl)
    simp only [State.step]
    split
    · rfl
    · rw [Array.getElem?_modify, if_neg other]
  | _ => rw [scans_step_of_other state rfl]

theorem Sound.carries_step (s : Sound config commits inserts state)
    (carries : (state.engine.handle h).txn = some txn) (commits' : call ≠ .commit h)
    (rollsBack : call ≠ .rollback h) : ((state.step call).engine.handle h).txn = some txn := by
  have begun (h' : HandleId) :=
    @Engine.carries_ensureStarted_of_carries state.engine h' txn h carries
  have quiet {new : State} (q : Quiet state new) : (new.engine.handle h).txn = some txn := by
    rw [q.carried]
    exact carries
  cases call with
  | createTable spec =>
    obtain ⟨-, handles, -⟩ := s.createTable_keeps spec
    unfold Engine.handle at carries ⊢
    rwa [handles]
  | newHandle => exact quiet s.newHandle.toQuiet
  | start h' =>
    simp only [State.step]
    split
    · exact begun h'
    · exact carries
  | insert h' table data =>
    apply onTable_cases (P := fun new => (new.engine.handle h).txn = some txn) carries
    intro known layout _ _
    rw [engine_attempt]
    exact (Engine.attempted_insert _ h' layout data).carries carries
  | replace h' table row data =>
    apply onTable_cases (P := fun new => (new.engine.handle h).txn = some txn) carries
    intro known layout _ _
    rw [engine_attempt]
    exact (Engine.attempted_replace _ h' layout row data).carries carries
  | delete h' table row =>
    apply onTable_cases (P := fun new => (new.engine.handle h).txn = some txn) carries
    intro known layout _ _
    rw [engine_attempt]
    exact (Engine.attempted_delete _ h' layout row).carries carries
  | commit h' =>
    have other : h ≠ h' := fun same => commits' (same ▸ rfl)
    simp only [State.step, Engine.commit]
    split
    · rwa [Engine.resetHandle, Engine.handle_modifyHandle_of_ne _ _ other]
    · rw [Engine.commitTxn_eq]
      unfold Engine.handle
      rw [(Engine.sameBesides_purgeAll _ _ _).handles]
      exact (congrArg Handle.txn (Engine.handle_modifyHandle_of_ne state.engine _ other)).trans
        carries
  | rollback h' =>
    have other : h ≠ h' := fun same => rollsBack (same ▸ rfl)
    simp only [State.step, Engine.rollback]
    split
    · rwa [Engine.resetHandle, Engine.handle_modifyHandle_of_ne _ _ other]
    · rw [Engine.rollbackTxn_eq]
      unfold Engine.handle
      rw [(Engine.sameBesides_withdrawAll _ _ _).handles]
      exact (congrArg Handle.txn (Engine.handle_modifyHandle_of_ne state.engine _ other)).trans
        carries
  | viewOf h' => exact quiet (s.viewOf h').toQuiet
  | viewNow => exact quiet s.viewNow.toQuiet
  | copyView j => exact quiet (s.copyView j).toQuiet
  | dropView j => exact quiet (s.giveUpView j).toQuiet
  | openScan h' table mode =>
    cases mode with
    | readOnly => exact quiet (s.openScan h' table).toQuiet
    | readWrite =>
      apply onTable_cases (P := fun new => (new.engine.handle h).txn = some txn) carries
      intro known layout _ _
      obtain ⟨q, -⟩ := @Sound.readView _ _ _ _ state.views state.scans (s.ensureStarted known) h'
      exact (q.carried h).trans (begun h')
  | advance j => exact quiet (s.advance j).toQuiet
  | closeScan j => exact quiet (s.closeScan j).toQuiet
  | checkLock h' page mode => exact quiet (s.checkLock h' page mode).toQuiet
  | recordLock h' page mode => exact quiet (s.recordLock h' page mode).toQuiet

/-- The scan is open over the table with the view. It stands at the record that it returned last,
and what it returned is in the order of the ids. -/
structure Underway (table : Nat) (view : View) (i : Nat) (state : State) : Prop where
  stands : ∃ scanner, state.scans[i]? = some ⟨scanner, state.returned i⟩ ∧
    scanner.layout.id = table ∧ scanner.view = some view ∧ scanner.cursor = state.reached i
  increasing : (state.returned i).Pairwise fun a b => a.id < b.id

theorem mem_ahead_iff {record : Record} : record ∈ state.ahead i table view ↔
    (∀ id, state.reached i = some id → id < record.id) ∧
      (state.engine.chain ⟨table, record.id⟩).read state.engine.stamps view = some record.data :=
  Heap.mem_ahead

namespace Underway

theorem of_found {scanner : Scanner} {records : List Record}
    (found : state.scans[i]? = some ⟨scanner, records⟩) (shows : scanner.view = some view)
    (cursor : scanner.cursor = records.getLast?.map (·.id))
    (increasing : records.Pairwise fun a b => a.id < b.id) :
    Underway scanner.layout.id view i state ∧ state.returned i = records := by
  have returned : state.returned i = records := by
    unfold State.returned
    rw [found]
    rfl
  subst returned
  exact ⟨⟨⟨scanner, found, rfl, shows, cursor⟩, increasing⟩, rfl⟩

theorem known (u : Underway table view i state) : i < state.scans.size := by
  obtain ⟨scanner, found, -⟩ := u.stands
  exact (Array.getElem?_eq_some_iff.1 found).1

theorem mem_viewsInUse (u : Underway table view i state) : view ∈ state.viewsInUse := by
  obtain ⟨scanner, found, -, shows, -⟩ := u.stands
  have listed := Array.mem_toList_iff.2 (Array.mem_of_getElem? found)
  exact List.mem_append_right _ (List.mem_filterMap.2 ⟨_, listed, shows⟩)

theorem lt_of_reached (u : Underway table view i state) {id : RowId}
    (behind : ∀ last, state.reached i = some last → last < id) :
    ∀ record ∈ state.returned i, record.id < id := by
  intro record mem
  rcases List.eq_nil_or_concat (state.returned i) with none | ⟨front, last, eq⟩
  · rw [none] at mem
    cases mem
  · rw [List.concat_eq_append] at eq
    have lt : last.id < id := by
      apply behind
      rw [State.reached, eq, List.getLast?_concat]
      rfl
    have increasing := u.increasing
    rw [eq] at increasing mem
    rcases List.mem_append.1 mem with before | now
    · have below := (List.pairwise_append.1 increasing).2.2 record before last (by simp)
      exact RowId.lt_trans below lt
    · cases List.mem_singleton.1 now
      exact lt

theorem next_eq (u : Underway table view i state) :
    ∃ scan, state.scans[i]? = some scan ∧
      (scan.scanner.next state.engine).1 = .ok (state.ahead i table view).head? := by
  obtain ⟨scanner, found, rfl, shows, cursor⟩ := u.stands
  obtain ⟨page, engine, next⟩ := @Scanner.next_of_open scanner state.engine view shows
  refine ⟨_, found, ?_⟩
  rw [next, Heap.next_eq_head?, cursor]
  rfl

theorem stay (u : Underway table view i state) (advances : call ≠ .advance i)
    (closes : call ≠ .closeScan i) :
    Underway table view i (state.step call) ∧
      (state.step call).returned i = state.returned i := by
  have same := scans_step state u.known advances closes
  have returned : (state.step call).returned i = state.returned i := by
    unfold State.returned
    rw [same]
  refine ⟨⟨?_, returned ▸ u.increasing⟩, returned⟩
  obtain ⟨scanner, found, table, shows, cursor⟩ := u.stands
  refine ⟨scanner, ?_, table, shows, ?_⟩
  · rw [same, found, returned]
  · rw [cursor, State.reached, State.reached, returned]

/-- An advance returns the first record ahead, if there is one, and moves the scan to it. -/
theorem advance (u : Underway table view i state) :
    Underway table view i (state.step (.advance i)) ∧
      (state.step (.advance i)).returned i =
        state.returned i ++ (state.ahead i table view).head?.toList := by
  obtain ⟨scanner, found, rfl, shows, cursor⟩ := u.stands
  obtain ⟨page, engine, next⟩ := @Scanner.next_of_open scanner state.engine view shows
  rw [Heap.next_eq_head?, cursor] at next
  let moved : Scanner := { scanner with
    cursor := ((state.ahead i scanner.layout.id view).head?.map (·.id)).or (state.reached i)
    page := page }
  have found' : (state.step (.advance i)).scans[i]? =
      some ⟨moved, state.returned i ++ (state.ahead i scanner.layout.id view).head?.toList⟩ := by
    simp only [State.step, found, next, Array.getElem?_modify]
    rfl
  refine @of_found _ view i moved _ found' shows ?_ ?_
  · change ((state.ahead i scanner.layout.id view).head?.map (·.id)).or (state.reached i) = _
    cases (state.ahead i scanner.layout.id view).head? with
    | none => simp [State.reached]
    | some record => simp
  · refine List.pairwise_append.2 ⟨u.increasing, ?_, ?_⟩
    · cases (state.ahead i scanner.layout.id view).head? <;> simp
    · intro a ha b hb
      have first := List.mem_of_head? (Option.mem_toList.1 hb)
      exact u.lt_of_reached (mem_ahead_iff.1 first).1 a ha

end Underway

/-- The view is pinned as of now, or it is that of the transaction that the handle carries. -/
inductive Gives (engine : Engine) (h : HandleId) (view : View) : Prop
  | pinned (pinned : view.isPinned = true) (now : view.snapshot = engine.registry.clock)
  | own (txn : TxnId) (carries : (engine.handle h).txn = some txn)
      (own : view = engine.registry.ownView txn)

theorem readView_gives (engine : Engine) (h : HandleId) :
    Gives (engine.readView h).2 h (engine.readView h).1 := by
  unfold Engine.readView
  cases carried : (engine.handle h).txn with
  | none => exact .pinned rfl rfl
  | some txn => exact .own txn carried rfl

/-- A scan that has been opened stands before the first record, with a view that its handle
gives. -/
theorem openScan_underway
    (takes : (state.step (.openScan h table mode)).scanView state.scans.size = some view) :
    Underway table view state.scans.size (state.step (.openScan h table mode)) ∧
      (state.step (.openScan h table mode)).returned state.scans.size = [] ∧
      Gives (state.step (.openScan h table mode)).engine h view := by
  revert takes
  apply onTable_cases (P := fun new => new.scanView state.scans.size = some view →
    Underway table view state.scans.size new ∧ new.returned state.scans.size = [] ∧
      Gives new.engine h view)
  · intro takes
    simp [State.scanView] at takes
  · rintro known layout - rfl takes
    have pushed : (state.scans.push
        ⟨(Scanner.start { layout, handle := h, mode } state.engine).1, []⟩)[state.scans.size]? =
          some ⟨(Scanner.start { layout, handle := h, mode } state.engine).1, []⟩ := by
      rw [Array.getElem?_push, if_pos rfl]
    have shows : (Scanner.start { layout, handle := h, mode } state.engine).1.view = some view := by
      simp only [State.scanView, pushed] at takes
      exact takes
    obtain ⟨underway, nothing⟩ := @Underway.of_found
      { state with
        engine := (Scanner.start { layout, handle := h, mode } state.engine).2
        scans := state.scans.push
          ⟨(Scanner.start { layout, handle := h, mode } state.engine).1, []⟩ }
      view state.scans.size _ [] pushed shows rfl List.Pairwise.nil
    refine ⟨underway, nothing, ?_⟩
    cases mode with
    | readOnly =>
      cases shows
      exact readView_gives state.engine h
    | readWrite =>
      cases shows
      exact readView_gives (state.engine.ensureStarted h).2 h

/-- A run within the counters in which a handle opens a scan over a table, the view that the scan
takes, and what is called from then on. The scan is not closed, and its view stays registered: it is
pinned, or the handle does not end its transaction. -/
structure ScanRun (config : Config) where
  past : List Call
  handle : HandleId
  table : Nat
  mode : LockMode
  view : View
  calls : List Call
  fits : Fits (past ++ .openScan handle table mode :: calls)
  takes : (((initial config).run past).step (.openScan handle table mode)).scanView
    ((initial config).run past).scans.size = some view
  unclosed : .closeScan ((initial config).run past).scans.size ∉ calls
  stays : view.isPinned = true ∨
    ∀ call ∈ calls, call ≠ .commit handle ∧ call ≠ .rollback handle

namespace ScanRun

variable {r : ScanRun config} {before : List Call} {row : RowId}

def scan (r : ScanRun config) : Nat := ((initial config).run r.past).scans.size

def after (r : ScanRun config) (calls : List Call) : State :=
  (((initial config).run r.past).step (.openScan r.handle r.table r.mode)).run calls

theorem after_append_singleton (r : ScanRun config) (before : List Call) (call : Call) :
    r.after (before ++ [call]) = (r.after before).step call :=
  run_append_singleton _ before call

theorem after_eq (r : ScanRun config) (before : List Call) :
    r.after before =
      (initial config).run (r.past ++ .openScan r.handle r.table r.mode :: before) := by
  rw [run_append]
  rfl

theorem fits_of_part (part : before <+: r.calls) :
    Fits (r.past ++ .openScan r.handle r.table r.mode :: before) := by
  obtain ⟨rest, eq⟩ := part
  have fits := r.fits
  rw [← eq, ← List.cons_append, ← List.append_assoc] at fits
  exact fits.of_append

theorem sound (part : before <+: r.calls) :
    ∃ commits inserts, Sound config commits inserts (r.after before) := by
  rw [r.after_eq]
  exact ⟨_, _, Sound.run config _ (fits_of_part part)⟩

theorem prefix_of_append {call : Call} (part : before ++ [call] <+: r.calls) :
    before <+: r.calls := (List.prefix_append before [call]).trans part

theorem mem_of_part {call : Call} (part : before ++ [call] <+: r.calls) : call ∈ r.calls :=
  part.subset (by simp)

theorem ne_closeScan {call : Call} (part : before ++ [call] <+: r.calls) :
    call ≠ .closeScan r.scan := by
  rintro rfl
  exact r.unclosed (mem_of_part part)

theorem underway (part : before <+: r.calls) :
    Underway r.table r.view r.scan (r.after before) := by
  induction before using List.reverseRecOn with
  | nil => exact (openScan_underway r.takes).1
  | append_singleton before call ih =>
    have u := ih (prefix_of_append part)
    rw [after_append_singleton]
    by_cases advances : call = .advance r.scan
    · subst advances
      exact u.advance.1
    · exact (u.stay advances (ne_closeScan part)).1

theorem carries_after {txn : TxnId} (part : before <+: r.calls)
    (goesOn : ∀ call ∈ r.calls, call ≠ .commit r.handle ∧ call ≠ .rollback r.handle)
    (carries : ((r.after []).engine.handle r.handle).txn = some txn) :
    ((r.after before).engine.handle r.handle).txn = some txn := by
  induction before using List.reverseRecOn with
  | nil => exact carries
  | append_singleton before call ih =>
    have earlier := prefix_of_append part
    obtain ⟨commits, inserts, s⟩ := r.sound earlier
    obtain ⟨notCommit, notRollback⟩ := goesOn call (mem_of_part part)
    rw [after_append_singleton]
    exact s.carries_step (ih earlier) notCommit notRollback

theorem attached (part : before <+: r.calls) : r.view.isPinned = true ∨
    ∃ txn, ((r.after before).engine.handle r.handle).txn = some txn ∧
      r.view = (r.after before).engine.registry.ownView txn := by
  rcases r.stays with pinned | goesOn
  · exact Or.inl pinned
  rcases (openScan_underway r.takes).2.2 with ⟨pinned, -⟩ | ⟨txn, carries, own⟩
  · exact Or.inl pinned
  refine Or.inr ⟨txn, carries_after part goesOn carries, ?_⟩
  -- Registries extend each other, so the snapshot of the transaction stays.
  obtain ⟨commits, inserts, s⟩ := r.sound List.nil_prefix
  have known : txn < (r.after []).engine.registry.txns.size :=
    s.known (Engine.mem_running_of_carries carries)
  have few := (fits_of_part part).1
  rw [List.append_cons] at few
  have extends' := extends_run config few
  rw [← List.append_cons, ← r.after_eq, ← r.after_eq] at extends'
  have snapshot := extends'.snapshot txn known
  rw [own]
  unfold Registry.ownView
  rw [snapshot]
  rfl

theorem registered (part : before <+: r.calls) : (r.after before).isRegistered r.view := by
  rcases attached part with pinned | ⟨txn, carries, own⟩
  · exact Or.inl ⟨(underway part).mem_viewsInUse, pinned⟩
  · exact Or.inr ⟨txn, Engine.mem_running_of_carries carries, own⟩

theorem foreign (r : ScanRun config) (pinned : r.view.isPinned = true) : r.view.own = none := by
  obtain ⟨commits, inserts, s⟩ := r.sound List.nil_prefix
  have used := (@underway _ r [] List.nil_prefix).mem_viewsInUse
  obtain ⟨pin, named⟩ := Option.isSome_iff_exists.1 pinned
  exact (s.covers.pinned r.view used pin named).1

/-- What the view reads of a row changes only with writes of its own transaction on the row. -/
theorem chain_read_step {call : Call} (part : before ++ [call] <+: r.calls)
    (apart : ∀ txn write, r.view.own = some txn →
      ((r.after before).step call).history ≠
        (r.after before).history ++ [.wrote txn ⟨r.table, row⟩ write]) :
    ((r.after (before ++ [call])).engine.chain ⟨r.table, row⟩).read
        (r.after (before ++ [call])).engine.stamps r.view =
      ((r.after before).engine.chain ⟨r.table, row⟩).read
        (r.after before).engine.stamps r.view := by
  have earlier := prefix_of_append part
  obtain ⟨commits, inserts, s⟩ := r.sound earlier
  obtain ⟨commits', inserts', s'⟩ := r.sound part
  rw [s'.chain_read (registered part), s.chain_read (registered earlier), after_append_singleton]
  exact s.history_read_row_step (registered earlier) call _ apart

end ScanRun

end Run

end RowStore
