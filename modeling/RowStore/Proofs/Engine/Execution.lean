/- RowStore/Proofs/Engine/Execution
   role: theorems
   digest: Operators that pull rows one by one do what a sweep over the rows ahead does. -/

import RowStore.Engine.Operator
import RowStore.Proofs.Engine.Sweep
import RowStore.Proofs.Table.Heap

/-!
A scanner stands before the rows ahead of it. Writes on rows that it has passed leave these alone,
so each step takes the first of them. A predicate passes over the rows that its filter does not
accept, and a change deals with every row that comes through: together they deal with the rows ahead
from the first to the last, as a sweep does. Besides, the scanner looks at the page of each row.
-/

set_option autoImplicit false
set_option relaxedAutoImplicit false

namespace RowStore

open RowStore.Row (Record RowFilter RowId)
open RowStore.Schema (Layout RowField)
open RowStore.Table (Heap)
open RowStore.Transaction (LockMode Touch TxnId View)

variable {table : Layout} {h : HandleId} {view : View} {scanner : Scanner} {engine : Engine}
  {row : Record} {rows rest : List Record} {txn : TxnId} {fate : Fate} {filter : RowFilter}
  {fault : Fault}

private theorem size_heap_le (heaps : List (Nat × Heap)) (table : Nat) :
    ((heaps.lookup table).getD {}).rows.size ≤
      heaps.foldr (fun e total => e.2.rows.size + total) 0 := by
  induction heaps with
  | nil => exact Nat.le_refl 0
  | cons e heaps ih =>
    obtain ⟨key, heap⟩ := e
    rw [List.foldr_cons, List.lookup_cons]
    by_cases same : table = key
    · rw [same, beq_self_eq_true]
      exact Nat.le_add_right _ _
    · rw [beq_false_of_ne same]
      exact Nat.le_trans ih (Nat.le_add_left _ _)

theorem Engine.size_le_rowCount (engine : Engine) (table : Nat) :
    (engine.heap table).rows.size ≤ engine.rowCount :=
  size_heap_le engine.heaps table

def Scanner.moveTo (scanner : Scanner) (row : Record) : Scanner :=
  { scanner with cursor := some row.id, page := some row.id.page }

/-- A scanner that reads for writing, with the rows still ahead of it. It has looked at its page. -/
structure Standing (table : Layout) (h : HandleId) (view : View) (scanner : Scanner)
    (engine : Engine) (rows : List Record) : Prop where
  layout : scanner.layout = table
  handle : scanner.handle = h
  mode : scanner.mode = .readWrite
  shows : scanner.view = some view
  entered : ∀ page, scanner.page = some page → engine.enter h page = engine
  ahead : (engine.heap table.id).ahead engine.stamps view scanner.cursor = rows

namespace Standing

theorem next_nil (standing : Standing table h view scanner engine []) :
    scanner.next engine = (.ok none, scanner, engine) := by
  unfold Scanner.next
  rw [standing.shows]
  dsimp only
  rw [Heap.next_eq_head?, standing.layout, standing.ahead]
  rfl

theorem next_cons (standing : Standing table h view scanner engine (row :: rest)) :
    scanner.next engine =
      (.ok (some row), scanner.moveTo row, engine.enter h row.id.page) := by
  unfold Scanner.next Scanner.moveTo
  rw [standing.shows]
  dsimp only
  rw [Heap.next_eq_head?, standing.layout, standing.ahead, List.head?_cons]
  dsimp only
  split
  case isTrue same => rw [standing.entered _ same]
  case isFalse => rw [standing.handle, standing.mode, Engine.checkLock_readWrite]

theorem moveTo (standing : Standing table h view scanner engine (row :: rest)) :
    Standing table h view (scanner.moveTo row) (engine.enter h row.id.page) rest where
  layout := standing.layout
  handle := standing.handle
  mode := standing.mode
  shows := standing.shows
  entered page at' := by
    cases at'
    exact engine.enter_enter h row.id.page
  ahead := Heap.ahead_of_cons standing.ahead

/-- A write on the row that the scanner stands at leaves the rows ahead alone. -/
theorem settle (standing : Standing table h view scanner engine rows)
    (carries : (engine.handle h).txn = some txn) (fate : Fate)
    (at' : scanner.cursor = some row.id) :
    Standing table h view scanner (engine.settle h table row.id fate).2 rows where
  layout := standing.layout
  handle := standing.handle
  mode := standing.mode
  shows := standing.shows
  entered page looked := by
    have comm := Engine.settle_enter carries page table row.id fate
    rw [standing.entered page looked] at comm
    exact (congrArg Prod.snd comm).symm
  ahead := by
    rw [← standing.ahead]
    apply Heap.ahead_congr
    intro id behind
    have apart : id ≠ row.id := by
      intro same
      have lt := behind row.id at'
      rw [same] at lt
      exact RowId.lt_irrefl _ lt
    have chain := Engine.chain_settle carries fate (t := ⟨table.id, id⟩)
      (show _ ≠ (⟨table.id, row.id⟩ : Touch) by simpa using apart)
    rw [Engine.stamps_settle carries]
    exact congrArg _ chain

theorem length_le (standing : Standing table h view scanner engine rows) :
    rows.length ≤ engine.rowCount := by
  rw [← standing.ahead]
  exact Nat.le_trans (Heap.length_ahead_le _ _ _ _) (engine.size_le_rowCount table.id)

end Standing

/-- An operator over a scanner advances to the first row ahead that a filter accepts. -/
structure Feeds (table : Layout) (h : HandleId) (view : View) (filter : RowFilter)
    (advance : Operator → Engine → Except Fault Bool × Operator × Engine)
    (feed : Scanner → Option Record → Operator) : Prop where
  record? : ∀ scanner row, (feed scanner row).record? = row
  exhausted : ∀ {scanner engine} row, Standing table h view scanner engine [] →
    advance (feed scanner row) engine = (.ok false, feed scanner none, engine)
  failed : ∀ {scanner engine r rest fault} row, Standing table h view scanner engine (r :: rest) →
    filter.accepts r.data = .error fault →
    advance (feed scanner row) engine =
      (.error fault, feed (scanner.moveTo r) (some r), engine.enter h r.id.page)
  accepted : ∀ {scanner engine r rest} row, Standing table h view scanner engine (r :: rest) →
    filter.accepts r.data = .ok true →
    advance (feed scanner row) engine =
      (.ok true, feed (scanner.moveTo r) (some r), engine.enter h r.id.page)
  passed : ∀ {scanner engine r rest} row, Standing table h view scanner engine (r :: rest) →
    filter.accepts r.data = .ok false →
    advance (feed scanner row) engine =
      advance (feed (scanner.moveTo r) (some r)) (engine.enter h r.id.page)

namespace Operator

private theorem nextWithin_scan (n : Nat) (table : Layout) (scanner : Scanner) (row : Option Record)
    (engine : Engine) :
    nextWithin (n + 1) (.scan table .readWrite (some scanner) row) engine =
      match scanner.next engine with
      | (.error fault, scanner, engine) =>
        (.error fault, .scan table .readWrite (some scanner) row, engine)
      | (.ok found, scanner, engine) =>
        (.ok found.isSome, .scan table .readWrite (some scanner) found, engine) := rfl

theorem feeds_scan (table : Layout) (h : HandleId) (view : View) (n : Nat) :
    Feeds table h view [] (nextWithin (n + 1))
      (fun scanner row => .scan table .readWrite (some scanner) row) where
  record? scanner row := by
    cases row <;> rfl
  exhausted row standing := by
    rw [nextWithin_scan, standing.next_nil]
    rfl
  failed row standing refused := by cases refused
  accepted row standing _ := by
    rw [nextWithin_scan, standing.next_cons]
    rfl
  passed row standing refused := by cases refused

end Operator

section Predicate

variable {advance : Operator → Engine → Except Fault Bool × Operator × Engine}
  {feed : Scanner → Option Record → Operator}

private theorem seek_fuel (feeds : Feeds table h view [] advance feed) (filter : RowFilter)
    {n m : Nat} (standing : Standing table h view scanner engine rows) (enough : rows.length < n)
    (enough' : rows.length < m) (row : Option Record) :
    seek filter advance Operator.record? n (feed scanner row) engine =
      seek filter advance Operator.record? m (feed scanner row) engine := by
  induction rows generalizing scanner engine n m row with
  | nil =>
    obtain ⟨n, rfl⟩ := Nat.exists_eq_succ_of_ne_zero (Nat.ne_of_gt enough)
    obtain ⟨m, rfl⟩ := Nat.exists_eq_succ_of_ne_zero (Nat.ne_of_gt enough')
    unfold seek
    rw [feeds.exhausted row standing]
  | cons r rest ih =>
    obtain ⟨n, rfl⟩ := Nat.exists_eq_succ_of_ne_zero (Nat.ne_zero_of_lt enough)
    obtain ⟨m, rfl⟩ := Nat.exists_eq_succ_of_ne_zero (Nat.ne_zero_of_lt enough')
    unfold seek
    rw [feeds.accepted row standing rfl]
    dsimp only
    rw [feeds.record?]
    dsimp only
    cases filter.accepts r.data with
    | error fault => rfl
    | ok accepted =>
      cases accepted with
      | true => rfl
      | false =>
        exact ih standing.moveTo (Nat.lt_of_succ_lt_succ enough) (Nat.lt_of_succ_lt_succ enough') _

private theorem nextWithin_predicate (n : Nat) (filter : RowFilter) (child : Operator)
    (engine : Engine) :
    Operator.nextWithin (n + 1) (.predicate filter child) engine =
      ((seek filter (Operator.nextWithin n) Operator.record? (engine.rowCount + 1) child engine).1,
        .predicate filter (seek filter (Operator.nextWithin n) Operator.record?
          (engine.rowCount + 1) child engine).2.1,
        (seek filter (Operator.nextWithin n) Operator.record? (engine.rowCount + 1) child
          engine).2.2) := rfl

theorem Operator.feeds_predicate (table : Layout) (h : HandleId) (view : View) (filter : RowFilter)
    (n : Nat) :
    Feeds table h view filter (nextWithin (n + 2))
      (fun scanner row => .predicate filter (.scan table .readWrite (some scanner) row)) where
  record? scanner row := by
    cases row <;> rfl
  exhausted row standing := by
    rw [nextWithin_predicate]
    unfold seek
    rw [(feeds_scan table h view n).exhausted row standing]
  failed row standing refused := by
    rw [nextWithin_predicate]
    unfold seek
    rw [(feeds_scan table h view n).accepted row standing rfl]
    dsimp only
    rw [(feeds_scan table h view n).record?]
    dsimp only
    rw [refused]
  accepted row standing accepts := by
    rw [nextWithin_predicate]
    unfold seek
    rw [(feeds_scan table h view n).accepted row standing rfl]
    dsimp only
    rw [(feeds_scan table h view n).record?]
    dsimp only
    rw [accepts]
  passed {scanner engine r rest} row standing refused := by
    have feeds := feeds_scan table h view n
    have room : rest.length < engine.rowCount := standing.length_le
    have step : seek filter (nextWithin (n + 1)) record? (engine.rowCount + 1)
        (.scan table .readWrite (some scanner) row) engine =
        seek filter (nextWithin (n + 1)) record? (engine.rowCount + 1)
          (.scan table .readWrite (some (scanner.moveTo r)) (some r))
          (engine.enter h r.id.page) := by
      refine Eq.trans ?_
        (seek_fuel feeds filter standing.moveTo room (Nat.lt_succ_of_lt room) (some r))
      conv_lhs => unfold seek
      rw [feeds.accepted row standing rfl]
      dsimp only
      rw [feeds.record?]
      dsimp only
      rw [refused]
    rw [nextWithin_predicate, nextWithin_predicate, step]
    rfl

end Predicate

namespace Engine

def enterAll (engine : Engine) (h : HandleId) (rows : List Record) : Engine :=
  rows.foldl (fun engine row => engine.enter h row.id.page) engine

theorem checkLocks_readWrite (engine : Engine) (h : HandleId) (rows : List Record) :
    rows.foldlM (fun engine row => engine.checkLock h row.id.page .readWrite) engine =
      .ok (engine.enterAll h rows) := by
  induction rows generalizing engine with
  | nil => rfl
  | cons row rest ih =>
    rw [List.foldlM_cons, checkLock_readWrite]
    exact ih (engine.enter h row.id.page)

theorem heaps_enterAll (engine : Engine) (h : HandleId) (rows : List Record) :
    (engine.enterAll h rows).heaps = engine.heaps := by
  induction rows generalizing engine with
  | nil => rfl
  | cons row rest ih => exact ih (engine.enter h row.id.page)

theorem registry_enterAll (engine : Engine) (h : HandleId) (rows : List Record) :
    (engine.enterAll h rows).registry = engine.registry := by
  induction rows generalizing engine with
  | nil => rfl
  | cons row rest ih => exact ih (engine.enter h row.id.page)

theorem enterAll_eq_self (entered : ∀ row ∈ rows, engine.enter h row.id.page = engine) :
    engine.enterAll h rows = engine := by
  induction rows with
  | nil => rfl
  | cons row rest ih =>
    obtain ⟨first, later⟩ := List.forall_mem_cons.1 entered
    unfold enterAll
    rw [List.foldl_cons, first]
    exact ih later

end Engine

namespace Change

variable {change : Change} {fields : List RowField}

/-- The outcome of a run of a change is that of a sweep over the rows, and the pages of the rows
that the sweep came to were looked at. -/
structure Sweeps (change : Change) (table : Layout) (fields : List RowField) (filter : RowFilter)
    (h : HandleId) (view : View) (feed : Scanner → Option Record → Operator) (rows : List Record)
    (engine : Engine) (affected : Nat) (outcome : Except Fault Bool × Nat × Operator × Engine) :
    Prop where
  result : outcome.1 = (change.sweepRows table fields filter h rows engine).1.map fun _ => false
  total : ∀ k, (change.sweepRows table fields filter h rows engine).1 = .ok k →
    outcome.2.1 = affected + k
  child : ∃ scanner row, outcome.2.2.1 = feed scanner row ∧ scanner.view = some view
  store : outcome.2.2.2 = (change.sweepRows table fields filter h rows engine).2.enterAll h
    (rows.take ((change.passed table fields filter h rows engine).length + 1))

variable {feed : Scanner → Option Record → Operator} {affected : Nat} {at' : Option Record}
  {outcome : Except Fault Bool × Nat × Operator × Engine}

namespace Sweeps

private theorem ended {after : Engine} {rest : List Record}
    (swept : change.sweepRows table fields filter h (row :: rest) engine = (.error fault, after))
    (passed : change.passed table fields filter h (row :: rest) engine = [])
    (shows : scanner.view = some view) :
    Sweeps change table fields filter h view feed (row :: rest) engine affected
      (.error fault, affected, feed scanner at', after.enter h row.id.page) := by
  constructor
  case result =>
    rw [swept]
    rfl
  case total =>
    intro k done
    rw [swept] at done
    cases done
  case child => exact ⟨scanner, at', rfl, shows⟩
  case store =>
    rw [swept, passed]
    rfl

theorem failed (rest : List Record) (decided : change.fate table fields filter row = .error fault)
    (shows : scanner.view = some view) :
    Sweeps change table fields filter h view feed (row :: rest) engine affected
      (.error fault, affected, feed scanner at', engine.enter h row.id.page) := by
  obtain ⟨swept, passed⟩ := sweepRows_failed (h := h) rest engine decided
  exact ended swept passed shows

theorem refused (rest : List Record) (decided : change.fate table fields filter row = .ok fate)
    (result : (engine.settle h table row.id fate).1 = .error fault)
    (shows : scanner.view = some view) :
    Sweeps change table fields filter h view feed (row :: rest) engine affected
      (.error fault, affected, feed scanner at',
        (engine.settle h table row.id fate).2.enter h row.id.page) := by
  obtain ⟨swept, passed⟩ := sweepRows_refused rest decided result
  exact ended swept passed shows

theorem settled (carries : (engine.handle h).txn = some txn)
    (decided : change.fate table fields filter row = .ok fate)
    (result : (engine.settle h table row.id fate).1 = .ok ())
    (later : Sweeps change table fields filter h view feed rest
      ((engine.settle h table row.id fate).2.enter h row.id.page)
      (affected + if fate = .kept then 0 else 1) outcome) :
    Sweeps change table fields filter h view feed (row :: rest) engine affected outcome := by
  obtain ⟨swept, passed⟩ := sweepRows_settled rest decided result
  obtain ⟨entered, entered'⟩ := sweepRows_enter change table fields filter rest
    (Engine.carries_settle carries table row.id fate) row.id.page
  constructor
  case result =>
    rw [later.result, entered, swept]
    cases (change.sweepRows table fields filter h rest
      (engine.settle h table row.id fate).2).1 <;> rfl
  case total =>
    intro k done
    rw [swept] at done
    cases counted : (change.sweepRows table fields filter h rest
        (engine.settle h table row.id fate).2).1 with
    | error fault =>
      rw [counted] at done
      cases done
    | ok j =>
      rw [counted] at done
      cases done
      have all := later.total j (by rw [entered]; exact counted)
      dsimp only
      omega
  case child => exact later.child
  case store =>
    rw [later.store, entered, entered', swept, passed]
    rfl

end Sweeps

/-- A change over an operator that stands before rows does what a sweep over these rows does. -/
theorem applyAll_sweeps {advance : Operator → Engine → Except Fault Bool × Operator × Engine}
    (feeds : Feeds table h view filter advance feed) (change : Change) (fields : List RowField)
    (consumer : Consumer) (standing : Standing table h view scanner engine rows)
    (carries : (engine.handle h).txn = some txn) {n : Nat} (enough : rows.length < n)
    (affected : Nat) (at' : Option Record) :
    Sweeps change table fields filter h view feed rows engine affected
      (applyAll (change.apply table fields h) consumer advance Operator.record? n affected
        (feed scanner at') engine) := by
  -- On the rows ahead: every turn of the loop passes over the first of them and leaves a child that
  -- stands before the rest.
  induction rows generalizing scanner engine n affected at' with
  | nil =>
    obtain ⟨n, rfl⟩ := Nat.exists_eq_succ_of_ne_zero (Nat.ne_of_gt enough)
    unfold applyAll
    rw [feeds.exhausted at' standing]
    refine ⟨rfl, fun k done => ?_, ⟨scanner, none, rfl, standing.shows⟩, rfl⟩
    cases done
    rfl
  | cons row rest ih =>
    obtain ⟨n, rfl⟩ := Nat.exists_eq_succ_of_ne_zero (Nat.ne_zero_of_lt enough)
    have carries' : ((engine.enter h row.id.page).handle h).txn = some txn :=
      (Engine.carried_enter engine h h row.id.page).trans carries
    have decided := change.fate_of_accepts table fields filter row
    unfold applyAll
    cases accepts : filter.accepts row.data with
    | error fault =>
      rw [accepts] at decided
      rw [feeds.failed at' standing accepts]
      exact Sweeps.failed rest decided standing.shows
    | ok accepted =>
      rw [accepts] at decided
      cases accepted with
      | false =>
        have later := ih standing.moveTo carries' (Nat.lt_of_succ_lt enough) affected (some row)
        unfold applyAll at later
        rw [feeds.passed at' standing accepts]
        exact Sweeps.settled carries decided rfl later
      | true =>
        rw [feeds.accepted at' standing accepts]
        dsimp only
        rw [feeds.record?]
        dsimp only
        rw [apply_eq]
        cases outcome : change.outcome table fields row with
        | error fault =>
          rw [outcome] at decided
          exact Sweeps.failed rest decided standing.shows
        | ok fate =>
          rw [outcome] at decided
          dsimp only
          -- The page has been looked at before the write; the sweep writes without looking.
          rw [Engine.settle_enter carries]
          cases result : (engine.settle h table row.id fate).1 with
          | error fault => exact Sweeps.refused rest decided result standing.shows
          | ok _ =>
            have written : fate ≠ .kept := change.outcome_ne_kept outcome
            have begun := standing.moveTo.settle carries' fate rfl
            have carries'' := Engine.carries_settle carries' table row.id fate
            rw [Engine.settle_enter carries] at begun carries''
            have later := ih begun carries'' (Nat.lt_of_succ_lt_succ enough) (affected + 1)
              (some row)
            refine Sweeps.settled carries decided result ?_
            rwa [if_neg written]

end Change

namespace Engine

private def writer (engine : Engine) (h : HandleId) (table : Layout) : Scanner :=
  { layout := table, handle := h, mode := .readWrite,
    view := some ((engine.ensureStarted h).2.registry.ownView (engine.ensureStarted h).1) }

private theorem start_writer (known : h < engine.handles.size) (table : Layout) :
    Scanner.start { layout := table, handle := h, mode := .readWrite } engine =
      (engine.writer h table, (engine.ensureStarted h).2) := by
  have carries := carries_ensureStarted known
  simp only [Scanner.start, readView]
  rw [carries]
  rfl

private theorem standing_writer (engine : Engine) (h : HandleId) (table : Layout) :
    Standing table h ((engine.ensureStarted h).2.registry.ownView (engine.ensureStarted h).1)
      (engine.writer h table) (engine.ensureStarted h).2 (engine.shownTo h table) where
  layout := rfl
  handle := rfl
  mode := rfl
  shows := rfl
  entered page looked := by cases looked
  ahead := Heap.ahead_none _ _ _

private theorem close_shows {scanner : Scanner}
    (shows : scanner.view = some (engine.registry.ownView txn)) (after : Engine) :
    (scanner.close after).2 = after := by
  unfold Scanner.close Scanner.releaseView
  rw [shows]
  rfl

private theorem drain_alter {change : Change} {fields : List RowField} {child child' : Operator}
    {begun : Engine} (resolved : change.resolve table = .ok fields)
    (starts : child.start h engine = (.ok (), child', begun))
    {outcome : Except Fault Bool × Nat × Operator × Engine}
    (run : applyAll (change.apply table fields h) change.consumer
      (Operator.nextWithin child'.height) Operator.record? (begun.rowCount + 1) 0 child' begun =
        outcome) :
    engine.drain h (.alter table change {} [child]) =
      (outcome.1.map fun _ => (),
        .alter table change { handle := some h, fields, affected := outcome.2.1 } [outcome.2.2.1],
        outcome.2.2.2) := by
  have opened : (Operator.alter table change {} [child]).start h engine =
      (.ok (), .alter table change { handle := some h, fields } [child'], begun) := by
    rw [Operator.start, resolved]
    dsimp only
    rw [starts]
  have advanced : (Operator.alter table change { handle := some h, fields } [child']).next begun =
      (outcome.1,
        .alter table change { handle := some h, fields, affected := outcome.2.1 } [outcome.2.2.1],
        outcome.2.2.2) := by
    rw [← run]
    rfl
  obtain ⟨result, total, left, after⟩ := outcome
  unfold drain
  rw [opened]
  dsimp only
  rw [advanced]
  cases result <;> rfl

private theorem execute_over (feed : Scanner → Option Record → Operator) {statement : Statement}
    {plan : Plan} {change : Change} {fields : List RowField} {child : Operator}
    (known : h < engine.handles.size) (planned : statement.plan = .ok plan)
    (built : Operator.ofPlan plan = .alter table change {} [child])
    (resolved : change.resolve table = .ok fields)
    (starts : child.start h engine =
      (.ok (), feed (engine.writer h table) none, (engine.ensureStarted h).2))
    (feeds : Feeds table h
      ((engine.ensureStarted h).2.registry.ownView (engine.ensureStarted h).1) filter
      (Operator.nextWithin (feed (engine.writer h table) none).height) feed)
    (closes : ∀ scanner row after, ((feed scanner row).close after).2 = (scanner.close after).2) :
    (engine.execute h statement).1 = (engine.sweep h table change fields filter).1 ∧
      (engine.execute h statement).2 = (engine.sweep h table change fields filter).2.enterAll h
        ((engine.shownTo h table).take ((change.passed table fields filter h
          (engine.shownTo h table) (engine.ensureStarted h).2).length + 1)) := by
  have standing := engine.standing_writer h table
  have enough : (engine.shownTo h table).length < (engine.ensureStarted h).2.rowCount + 1 :=
    Nat.lt_succ_of_le standing.length_le
  have sweeps := Change.applyAll_sweeps feeds change fields change.consumer standing
    (carries_ensureStarted known) enough 0 none
  generalize run : applyAll (change.apply table fields h) change.consumer
    (Operator.nextWithin (feed (engine.writer h table) none).height) Operator.record?
    ((engine.ensureStarted h).2.rowCount + 1) 0 (feed (engine.writer h table) none)
    (engine.ensureStarted h).2 = outcome at sweeps
  obtain ⟨result, total, ⟨scanner, at', left, shows⟩, store⟩ := sweeps
  have pass : engine.sweep h table change fields filter =
      change.sweepRows table fields filter h (engine.shownTo h table)
        (engine.ensureStarted h).2 := rfl
  unfold execute
  rw [planned, pass]
  dsimp only
  rw [built, drain_alter resolved starts run]
  dsimp only
  constructor
  · rw [result]
    cases swept : (change.sweepRows table fields filter h (engine.shownTo h table)
        (engine.ensureStarted h).2).1 with
    | error fault => rfl
    | ok count => exact congrArg Except.ok ((total count swept).trans (Nat.zero_add count))
  · rw [left, ← store]
    exact (closes scanner at' outcome.2.2.2).trans (close_shows shows _)

/-- Running a statement is a sweep over the rows that its transaction sees when it begins, and
looking at the pages of the rows that the sweep came to. -/
theorem execute_eq_sweep {statement : Statement} {change : Change} {fields : List RowField}
    (known : h < engine.handles.size)
    (planned : statement.plan = .ok (.alter table change [Plan.ofFilter table filter]))
    (resolved : change.resolve table = .ok fields) :
    (engine.execute h statement).1 = (engine.sweep h table change fields filter).1 ∧
      (engine.execute h statement).2 = (engine.sweep h table change fields filter).2.enterAll h
        ((engine.shownTo h table).take ((change.passed table fields filter h
          (engine.shownTo h table) (engine.ensureStarted h).2).length + 1)) := by
  have starts : (Operator.scan table .readWrite none none).start h engine =
      (.ok (), .scan table .readWrite (some (engine.writer h table)) none,
        (engine.ensureStarted h).2) := by
    rw [Operator.start, start_writer known]
  by_cases empty : filter = []
  · subst empty
    have built : Operator.ofPlan (.alter table change [Plan.ofFilter table []]) =
        .alter table change {} [.scan table .readWrite none none] := rfl
    exact execute_over (fun scanner row => .scan table .readWrite (some scanner) row) known planned
      built resolved starts (Operator.feeds_scan table h _ 0) fun _ _ _ => rfl
  · have built : Operator.ofPlan (.alter table change [Plan.ofFilter table filter]) =
        .alter table change {} [.predicate filter (.scan table .readWrite none none)] := by
      unfold Plan.ofFilter
      rw [if_neg empty]
      rfl
    refine execute_over
      (fun scanner row => .predicate filter (.scan table .readWrite (some scanner) row)) known
      planned built resolved ?_ (Operator.feeds_predicate table h _ filter 0) fun _ _ _ => rfl
    rw [Operator.start, starts]

end Engine

end RowStore
