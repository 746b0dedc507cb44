/- RowStore/Proofs/Run/ScanOutcome
   role: theorems
   digest: What a scan returns while others write, commit and roll back, and which rows it keeps. -/

import Mathlib.Data.List.Infix
import RowStore.Proofs.Run.Scanning

set_option autoImplicit false
set_option relaxedAutoImplicit false

namespace RowStore.Run

open RowStore.Row (Record RowId)
open RowStore.Table (Heap)
open RowStore.Text (Bytes)
open RowStore.Transaction (Timestamp TxnId)

variable {config : Config} {r : ScanRun config} {before : List Call} {row : RowId}

namespace ScanRun

def reads (r : ScanRun config) (before : List Call) (row : RowId) : Option Record :=
  ((r.after before).engine.heap r.table).read (r.after before).engine.stamps r.view row

/-- The records that the scan's view shows of the table when the scan has been opened. -/
def shown (r : ScanRun config) : List Record :=
  ((r.after []).engine.heap r.table).readAll (r.after []).engine.stamps r.view

def returned (r : ScanRun config) (before : List Call) : List Record :=
  (r.after before).returned r.scan

def ahead (r : ScanRun config) (before : List Call) : List Record :=
  (r.after before).ahead r.scan r.table r.view

def next (r : ScanRun config) (before : List Call) : Option (Except Fault (Option Record)) :=
  (r.after before).scans[r.scan]?.map fun scan =>
    (scan.scanner.next (r.after before).engine).1

/-- The view's own transaction writes only such rows of the table as the scan has returned. -/
def WritesBehind (r : ScanRun config) : Prop :=
  ∀ before call, before ++ [call] <+: r.calls → ∀ txn row write, r.view.own = some txn →
    (r.after (before ++ [call])).history =
      (r.after before).history ++ [.wrote txn ⟨r.table, row⟩ write] →
    ∃ record ∈ r.returned before, record.id = row

theorem reached_eq (r : ScanRun config) (before : List Call) :
    (r.after before).reached r.scan = (r.returned before).getLast?.map (·.id) := rfl

theorem ahead_eq (r : ScanRun config) (before : List Call) :
    r.ahead before = ((r.after before).engine.heap r.table).ahead (r.after before).engine.stamps
      r.view ((r.after before).reached r.scan) := rfl

theorem reads_eq_some {record : Record} : r.reads before record.id = some record ↔
    ((r.after before).engine.chain ⟨r.table, record.id⟩).read (r.after before).engine.stamps
      r.view = some record.data := by
  constructor
  · intro found
    obtain ⟨data, read, same⟩ := Option.map_eq_some_iff.1 found
    rw [← same]
    exact read
  · intro found
    exact Option.map_eq_some_iff.2 ⟨record.data, found, rfl⟩

theorem mem_ahead {record : Record} : record ∈ r.ahead before ↔
    (∀ id, (r.after before).reached r.scan = some id → id < record.id) ∧
      r.reads before record.id = some record := by
  rw [reads_eq_some]
  exact mem_ahead_iff

theorem history_opened (r : ScanRun config) (before : List Call) :
    ((initial config).run r.past).history <+: (r.after before).history := by
  rw [r.after_eq, run_append]
  exact history_run _ _

theorem history_now (part : before <+: r.calls) :
    (r.after before).history <+: (r.after r.calls).history := by
  obtain ⟨rest, eq⟩ := part
  rw [← eq]
  unfold after
  rw [run_append]
  exact history_run _ rest

theorem next_eq (part : before <+: r.calls) :
    r.next before = some (.ok (r.ahead before).head?) := by
  obtain ⟨scan, found, gives⟩ := (underway part).next_eq
  unfold next
  rw [found, Option.map_some, gives]
  rfl

theorem history_advance (r : ScanRun config) (before : List Call) :
    (r.after (before ++ [.advance r.scan])).history = (r.after before).history := by
  rw [after_append_singleton]
  simp only [State.step]
  split <;> rfl

theorem returned_advance (part : before ++ [.advance r.scan] <+: r.calls) :
    r.returned (before ++ [.advance r.scan]) =
      r.returned before ++ (r.ahead before).head?.toList := by
  unfold returned
  rw [after_append_singleton]
  exact (underway (prefix_of_append part)).advance.2

theorem returned_other {call : Call} (part : before ++ [call] <+: r.calls)
    (other : call ≠ .advance r.scan) : r.returned (before ++ [call]) = r.returned before := by
  unfold returned
  rw [after_append_singleton]
  exact ((underway (prefix_of_append part)).stay other (ne_closeScan part)).2

/-- The rows behind a given one stay the same if the view's own transaction writes none of them. -/
theorem ahead_step {call : Call} (cursor : Option RowId) (part : before ++ [call] <+: r.calls)
    (apart : ∀ row, (∀ last, cursor = some last → last < row) →
      ∀ txn write, r.view.own = some txn → (r.after (before ++ [call])).history ≠
        (r.after before).history ++ [.wrote txn ⟨r.table, row⟩ write]) :
    ((r.after (before ++ [call])).engine.heap r.table).ahead
        (r.after (before ++ [call])).engine.stamps r.view cursor =
      ((r.after before).engine.heap r.table).ahead (r.after before).engine.stamps r.view
        cursor := by
  apply Heap.ahead_congr
  intro row behind
  apply chain_read_step part
  intro txn write own
  rw [← after_append_singleton]
  exact apart row behind txn write own

theorem ahead_advance (part : before ++ [.advance r.scan] <+: r.calls) :
    r.ahead (before ++ [.advance r.scan]) = (r.ahead before).tail := by
  have silent : ∀ cursor, ((r.after (before ++ [.advance r.scan])).engine.heap r.table).ahead
      (r.after (before ++ [.advance r.scan])).engine.stamps r.view cursor =
        ((r.after before).engine.heap r.table).ahead (r.after before).engine.stamps r.view
          cursor := by
    intro cursor
    apply ahead_step cursor part
    intro row _ txn write _ wrote
    rw [history_advance] at wrote
    simp at wrote
  have moved := returned_advance part
  rw [ahead_eq, silent]
  cases first : r.ahead before with
  | nil =>
    rw [first, List.head?_nil, Option.toList_none, List.append_nil] at moved
    rw [reached_eq, moved, ← reached_eq, ← ahead_eq, first, List.tail_nil]
  | cons record rest =>
    rw [first, List.head?_cons, Option.toList_some] at moved
    rw [reached_eq, moved, List.getLast?_concat, Option.map_some, List.tail_cons]
    exact Heap.ahead_of_cons first

theorem ahead_other {call : Call} (behind : r.WritesBehind) (part : before ++ [call] <+: r.calls)
    (other : call ≠ .advance r.scan) : r.ahead (before ++ [call]) = r.ahead before := by
  rw [ahead_eq, ahead_eq, reached_eq, returned_other part other, ← reached_eq]
  apply ahead_step _ part
  intro row beyond txn write own wrote
  obtain ⟨record, returned, rfl⟩ := behind before call part txn row write own wrote
  have lt := (underway (prefix_of_append part)).lt_of_reached beyond record returned
  exact RowId.lt_irrefl _ lt

theorem returned_nil (r : ScanRun config) : r.returned [] = [] :=
  (openScan_underway r.takes).2.1

theorem ahead_nil (r : ScanRun config) : r.ahead [] = r.shown := by
  rw [ahead_eq, reached_eq, r.returned_nil]
  exact Heap.ahead_none _ _ _

/-- Each record was read by the view in the step that returned it. -/
theorem returned_read (part : before <+: r.calls) : ∀ record ∈ r.returned before,
    ∃ early, early ++ [.advance r.scan] <+: r.calls ∧
      r.returned (early ++ [.advance r.scan]) = r.returned early ++ [record] ∧
      r.reads early record.id = some record := by
  induction before using List.reverseRecOn with
  | nil =>
    intro record mem
    rw [r.returned_nil] at mem
    cases mem
  | append_singleton before call ih =>
    intro record mem
    by_cases advances : call = .advance r.scan
    · subst advances
      have moved := returned_advance part
      rw [moved] at mem
      rcases List.mem_append.1 mem with earlier | now
      · exact ih (prefix_of_append part) record earlier
      · have first : (r.ahead before).head? = some record := Option.mem_toList.1 now
        rw [first, Option.toList_some] at moved
        exact ⟨before, part, moved, (mem_ahead.1 (List.mem_of_head? first)).2⟩
    · rw [returned_other part advances] at mem
      exact ih (prefix_of_append part) record mem

/-- The records returned and the records ahead make up those shown at first. -/
theorem returned_take (behind : r.WritesBehind) (part : before <+: r.calls) :
    r.returned before = r.shown.take (before.count (.advance r.scan)) ∧
      r.ahead before = r.shown.drop (before.count (.advance r.scan)) := by
  induction before using List.reverseRecOn with
  | nil => exact ⟨r.returned_nil, r.ahead_nil⟩
  | append_singleton before call ih =>
    obtain ⟨taken, left⟩ := ih (prefix_of_append part)
    rw [List.count_append, List.count_singleton]
    by_cases advances : call = .advance r.scan
    · subst advances
      rw [returned_advance part, ahead_advance part, taken, left, List.head?_drop, List.tail_drop]
      simp [List.take_add_one]
    · have other : (call == .advance r.scan) = false := beq_false_of_ne advances
      rw [returned_other part advances, ahead_other behind part advances, other]
      exact ⟨taken, left⟩

theorem reads_of_ahead_nil (nothing : r.ahead before = [])
    (beyond : ∀ record ∈ r.returned before, record.id < row) : r.reads before row = none := by
  cases found : r.reads before row with
  | none => rfl
  | some record =>
    obtain ⟨data, -, rfl⟩ := Option.map_eq_some_iff.1 found
    have there : (⟨row, data⟩ : Record) ∈ r.ahead before := by
      refine mem_ahead.2 ⟨?_, found⟩
      intro id reached
      obtain ⟨last, isLast, rfl⟩ := Option.map_eq_some_iff.1 reached
      exact beyond last (List.mem_of_getLast? isLast)
    rw [nothing] at there
    cases there

end ScanRun

/-- A scan whose view stays registered returns rows in strictly increasing order of their ids, each
as its view read it in the step that returned it. No step fails. When the next step finds nothing,
the view shows no row behind all those returned. If the view is pinned, or if its own transaction
writes only rows that the scan has returned, the rows returned by so many steps are so many of the
rows that the view showed when the scan was opened, with their bytes of that moment, and when
nothing more is found they are all of them. -/
theorem scan_exact (r : ScanRun config) :
    (r.returned r.calls).Pairwise (fun a b => a.id < b.id) ∧
    (∀ record ∈ r.returned r.calls, ∃ early, early ++ [.advance r.scan] <+: r.calls ∧
      r.returned (early ++ [.advance r.scan]) = r.returned early ++ [record] ∧
      r.reads early record.id = some record) ∧
    ∃ found, r.next r.calls = some (.ok found) ∧
      (found = none → ∀ row, (∀ record ∈ r.returned r.calls, record.id < row) →
        r.reads r.calls row = none) ∧
      (r.view.isPinned = true ∨ r.WritesBehind →
        r.returned r.calls = r.shown.take (r.calls.count (.advance r.scan)) ∧
        (found = none → r.returned r.calls = r.shown)) := by
  have whole : r.calls <+: r.calls := List.prefix_refl _
  refine ⟨(ScanRun.underway whole).increasing, ScanRun.returned_read whole, _,
    ScanRun.next_eq whole, ?_, ?_⟩
  · intro none row beyond
    exact ScanRun.reads_of_ahead_nil (List.head?_eq_none_iff.1 none) beyond
  · intro cause
    have behind : r.WritesBehind := by
      rcases cause with pinned | behind
      · intro before call _ txn row write own
        rw [r.foreign pinned] at own
        cases own
      · exact behind
    obtain ⟨taken, left⟩ := ScanRun.returned_take behind whole
    refine ⟨taken, fun none => ?_⟩
    have nothing : r.ahead r.calls = [] := List.head?_eq_none_iff.1 none
    rw [taken]
    exact List.take_of_length_le (List.drop_eq_nil_iff.1 (left ▸ nothing))

/-- A row is inserted and committed, and a handle that has no transaction opens a scan. Then the
handle itself inserts a row and commits it, and the first row is replaced. -/
def scanOfOldRow : ScanRun {} where
  past := [.createTable ⟨"t", [⟨"a", .int, 4⟩]⟩, .newHandle, .newHandle, .insert 0 1 [1, 0, 0, 0],
    .commit 0]
  handle := 1
  table := 1
  mode := .readOnly
  view := { snapshot := 2, pin := some 0 }
  calls := [.insert 1 1 [2, 0, 0, 0], .commit 1, .replace 0 1 ⟨0, 0⟩ [3, 0, 0, 0], .commit 0,
    .advance 0]
  fits := fits_of_length (by decide)
  takes := by decide
  unclosed := by decide
  stays := Or.inl rfl

theorem history_scanOfOldRow :
    (scanOfOldRow.after scanOfOldRow.calls).history =
      [.wrote 0 ⟨1, ⟨0, 0⟩⟩ (.inserted [1, 0, 0, 0]), .committed 0 1,
        .wrote 1 ⟨1, ⟨0, 1⟩⟩ (.inserted [2, 0, 0, 0]), .committed 1 2,
        .wrote 2 ⟨1, ⟨0, 0⟩⟩ (.replaced [3, 0, 0, 0]), .committed 2 3] := by
  decide

/-- Two rows are inserted and committed, and a handle that has a transaction opens a scan. When the
first row has been returned, the handle itself replaces it, and the other row is deleted. -/
def scanOfOwnChange : ScanRun {} where
  past := [.createTable ⟨"t", [⟨"a", .int, 4⟩]⟩, .newHandle, .newHandle, .insert 0 1 [1, 0, 0, 0],
    .insert 0 1 [2, 0, 0, 0], .commit 0, .start 1]
  handle := 1
  table := 1
  mode := .readWrite
  view := { snapshot := 2, own := some 1 }
  calls := [.advance 0, .replace 1 1 ⟨0, 0⟩ [3, 0, 0, 0], .delete 0 1 ⟨0, 1⟩, .commit 0, .advance 0]
  fits := fits_of_length (by decide)
  takes := by decide
  unclosed := by decide
  stays := Or.inr (by decide)

theorem history_scanOfOwnChange :
    (scanOfOwnChange.after scanOfOwnChange.calls).history =
      [.wrote 0 ⟨1, ⟨0, 0⟩⟩ (.inserted [1, 0, 0, 0]),
        .wrote 0 ⟨1, ⟨0, 1⟩⟩ (.inserted [2, 0, 0, 0]), .committed 0 1,
        .wrote 1 ⟨1, ⟨0, 0⟩⟩ (.replaced [3, 0, 0, 0]), .wrote 2 ⟨1, ⟨0, 1⟩⟩ .deleted,
        .committed 2 2] := by
  decide

theorem writesBehind_scanOfOwnChange : scanOfOwnChange.WritesBehind := by
  intro before call part txn row write own wrote
  cases own
  have first : row = ⟨0, 0⟩ := by
    have event : .wrote 1 ⟨1, row⟩ write ∈
        (scanOfOwnChange.after scanOfOwnChange.calls).history := by
      apply (ScanRun.history_now part).subset
      rw [wrote]
      exact List.mem_append_right _ List.mem_cons_self
    rw [history_scanOfOwnChange] at event
    simp at event
    exact event.1
  subst first
  have returned : ∀ part ∈ scanOfOwnChange.calls.inits, part ≠ [] →
      ∃ record ∈ scanOfOwnChange.returned part, record.id = ⟨0, 0⟩ := by decide
  apply returned before ((List.mem_inits _ _).2 (ScanRun.prefix_of_append part))
  -- The first call returns the row and writes nothing.
  rintro rfl
  obtain rfl : call = .advance scanOfOwnChange.scan := (List.cons_prefix_cons.1 part).1
  rw [ScanRun.history_advance] at wrote
  simp at wrote

/-- The first scan returns the one row that was there, with its old bytes. The other one returns
both rows, the first before it is replaced, the second because the scan's transaction does not see
the deletion. -/
theorem scan_exact_old_rows :
    scanOfOldRow.returned scanOfOldRow.calls = [⟨⟨0, 0⟩, [1, 0, 0, 0]⟩] ∧
    scanOfOwnChange.returned scanOfOwnChange.calls =
      [⟨⟨0, 0⟩, [1, 0, 0, 0]⟩, ⟨⟨0, 1⟩, [2, 0, 0, 0]⟩] := by
  constructor
  · obtain ⟨-, -, found, -, -, exact'⟩ := scan_exact scanOfOldRow
    have shown : scanOfOldRow.shown = [⟨⟨0, 0⟩, [1, 0, 0, 0]⟩] := by decide
    rw [(exact' (Or.inl rfl)).1, shown]
    decide
  · obtain ⟨-, -, found, -, -, exact'⟩ := scan_exact scanOfOwnChange
    have shown : scanOfOwnChange.shown =
        [⟨⟨0, 0⟩, [1, 0, 0, 0]⟩, ⟨⟨0, 1⟩, [2, 0, 0, 0]⟩] := by decide
    rw [(exact' (Or.inr writesBehind_scanOfOwnChange)).1, shown]
    decide

theorem read_ne_none {history : History} {t : Transaction.Touch} {view : Transaction.View}
    {txn : TxnId} {write : Write} (seen : txn ∈ history.settledBefore view.snapshot)
    (wrote : .wrote txn t write ∈ history) (kept : ∀ txn, .wrote txn t .deleted ∉ history) :
    history.read t view ≠ none := by
  have made : write ∈ (history.settledBefore view.snapshot ++ view.own.toList).flatMap
      (history.writes t) :=
    List.mem_flatMap.2 ⟨txn, List.mem_append_left _ seen, History.mem_writes.2 wrote⟩
  unfold History.read
  rcases List.eq_nil_or_concat ((history.settledBefore view.snapshot ++ view.own.toList).flatMap
    (history.writes t)) with none | ⟨front, last, eq⟩
  · rw [none] at made
    cases made
  · have lastMade : last ∈ (history.settledBefore view.snapshot ++ view.own.toList).flatMap
        (history.writes t) := by
      rw [eq, List.concat_eq_append]
      exact List.mem_append_right front List.mem_cons_self
    obtain ⟨writer, -, byWriter⟩ := List.mem_flatMap.1 lastMade
    rw [eq, List.concat_eq_append, replay_append_singleton]
    cases last with
    | inserted data => exact Option.some_ne_none data
    | replaced data => exact Option.some_ne_none data
    | deleted => exact absurd (History.mem_writes.1 byWriter) (kept writer)

namespace ScanRun

theorem lt_snapshot (r : ScanRun config) {txn : TxnId} {time : Timestamp}
    (pinned : r.view.isPinned = true)
    (committed : .committed txn time ∈ ((initial config).run r.past).history) :
    time < r.view.snapshot := by
  obtain ⟨commits, inserts, s⟩ := r.sound List.nil_prefix
  obtain ⟨-, -, -, past⟩ := s.dated.committed txn time ((r.history_opened []).subset committed)
  rcases (openScan_underway r.takes).2.2 with ⟨-, now⟩ | ⟨txn', -, own⟩
  · rw [now]
    exact past
  · rw [own] at pinned
    cases pinned

/-- A row that the view reads throughout is returned before the scan gets behind it. -/
theorem returned_or_ahead (there : ∀ before, before <+: r.calls → r.reads before row ≠ none)
    (part : before <+: r.calls) : (∃ record ∈ r.returned before, record.id = row) ∨
      ∀ last, (r.after before).reached r.scan = some last → last < row := by
  induction before using List.reverseRecOn with
  | nil =>
    rw [reached_eq, r.returned_nil]
    exact Or.inr fun last none => by cases none
  | append_singleton before call ih =>
    have earlier := prefix_of_append part
    by_cases advances : call = .advance r.scan
    · subst advances
      have moved := returned_advance part
      rcases ih earlier with ⟨record, returned, same⟩ | beyond
      · exact Or.inl ⟨record, moved ▸ List.mem_append_left _ returned, same⟩
      · -- The row is still read, so it is ahead: it is returned now, or it lies behind what is.
        have shown := there before earlier
        obtain ⟨record, found⟩ := Option.ne_none_iff_exists'.1 shown
        obtain ⟨data, -, rfl⟩ := Option.map_eq_some_iff.1 found
        have mem : (⟨row, data⟩ : Record) ∈ r.ahead before := mem_ahead.2 ⟨beyond, found⟩
        have increasing := ((r.after before).engine.heap r.table).ahead_increasing
          (r.after before).engine.stamps r.view ((r.after before).reached r.scan)
        rw [← ahead_eq] at increasing
        cases first : r.ahead before with
        | nil =>
          rw [first] at mem
          cases mem
        | cons record rest =>
          rw [first, List.head?_cons, Option.toList_some] at moved
          rw [first] at mem increasing
          rcases List.mem_cons.1 mem with rfl | later
          · exact Or.inl ⟨⟨row, data⟩, moved ▸ by simp, rfl⟩
          · have lt := (List.pairwise_cons.1 increasing).1 _ later
            refine Or.inr fun last reached => ?_
            rw [reached_eq, moved, List.getLast?_concat] at reached
            cases reached
            exact lt
    · rw [reached_eq, returned_other part advances, ← reached_eq]
      exact ih earlier

end ScanRun

/-- A row that was inserted and committed before the scan was opened, and early enough for the
scan's view to show it, is returned exactly once by the time the scan finds nothing more, if nobody
ever deletes it. A pinned view shows all rows committed before the scan was opened. -/
theorem scan_returns_kept_row (r : ScanRun config) {txn : TxnId} {data : Bytes} {time : Timestamp}
    (inserted : .wrote txn ⟨r.table, row⟩ (.inserted data) ∈ ((initial config).run r.past).history)
    (committed : .committed txn time ∈ ((initial config).run r.past).history)
    (early : r.view.isPinned = true ∨ time < r.view.snapshot)
    (kept : ∀ txn, .wrote txn ⟨r.table, row⟩ .deleted ∉ (r.after r.calls).history)
    (exhausted : r.next r.calls = some (.ok none)) :
    ((r.returned r.calls).map (·.id)).count row = 1 := by
  have whole : r.calls <+: r.calls := List.prefix_refl _
  have u := ScanRun.underway whole
  have shown : time < r.view.snapshot := by
    rcases early with pinned | shown
    · exact r.lt_snapshot pinned committed
    · exact shown
  have there : ∀ before, before <+: r.calls → r.reads before row ≠ none := by
    intro before part
    obtain ⟨commits, inserts, s⟩ := r.sound part
    have opened := (r.history_opened before).subset
    have settled : txn ∈ (r.after before).history.settledBefore r.view.snapshot :=
      s.dated.mem_settledBefore.2 ⟨time, opened committed, shown⟩
    have read := read_ne_none settled (opened inserted) fun txn deleted =>
      kept txn ((ScanRun.history_now part).subset deleted)
    unfold ScanRun.reads
    rw [s.heap_read (ScanRun.registered part)]
    simpa using read
  have nodup : ((r.returned r.calls).map (·.id)).Nodup := by
    apply List.pairwise_map.2
    apply u.increasing.imp
    intro a b lt same
    rw [same] at lt
    exact RowId.lt_irrefl _ lt
  have none : r.ahead r.calls = [] := by
    rw [ScanRun.next_eq whole] at exhausted
    exact List.head?_eq_none_iff.1 (Except.ok.inj (Option.some.inj exhausted))
  rcases ScanRun.returned_or_ahead there whole with ⟨record, returned, rfl⟩ | beyond
  · exact List.count_eq_one_of_mem nodup (List.mem_map_of_mem returned)
  · exact absurd (ScanRun.reads_of_ahead_nil none (u.lt_of_reached beyond)) (there _ whole)

theorem scan_returns_kept_row_replaced :
    ((scanOfOldRow.returned scanOfOldRow.calls).map (·.id)).count ⟨0, 0⟩ = 1 ∧
    ((scanOfOwnChange.returned scanOfOwnChange.calls).map (·.id)).count ⟨0, 0⟩ = 1 := by
  constructor
  · have kept : ∀ txn, .wrote txn ⟨1, ⟨0, 0⟩⟩ .deleted ∉
        (scanOfOldRow.after scanOfOldRow.calls).history := by
      intro txn deleted
      rw [history_scanOfOldRow] at deleted
      simp at deleted
    exact @scan_returns_kept_row _ ⟨0, 0⟩ scanOfOldRow 0 [1, 0, 0, 0] 1 (by decide) (by decide)
      (Or.inl rfl) kept (by decide)
  · have kept : ∀ txn, .wrote txn ⟨1, ⟨0, 0⟩⟩ .deleted ∉
        (scanOfOwnChange.after scanOfOwnChange.calls).history := by
      intro txn deleted
      rw [history_scanOfOwnChange] at deleted
      simp at deleted
    exact @scan_returns_kept_row _ ⟨0, 0⟩ scanOfOwnChange 0 [1, 0, 0, 0] 1 (by decide)
      (by decide) (Or.inr (by decide)) kept (by decide)

/-- A handle begins its transaction before a row is committed and opens a scan after that. -/
def scanOfYoungRow : List Call :=
  [.createTable ⟨"t", [⟨"a", .int, 4⟩]⟩, .newHandle, .newHandle, .start 1,
    .insert 0 1 [1, 0, 0, 0], .commit 0, .openScan 1 1 .readOnly]

/-- The row was inserted and committed before the scan was opened and is never deleted, but the
transaction of the scan's handle began earlier: the scan is open, finds nothing and has returned
nothing. -/
theorem scan_misses_young_row :
    ((initial {}).run scanOfYoungRow).history =
      [.wrote 1 ⟨1, ⟨0, 0⟩⟩ (.inserted [1, 0, 0, 0]), .committed 1 1] ∧
    (((initial {}).run scanOfYoungRow).scans[0]?.map fun scan =>
      (scan.scanner.isOpen, (scan.scanner.next ((initial {}).run scanOfYoungRow).engine).1)) =
        some (true, .ok none) ∧
    ((((initial {}).run scanOfYoungRow).returned 0).map (·.id)).count ⟨0, 0⟩ = 0 := by
  decide

/-- When the handle ends its transaction, the scan stays open but its view is registered no longer.
The versions that it reads may be forgotten then. -/
example : (((initial {}).run [.createTable ⟨"t", [⟨"a", .int, 4⟩]⟩, .newHandle, .newHandle,
    .insert 0 1 [1, 0, 0, 0], .commit 0, .start 1, .openScan 1 1 .readOnly, .commit 1,
    .replace 0 1 ⟨0, 0⟩ [2, 0, 0, 0], .commit 0, .advance 0]).returned 0) = [] := by
  decide

end RowStore.Run
