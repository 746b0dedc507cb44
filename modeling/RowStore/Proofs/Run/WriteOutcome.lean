/- RowStore/Proofs/Run/WriteOutcome
   role: theorems
   digest: The surviving write on a row decides whether a transaction may write it. -/

import RowStore.Proofs.Run.Steps

/-!
A write looks only at the newest version that is stored. In every reachable state that version tells
the surviving write on the row, or the whole row has been forgotten because everybody sees that it is
deleted. So the outcome follows from the history, however much a purge has removed. As each standing
write was made by a transaction that saw all earlier ones, no update is lost.
-/

set_option autoImplicit false
set_option relaxedAutoImplicit false

namespace RowStore.Run

open RowStore.Row (RowId)
open RowStore.Schema (Layout)
open RowStore.Table (Chain Version)
open RowStore.Table.Chain
open RowStore.Text (Bytes)
open RowStore.Transaction (Registry Timestamp Touch TxnId View isSettled_iff openBit)
open RowStore.Transaction.View (sees_of_isSettled)
open RowStore.Transaction.Registry (horizon_le_of_mem ownView_sees_iff)

variable {config : Config} {commits : Nat} {inserts : Nat → Nat} {state : State} {h : HandleId}
  {registry : Registry} {running : List TxnId} {history : History} {txn : TxnId} {row : RowId}
  {writes : List (TxnId × Write)} {chain : Chain}

def verdict (registry : Registry) (txn : TxnId) (row : RowId) :
    Option (TxnId × Write) → Except Fault Unit
  | none => .error (.rowNotFound row)
  | some (maker, write) =>
    if (registry.ownView txn).sees registry.stamp maker then
      if write = .deleted then .error (.rowNotFound row) else .ok ()
    else .error (.writeConflict row)

theorem admits_newest (forward : Forward registry) (orderly : Orderly registry writes)
    {front : Chain} {newest : Version} (eq : versions writes = front ++ [newest]) :
    (checkWritable registry.stamp (registry.ownView txn) row newest).map (fun _ => ()) =
      verdict registry txn row writes.getLast? := by
  rcases List.eq_nil_or_concat writes with rfl | ⟨before, ⟨maker, write⟩, rfl⟩
  · simp at eq
  · rw [List.concat_eq_append] at orderly eq ⊢
    obtain ⟨front', newest', eq', made, kept⟩ := exists_newest orderly List.getLast?_concat
    obtain ⟨-, same⟩ := List.append_inj' (eq.symm.trans eq') rfl
    cases List.cons.inj same |>.1
    rw [List.getLast?_concat]
    unfold checkWritable verdict
    rcases kept with ⟨rfl, left, free⟩ | ⟨rfl, deleted⟩
    · have present : write ≠ .deleted := by
        rintro rfl
        cases left
      by_cases seen : (registry.ownView txn).sees registry.stamp newest.creator = true
      · simp [seen, free, present, Except.map]
      · simp [seen, Except.map]
    · by_cases seen : (registry.ownView txn).sees registry.stamp maker = true
      · -- Who sees the deletion also sees the version deleted.
        have through := sees_trans forward (grounded_ownView registry txn) seen made
        simp [seen, through, deleted, Except.map]
      · by_cases old : (registry.ownView txn).sees registry.stamp newest.creator = true
        · simp [seen, old, deleted, Except.map]
        · simp [seen, old, Except.map]

theorem admits_versions (forward : Forward registry) (orderly : Orderly registry writes)
    (txn : TxnId) (row : RowId) :
    (versions writes).admits registry.stamp (registry.ownView txn) row =
      verdict registry txn row writes.getLast? := by
  unfold admits
  cases last : (versions writes).getLast? with
  | some newest =>
    obtain ⟨front, eq⟩ := List.getLast?_eq_some_iff.1 last
    exact admits_newest forward orderly eq
  | none =>
    cases written : writes.getLast? with
    | none => rfl
    | some made =>
      obtain ⟨front, newest, eq, -⟩ := exists_newest orderly written
      rw [eq, List.getLast?_concat] at last
      cases last

/-- A purge makes no difference to the outcome of a write. -/
theorem Keeps.admits (forward : Forward registry) (h : Keeps registry writes chain)
    (recent : registry.horizon ≤ registry.snapshot txn) (row : RowId) :
    chain.admits registry.stamp (registry.ownView txn) row =
      verdict registry txn row writes.getLast? := by
  rcases List.eq_nil_or_concat chain with rfl | ⟨front, newest, rfl⟩
  · -- The row is gone: the newest version is deleted, and the transaction sees that.
    obtain ⟨old, eq, obsolete⟩ := h.kept
    rw [List.append_nil] at eq
    subst eq
    cases written : writes.getLast? with
    | none => rfl
    | some made =>
      obtain ⟨maker, write⟩ := made
      obtain ⟨front, newest, eq, -, kept⟩ := exists_newest h.orderly written
      have last : (versions writes).getLast? = some newest := by rw [eq, List.getLast?_concat]
      obtain ⟨-, d, named, gone⟩ := obsolete newest last
      rcases kept with ⟨-, -, free⟩ | ⟨rfl, deleted⟩
      · rw [free] at named
        cases named
      · cases named.symm.trans deleted
        have seen : (registry.ownView txn).sees registry.stamp maker = true :=
          sees_of_isSettled gone recent
        simp [Chain.admits, verdict, seen]
  · rw [List.concat_eq_append] at h ⊢
    obtain ⟨older, eq⟩ := h.newest
    unfold Chain.admits
    rw [List.getLast?_concat]
    exact admits_newest forward h.orderly eq

/-- The outcome of a replacement or a deletion by a transaction with a snapshot. The surviving write
must be one of its own or one committed before the snapshot. -/
def History.outcome (history : History) (txn : TxnId) (snapshot : Timestamp) (t : Touch) :
    Except Fault Unit :=
  match history.surviving t with
  | none => .error (.rowNotFound t.row)
  | some (maker, write) =>
    if maker = txn ∨ (history.commitTime? maker).any fun time => decide (time < snapshot) then
      if write = .deleted then .error (.rowNotFound t.row) else .ok ()
    else .error (.writeConflict t.row)

theorem Dated.commitTime?_eq_some (h : Dated registry running history) {time : Timestamp} :
    history.commitTime? txn = some time ↔ Event.committed txn time ∈ history := by
  unfold History.commitTime?
  constructor
  · intro found
    obtain ⟨before, after, eq, -⟩ := List.lookup_eq_some_iff.1 found
    exact mem_commits.1 (eq ▸ List.mem_append_right before List.mem_cons_self)
  · intro committed
    have present : (history.filterMap Event.commit?).lookup txn ≠ none := by
      intro none
      have differs := List.lookup_eq_none_iff.1 none _ (mem_commits.2 committed)
      simp at differs
    obtain ⟨other, found⟩ := Option.ne_none_iff_exists'.1 present
    obtain ⟨before, after, eq, -⟩ := List.lookup_eq_some_iff.1 found
    have first := mem_commits.1 (eq ▸ List.mem_append_right before List.mem_cons_self)
    obtain ⟨-, -, stamp, -⟩ := h.committed txn other first
    obtain ⟨-, -, stamp', -⟩ := h.committed txn time committed
    rw [found, ← stamp, ← stamp']

theorem Dated.ownView_sees_iff (timely : registry.Timely running)
    (h : Dated registry running history) {maker : TxnId} (known : maker < registry.txns.size) :
    (registry.ownView txn).sees registry.stamp maker = true ↔ maker = txn ∨
      ((history.commitTime? maker).any fun time => decide (time < registry.snapshot txn)) =
        true := by
  rw [Registry.ownView_sees_iff, ← h.mem_settledBefore_iff timely known, h.mem_settledBefore,
    Option.any_eq_true]
  simp only [h.commitTime?_eq_some, decide_eq_true_eq]

namespace Sound

/-- A running transaction may write a row as the history says. -/
theorem verdict_eq (s : Sound config commits inserts state) (t : Touch) :
    verdict state.engine.registry txn t.row (state.history.standing t).getLast? =
      state.history.outcome txn (state.engine.registry.snapshot txn) t := by
  unfold History.outcome
  rw [History.surviving_eq]
  cases last : (state.history.standing t).getLast? with
  | none => rfl
  | some made =>
    have known := (s.keeps t).orderly.known made (List.mem_of_getLast? last)
    simp only [verdict, s.dated.ownView_sees_iff s.timely known]

theorem admits (s : Sound config commits inserts state) (runs : txn ∈ state.unfinished)
    (t : Touch) :
    (state.engine.chain t).admits state.engine.stamps (state.engine.registry.ownView txn) t.row =
      state.history.outcome txn (state.engine.registry.snapshot txn) t := by
  rw [← s.verdict_eq]
  exact (s.keeps t).admits s.timely.forward
    (horizon_le_of_mem (s.covers.snapshot_mem_of_running runs)) t.row

theorem apart (s : Sound config commits inserts state) {t : Touch} {a b : TxnId}
    {timeA timeB : Timestamp} {writeA writeB : Write} (different : a ≠ b)
    (committedA : .committed a timeA ∈ state.history)
    (committedB : .committed b timeB ∈ state.history)
    (wroteA : .wrote a t writeA ∈ state.history) (wroteB : .wrote b t writeB ∈ state.history) :
    timeA < state.engine.registry.snapshot b ∨ timeB < state.engine.registry.snapshot a := by
  have stands {txn : TxnId} {time : Timestamp} (committed : .committed txn time ∈ state.history) :
      Event.withdrawn txn ∉ state.history := by
    intro withdrawn
    obtain ⟨-, -, rfl, past⟩ := s.dated.committed txn time committed
    have opened := (s.dated.withdrawn txn withdrawn).2.2
    exact Nat.lt_asymm (Nat.lt_trans past s.timely.clock_lt) opened
  have seen {earlier later : TxnId × Write} {time : Timestamp}
      (follows : Follows state.engine.registry earlier later) (apart : earlier.1 ≠ later.1)
      (committed : .committed earlier.1 time ∈ state.history) :
      time < state.engine.registry.snapshot later.1 := by
    obtain ⟨-, -, stamp, -⟩ := s.dated.committed _ time committed
    have settled := (Registry.ownView_sees_iff.1 follows.seen).resolve_left apart
    exact stamp ▸ (isSettled_iff.1 settled).2
  have memA : (a, writeA) ∈ state.history.standing t :=
    History.mem_standing.2 ⟨wroteA, stands committedA⟩
  have memB : (b, writeB) ∈ state.history.standing t :=
    History.mem_standing.2 ⟨wroteB, stands committedB⟩
  have distinct : (a, writeA) ≠ (b, writeB) := by simp [different]
  rcases (s.keeps t).orderly.follows_or_follows memA memB distinct with ab | ba
  · exact Or.inl (seen ab different committedA)
  · exact Or.inr (seen ba (Ne.symm different) committedB)

end Sound

theorem delete_fst {engine : Engine} (carries : (engine.handle h).txn = some txn)
    (layout : Layout) (row : RowId) :
    (engine.delete h layout row).1 =
      (engine.chain ⟨layout.id, row⟩).admits engine.stamps (engine.registry.ownView txn) row := by
  unfold Engine.delete
  rw [Engine.ensureStarted_of_carries carries, ← delete_outcome _ _ txn]
  dsimp only
  rw [Engine.deleteRow_eq]
  cases Chain.delete engine.stamps (engine.registry.ownView txn) txn row
    (engine.chain ⟨layout.id, row⟩) <;> rfl

theorem replace_fst {engine : Engine} (carries : (engine.handle h).txn = some txn)
    {layout : Layout} (row : RowId) {data : Bytes} (fits : data.length = layout.recordSize) :
    (engine.replace h layout row data).1 =
      (engine.chain ⟨layout.id, row⟩).admits engine.stamps (engine.registry.ownView txn) row := by
  unfold Engine.replace
  rw [Engine.ensureStarted_of_carries carries, ← replace_outcome _ _ txn row data]
  dsimp only
  rw [Engine.replaceRow_eq, if_pos fits]
  cases Chain.replace engine.stamps (engine.registry.ownView txn) txn row data
    (engine.chain ⟨layout.id, row⟩) <;> rfl

/-- In every reachable state a running transaction deletes or replaces a row with the outcome that
the history gives, which is also the outcome on the versions of all standing writes, none of them
purged. Of two committed transactions that wrote the same row, one was committed before the other
began, so neither overwrote what it had not seen. -/
theorem no_lost_update (reach : Reachable config state)
    (carries : (state.engine.handle h).txn = some txn) :
    (∀ (layout : Layout) (row : RowId),
      (state.engine.delete h layout row).1 =
        state.history.outcome txn (state.engine.registry.snapshot txn) ⟨layout.id, row⟩ ∧
      (∀ data, data.length = layout.recordSize →
        (state.engine.replace h layout row data).1 =
          state.history.outcome txn (state.engine.registry.snapshot txn) ⟨layout.id, row⟩) ∧
      (versions (state.history.standing ⟨layout.id, row⟩)).admits state.engine.stamps
          (state.engine.registry.ownView txn) row =
        state.history.outcome txn (state.engine.registry.snapshot txn) ⟨layout.id, row⟩) ∧
    ∀ a b timeA timeB t writeA writeB, a ≠ b →
      .committed a timeA ∈ state.history → .committed b timeB ∈ state.history →
      .wrote a t writeA ∈ state.history → .wrote b t writeB ∈ state.history →
      timeA < state.engine.registry.snapshot b ∨ timeB < state.engine.registry.snapshot a := by
  obtain ⟨commits, inserts, s⟩ := reach.sound
  have runs : txn ∈ state.unfinished := Engine.mem_running_of_carries carries
  constructor
  · intro layout row
    refine ⟨?_, ?_, ?_⟩
    · rw [delete_fst carries]
      exact s.admits runs ⟨layout.id, row⟩
    · intro data fits
      rw [replace_fst carries row fits]
      exact s.admits runs ⟨layout.id, row⟩
    · rw [← s.verdict_eq ⟨layout.id, row⟩]
      exact admits_versions s.timely.forward (s.keeps ⟨layout.id, row⟩).orderly txn row
  · intro a b timeA timeB t writeA writeB different committedA committedB wroteA wroteB
    exact s.apart different committedA committedB wroteA wroteB

def overtaken : List Call :=
  [.createTable ⟨"t", [⟨"a", .int, 4⟩]⟩, .newHandle, .newHandle, .insert 0 1 [1, 0, 0, 0], .commit 0,
    .start 1, .replace 0 1 ⟨0, 0⟩ [2, 0, 0, 0], .commit 0]

theorem no_lost_update_overtaken :
    (((initial {}).run overtaken).engine.handle 1).txn = some 1 ∧
    ((initial {}).run overtaken).history.outcome 1
      (((initial {}).run overtaken).engine.registry.snapshot 1) ⟨1, ⟨0, 0⟩⟩ =
        .error (.writeConflict ⟨0, 0⟩) ∧
    (((initial {}).run overtaken).engine.delete 1 ⟨1, "t", [⟨"a", .int, 0, 4⟩]⟩ ⟨0, 0⟩).1 =
      .error (.writeConflict ⟨0, 0⟩) := by
  have reach : Reachable {} ((initial {}).run overtaken) :=
    ⟨overtaken, fits_of_length (by decide), by decide, rfl⟩
  have carries : (((initial {}).run overtaken).engine.handle 1).txn = some 1 := by decide
  have conflict : ((initial {}).run overtaken).history.outcome 1
      (((initial {}).run overtaken).engine.registry.snapshot 1) ⟨1, ⟨0, 0⟩⟩ =
        .error (.writeConflict ⟨0, 0⟩) := by rfl
  refine ⟨carries, conflict, ?_⟩
  rw [((no_lost_update reach carries).1 ⟨1, "t", [⟨"a", .int, 0, 4⟩]⟩ ⟨0, 0⟩).1]
  exact conflict

end RowStore.Run
