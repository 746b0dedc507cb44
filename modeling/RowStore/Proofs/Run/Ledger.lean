/- RowStore/Proofs/Run/Ledger
   role: theorems
   digest: Histories in step with the registry, and readings as replays of the standing writes. -/

import RowStore.Proofs.Run.Keeping

/-!
The writes that stand on a row are those of transactions that were not rolled back, in the order in
which they were made. When the history dates the commits as the registry does and the writes are
orderly, the standing writes that a view sees are the ones that the history replays for it: the
commits come in the order of their times, and the view's own writes come last.
-/

set_option autoImplicit false
set_option relaxedAutoImplicit false

namespace RowStore.Run

open RowStore.Text (Bytes)
open RowStore.Transaction (Registry Timestamp Touch TxnId View isSettled isSettled_iff openBit
  tick_of_lt)
open RowStore.Transaction.View (sees_iff)
open RowStore.Transaction.Registry (Timely clock_start size_start stamp_start clock_commit
  size_commit stamp_commit size_rollback stamp_rollback)

variable {registry : Registry} {running : List TxnId} {history : History} {txn : TxnId}
  {row : Touch} {view : View}

namespace History

theorem mem_of_ne_last {event last : Event} (mem : event ∈ history ++ [last])
    (other : event ≠ last) : event ∈ history := by
  rcases List.mem_append.1 mem with before | now
  · exact before
  · exact absurd (List.mem_singleton.1 now) other

theorem mem_writes {write : Write} :
    write ∈ history.writes row txn ↔ .wrote txn row write ∈ history := by
  unfold History.writes
  rw [List.mem_filterMap]
  constructor
  · rintro ⟨event, mem, isWrite⟩
    cases event with
    | wrote writer written write' =>
      simp only [Event.writeOf?] at isWrite
      split at isWrite
      case isTrue same =>
        cases isWrite
        exact same.1 ▸ same.2 ▸ mem
      case isFalse => cases isWrite
    | committed txn time => cases isWrite
    | withdrawn txn => cases isWrite
  · intro mem
    exact ⟨_, mem, by simp [Event.writeOf?]⟩

/-- The writes on a row by transactions that were not rolled back, in the order in which they were
made. -/
def standing (history : History) (row : Touch) : List (TxnId × Write) :=
  (history.filterMap (Event.writeOn? row)).filter fun made => !history.isWithdrawn made.1

theorem surviving_eq (history : History) (row : Touch) :
    history.surviving row = (history.standing row).getLast? := rfl

theorem isWithdrawn_iff : history.isWithdrawn txn = true ↔ Event.withdrawn txn ∈ history := by
  simp [isWithdrawn]

theorem mem_standing {made : TxnId × Write} :
    made ∈ history.standing row ↔
      Event.wrote made.1 row made.2 ∈ history ∧ Event.withdrawn made.1 ∉ history := by
  have on (event : Event) :
      event.writeOn? row = some made ↔ event = .wrote made.1 row made.2 := by
    obtain ⟨maker, write⟩ := made
    cases event with
    | wrote txn written write' =>
      simp only [Event.writeOn?, Event.wrote.injEq]
      split
      case isTrue same => simp [same]
      case isFalse other => simp [other]
    | committed txn time => simp [Event.writeOn?]
    | withdrawn txn => simp [Event.writeOn?]
  simp [standing, List.mem_filter, List.mem_filterMap, on, ← isWithdrawn_iff]

theorem standing_append_wrote (write : Write) (written : Touch)
    (standing : Event.withdrawn txn ∉ history) :
    History.standing (history ++ [.wrote txn written write]) row =
      if written = row then history.standing row ++ [(txn, write)] else history.standing row := by
  have same (t : TxnId) :
      isWithdrawn (history ++ [.wrote txn written write]) t = history.isWithdrawn t := by
    simp [isWithdrawn]
  unfold History.standing
  simp only [same, List.filterMap_append, List.filter_append]
  by_cases on : written = row
  · have stands : history.isWithdrawn txn = false := by
      simpa [← isWithdrawn_iff] using standing
    simp [Event.writeOn?, on, stands]
  · simp [Event.writeOn?, on]

theorem standing_append_committed (time : Timestamp) :
    History.standing (history ++ [.committed txn time]) row = history.standing row := by
  simp [History.standing, isWithdrawn, Event.writeOn?]

theorem standing_append_withdrawn :
    History.standing (history ++ [.withdrawn txn]) row =
      (history.standing row).filter fun made => made.1 != txn := by
  have more (t : TxnId) : (!isWithdrawn (history ++ [.withdrawn txn]) t) =
      (t != txn && !history.isWithdrawn t) := by
    by_cases same : t = txn <;> simp [isWithdrawn, same]
  have none : [Event.withdrawn txn].filterMap (Event.writeOn? row) = [] := rfl
  unfold standing
  simp only [more, List.filterMap_append, none, List.append_nil, List.filter_filter]

theorem writes_eq (standing : Event.withdrawn txn ∉ history) :
    history.writes row txn =
      ((history.standing row).filter fun made => decide (made.1 = txn)).map (·.2) := by
  have stands : history.isWithdrawn txn = false := by
    simpa [← isWithdrawn_iff] using standing
  have all : ((history.standing row).filter fun made => decide (made.1 = txn)) =
      (history.filterMap (Event.writeOn? row)).filter fun made => decide (made.1 = txn) := by
    unfold History.standing
    rw [List.filter_filter]
    apply List.filter_congr
    intro made _
    by_cases own : made.1 = txn
    · simp [own, stands]
    · simp [own]
  rw [all, List.filter_filterMap, List.map_filterMap]
  apply List.filterMap_congr
  intro event _
  cases event with
  | wrote maker written write =>
    by_cases on : written = row <;> by_cases own : maker = txn <;>
      simp [Event.writeOf?, Event.writeOn?, Option.filter, on, own]
  | committed maker time => rfl
  | withdrawn maker => rfl

end History

/-- The history dates the commits as the registry does, and each transaction begun is running,
rolled back or committed. -/
structure Dated (registry : Registry) (running : List TxnId) (history : History) : Prop where
  wrote : ∀ txn row write, .wrote txn row write ∈ history → txn < registry.txns.size
  committed : ∀ txn time, .committed txn time ∈ history →
    txn < registry.txns.size ∧ txn ∉ running ∧ registry.stamp txn = time ∧ time < registry.clock
  withdrawn : ∀ txn, .withdrawn txn ∈ history →
    txn < registry.txns.size ∧ txn ∉ running ∧ openBit < registry.stamp txn
  known : ∀ txn < registry.txns.size,
    txn ∈ running ∨ .withdrawn txn ∈ history ∨ ∃ time, .committed txn time ∈ history
  increasing : (history.filterMap Event.commit?).Pairwise (·.2 < ·.2)

namespace Dated

theorem perm {others : List TxnId} (h : Dated registry running history)
    (same : running.Perm others) : Dated registry others history where
  wrote := h.wrote
  committed t time ht := by
    rw [← same.mem_iff]
    exact h.committed t time ht
  withdrawn t ht := by
    rw [← same.mem_iff]
    exact h.withdrawn t ht
  known t ht := by
    rw [← same.mem_iff]
    exact h.known t ht
  increasing := h.increasing

theorem congr {new : Registry} (h : Dated registry running history)
    (clock : new.clock = registry.clock) (size : new.txns.size = registry.txns.size)
    (stamp : ∀ t, new.stamp t = registry.stamp t) : Dated new running history where
  wrote := size ▸ h.wrote
  committed t time ht := by
    rw [size, stamp, clock]
    exact h.committed t time ht
  withdrawn t ht := by
    rw [size, stamp]
    exact h.withdrawn t ht
  known := size ▸ h.known
  increasing := h.increasing

theorem start (h : Dated registry running history) :
    Dated registry.start.2 (registry.txns.size :: running) history where
  wrote t row write ht := by
    rw [size_start]
    exact Nat.lt_succ_of_lt (h.wrote t row write ht)
  committed t time ht := by
    obtain ⟨known, stopped, stamp, before⟩ := h.committed t time ht
    have old : t ≠ registry.txns.size := Nat.ne_of_lt known
    rw [size_start, stamp_start, if_neg old]
    exact ⟨Nat.lt_succ_of_lt known, List.not_mem_cons_of_ne_of_not_mem old stopped, stamp, before⟩
  withdrawn t ht := by
    obtain ⟨known, stopped, opened⟩ := h.withdrawn t ht
    have old : t ≠ registry.txns.size := Nat.ne_of_lt known
    rw [size_start, stamp_start, if_neg old]
    exact ⟨Nat.lt_succ_of_lt known, List.not_mem_cons_of_ne_of_not_mem old stopped, opened⟩
  known t ht := by
    rw [size_start] at ht
    rcases Nat.lt_or_eq_of_le (Nat.le_of_lt_succ ht) with old | rfl
    · exact (h.known t old).imp_left (List.mem_cons_of_mem _)
    · exact Or.inl List.mem_cons_self
  increasing := h.increasing

theorem append_wrote (h : Dated registry running history) (row : Touch) (write : Write)
    (known : txn < registry.txns.size) :
    Dated registry running (history ++ [.wrote txn row write]) where
  wrote t row' write' ht := by
    rcases List.mem_append.1 ht with old | new
    · exact h.wrote t row' write' old
    · cases List.mem_singleton.1 new
      exact known
  committed t time ht := h.committed t time (History.mem_of_ne_last ht (by simp))
  withdrawn t ht := h.withdrawn t (History.mem_of_ne_last ht (by simp))
  known t ht := by
    rcases h.known t ht with runs | withdrawn | ⟨time, committed⟩
    · exact Or.inl runs
    · exact Or.inr (Or.inl (List.mem_append_left _ withdrawn))
    · exact Or.inr (Or.inr ⟨time, List.mem_append_left _ committed⟩)
  increasing := by
    rw [List.filterMap_append]
    exact (List.append_nil _).symm ▸ h.increasing

private theorem known_ended {event : Event} {t : TxnId}
    (h : Dated registry (txn :: running) history)
    (ends : .withdrawn txn ∈ history ++ [event] ∨ ∃ time, .committed txn time ∈ history ++ [event])
    (known : t < registry.txns.size) :
    t ∈ running ∨ .withdrawn t ∈ history ++ [event] ∨
      ∃ time, .committed t time ∈ history ++ [event] := by
  rcases h.known t known with runs | withdrawn | ⟨time, committed⟩
  · rcases List.mem_cons.1 runs with rfl | others
    · exact Or.inr ends
    · exact Or.inl others
  · exact Or.inr (Or.inl (List.mem_append_left _ withdrawn))
  · exact Or.inr (Or.inr ⟨time, List.mem_append_left _ committed⟩)

theorem commit (timely : registry.Timely (txn :: running))
    (h : Dated registry (txn :: running) history) :
    Dated (registry.commit txn).2.2 running (history ++ [.committed txn registry.clock]) where
  wrote t row write ht := by
    rw [size_commit]
    exact h.wrote t row write (History.mem_of_ne_last ht (by simp))
  committed t time ht := by
    have later := Nat.lt_succ_self registry.clock
    obtain ⟨begun, -⟩ := timely.opened txn List.mem_cons_self
    rw [size_commit, stamp_commit registry t begun, clock_commit, tick_of_lt timely.clock_lt]
    rcases List.mem_append.1 ht with old | new
    · obtain ⟨known, stopped, stamp, before⟩ := h.committed t time old
      rw [if_neg (List.ne_of_not_mem_cons stopped)]
      exact ⟨known, List.not_mem_of_not_mem_cons stopped, stamp, Nat.lt_trans before later⟩
    · cases List.mem_singleton.1 new
      exact ⟨begun, (List.nodup_cons.1 timely.nodup).1, if_pos rfl, later⟩
  withdrawn t ht := by
    obtain ⟨begun, -⟩ := timely.opened txn List.mem_cons_self
    rw [size_commit, stamp_commit registry t begun]
    have before := History.mem_of_ne_last ht (by simp)
    obtain ⟨known, stopped, opened⟩ := h.withdrawn t before
    rw [if_neg (List.ne_of_not_mem_cons stopped)]
    exact ⟨known, List.not_mem_of_not_mem_cons stopped, opened⟩
  known t ht := by
    rw [size_commit] at ht
    refine h.known_ended ?_ ht
    exact Or.inr ⟨registry.clock, List.mem_append_right history List.mem_cons_self⟩
  increasing := by
    rw [List.filterMap_append]
    refine List.pairwise_append.2 ⟨h.increasing, List.pairwise_singleton _ _, ?_⟩
    intro ⟨t, time⟩ ht last hl
    cases List.mem_singleton.1 hl
    obtain ⟨event, he, commits⟩ := List.mem_filterMap.1 ht
    cases event with
    | committed t' time' =>
      cases commits
      exact (h.committed t time he).2.2.2
    | wrote t' row write => cases commits
    | withdrawn t' => cases commits

theorem rollback (timely : registry.Timely (txn :: running))
    (h : Dated registry (txn :: running) history) :
    Dated (registry.rollback txn).2 running (history ++ [.withdrawn txn]) where
  wrote t row write ht := by
    rw [size_rollback]
    exact h.wrote t row write (History.mem_of_ne_last ht (by simp))
  committed t time ht := by
    rw [size_rollback, stamp_rollback]
    have before := History.mem_of_ne_last ht (by simp)
    obtain ⟨known, stopped, dated⟩ := h.committed t time before
    exact ⟨known, List.not_mem_of_not_mem_cons stopped, dated⟩
  withdrawn t ht := by
    rw [size_rollback, stamp_rollback]
    rcases List.mem_append.1 ht with old | new
    · obtain ⟨known, stopped, opened⟩ := h.withdrawn t old
      exact ⟨known, List.not_mem_of_not_mem_cons stopped, opened⟩
    · cases List.mem_singleton.1 new
      exact ⟨(timely.opened txn List.mem_cons_self).1, (List.nodup_cons.1 timely.nodup).1,
        timely.openBit_lt_stamp List.mem_cons_self⟩
  known t ht := by
    rw [size_rollback] at ht
    refine h.known_ended ?_ ht
    exact Or.inl (List.mem_append_right history List.mem_cons_self)
  increasing := by
    rw [List.filterMap_append]
    exact (List.append_nil _).symm ▸ h.increasing

end Dated

theorem mem_commits {time : Timestamp} :
    (txn, time) ∈ history.filterMap Event.commit? ↔ Event.committed txn time ∈ history := by
  rw [List.mem_filterMap]
  constructor
  · rintro ⟨event, he, commits⟩
    cases event with
    | committed t time' =>
      cases commits
      exact he
    | wrote t row write => cases commits
    | withdrawn t => cases commits
  · exact fun h => ⟨_, h, rfl⟩

namespace Dated

/-- The commits are recorded in the order of their times. -/
theorem settledBefore_eq (h : Dated registry running history) (time : Timestamp) :
    history.settledBefore time =
      ((history.filterMap Event.commit?).filter fun c => decide (c.2 < time)).map (·.1) := by
  unfold History.settledBefore
  rw [List.mergeSort_of_pairwise]
  exact (h.increasing.filter _).imp fun lt => by simpa using Nat.le_of_lt lt

theorem mem_settledBefore (h : Dated registry running history) {time : Timestamp} :
    txn ∈ history.settledBefore time ↔
      ∃ stamp, Event.committed txn stamp ∈ history ∧ stamp < time := by
  rw [h.settledBefore_eq, List.mem_map]
  constructor
  · rintro ⟨⟨t, stamp⟩, ht, rfl⟩
    obtain ⟨committed, before⟩ := List.mem_filter.1 ht
    exact ⟨stamp, mem_commits.1 committed, by simpa using before⟩
  · rintro ⟨stamp, committed, before⟩
    exact ⟨(txn, stamp), List.mem_filter.2 ⟨mem_commits.2 committed, by simpa using before⟩, rfl⟩

theorem mem_settledBefore_iff (timely : registry.Timely running)
    (h : Dated registry running history) {time : Timestamp} (known : txn < registry.txns.size) :
    txn ∈ history.settledBefore time ↔ isSettled time (registry.stamp txn) = true := by
  rw [h.mem_settledBefore, isSettled_iff]
  constructor
  · rintro ⟨stamp, committed, before⟩
    obtain ⟨-, -, rfl, past⟩ := h.committed txn stamp committed
    exact ⟨Nat.le_of_lt (Nat.lt_trans past timely.clock_lt), before⟩
  · rintro ⟨closed, before⟩
    -- Who runs or was rolled back has an open stamp still.
    rcases h.known txn known with runs | withdrawn | ⟨stamp, committed⟩
    · exact absurd closed (Nat.not_le_of_lt (timely.openBit_lt_stamp runs))
    · exact absurd closed (Nat.not_le_of_lt (h.withdrawn txn withdrawn).2.2)
    · obtain ⟨-, -, rfl, -⟩ := h.committed txn stamp committed
      exact ⟨_, committed, before⟩

theorem settledBefore_increasing (h : Dated registry running history) (time : Timestamp) :
    (history.settledBefore time).Pairwise fun a b => registry.stamp a < registry.stamp b := by
  rw [h.settledBefore_eq, List.pairwise_map]
  apply (h.increasing.filter _).imp_of_mem
  intro a b ha hb lt
  obtain ⟨-, -, stampA, -⟩ := h.committed a.1 a.2 (mem_commits.1 (List.mem_filter.1 ha).1)
  obtain ⟨-, -, stampB, -⟩ := h.committed b.1 b.2 (mem_commits.1 (List.mem_filter.1 hb).1)
  rwa [stampA, stampB]

end Dated

private theorem filter_append_filter {α : Type} {p q : α → Bool} {l : List α}
    (order : l.Pairwise fun a b => ¬ (q a = true ∧ p b = true))
    (apart : ∀ a, ¬ (p a = true ∧ q a = true)) :
    l.filter p ++ l.filter q = l.filter fun a => p a || q a := by
  induction l with
  | nil => rfl
  | cons a rest ih =>
    obtain ⟨behind, order⟩ := List.pairwise_cons.1 order
    by_cases first : p a = true
    · have other : ¬ q a = true := fun second => apart a ⟨first, second⟩
      rw [List.filter_cons_of_pos first, List.filter_cons_of_neg other, List.cons_append, ih order,
        List.filter_cons_of_pos (by simp [first])]
    · by_cases second : q a = true
      · -- Nothing behind an element of the second kind is of the first.
        have none : rest.filter p = [] :=
          List.filter_eq_nil_iff.2 fun b hb hp => behind b hb ⟨second, hp⟩
        rw [List.filter_cons_of_neg first, List.filter_cons_of_pos second,
          List.filter_cons_of_pos (by simp [second]), ← ih order, none, List.nil_append,
          List.nil_append]
      · rw [List.filter_cons_of_neg first, List.filter_cons_of_neg second,
          List.filter_cons_of_neg (by simp [first, second]), ih order]

/-- The writes of several transactions, one transaction after the other, are their writes in the
order in which they were made, when writes of a later one never come before writes of an earlier
one. -/
theorem flatMap_filter {writes : List (TxnId × Write)} {txns : List TxnId}
    (nodup : txns.Nodup)
    (order : txns.Pairwise fun s t => writes.Pairwise fun a b => ¬ (a.1 = t ∧ b.1 = s)) :
    txns.flatMap (fun t => writes.filter fun made => decide (made.1 = t)) =
      writes.filter fun made => decide (made.1 ∈ txns) := by
  induction txns with
  | nil => simp
  | cons s rest ih =>
    obtain ⟨fresh, nodup⟩ := List.nodup_cons.1 nodup
    obtain ⟨behind, order⟩ := List.pairwise_cons.1 order
    rw [List.flatMap_cons, ih nodup order, filter_append_filter]
    · exact List.filter_congr fun made _ => by simp
    · have each : ∀ t ∈ rest, writes.Pairwise fun a b => ¬ (a.1 = t ∧ b.1 = s) := behind
      apply List.pairwise_iff_forall_sublist.2
      rintro a b sub ⟨later, earlier⟩
      have pair := List.pairwise_iff_forall_sublist.1 (each a.1 (by simpa using later)) sub
      exact pair ⟨rfl, by simpa using earlier⟩
    · rintro made ⟨same, other⟩
      simp only [decide_eq_true_eq] at same other
      exact fresh (same ▸ other)

/-- The view reads as of a snapshot, or it is that of a running transaction. -/
structure Current (registry : Registry) (running : List TxnId) (view : View) : Prop where
  grounded : Grounded registry view
  runs : ∀ t, view.own = some t → t ∈ running

namespace Dated

private theorem seen_increasing (timely : registry.Timely running)
    (h : Dated registry running history) (current : Current registry running view) :
    (history.settledBefore view.snapshot ++ view.own.toList).Pairwise fun a b =>
      registry.stamp a < registry.stamp b := by
  refine List.pairwise_append.2 ⟨h.settledBefore_increasing _, ?_, ?_⟩
  · cases view.own <;> simp
  · intro s hs t ht
    have opened := timely.openBit_lt_stamp (current.runs t (Option.mem_toList.1 ht))
    obtain ⟨time, committed, -⟩ := h.mem_settledBefore.1 hs
    obtain ⟨-, -, rfl, past⟩ := h.committed s time committed
    exact Nat.lt_trans past (Nat.lt_trans timely.clock_lt opened)

private theorem stands_of_seen (timely : registry.Timely running)
    (h : Dated registry running history) (current : Current registry running view)
    (seen : txn ∈ history.settledBefore view.snapshot ++ view.own.toList) :
    Event.withdrawn txn ∉ history := by
  intro withdrawn
  obtain ⟨-, stopped, opened⟩ := h.withdrawn txn withdrawn
  rcases List.mem_append.1 seen with settled | own
  · obtain ⟨time, committed, -⟩ := h.mem_settledBefore.1 settled
    obtain ⟨-, -, rfl, past⟩ := h.committed txn time committed
    exact Nat.lt_asymm (Nat.lt_trans past timely.clock_lt) opened
  · exact stopped (current.runs txn (Option.mem_toList.1 own))

private theorem sees_iff_mem (timely : registry.Timely running)
    (h : Dated registry running history) (known : txn < registry.txns.size) :
    view.sees registry.stamp txn = true ↔
      txn ∈ history.settledBefore view.snapshot ++ view.own.toList := by
  rw [sees_iff, List.mem_append, h.mem_settledBefore_iff timely known, Option.mem_toList, or_comm]

/-- What a view shows of a row by the history is what the standing writes that it sees leave. -/
theorem read_eq (timely : registry.Timely running) (h : Dated registry running history)
    (current : Current registry running view) (orderly : Orderly registry (history.standing row)) :
    history.read row view =
      Write.replay (((history.standing row).filter fun made =>
        view.sees registry.stamp made.1).map (·.2)) := by
  have increasing := h.seen_increasing timely current
  have each : (history.settledBefore view.snapshot ++ view.own.toList).flatMap
      (history.writes row) =
        ((history.settledBefore view.snapshot ++ view.own.toList).flatMap fun t =>
          (history.standing row).filter fun made => decide (made.1 = t)).map (·.2) := by
    rw [List.map_flatMap]
    apply List.flatMap_congr
    intro t ht
    exact History.writes_eq (h.stands_of_seen timely current ht)
  unfold History.read
  rw [each, flatMap_filter]
  · congr 2
    apply List.filter_congr
    intro made hm
    rw [Bool.eq_iff_iff, decide_eq_true_eq]
    exact (h.sees_iff_mem timely (orderly.known made hm)).symm
  · apply increasing.imp
    rintro s t lt rfl
    exact Nat.lt_irrefl _ lt
  · -- A write never comes before those of transactions that its own cannot see.
    apply increasing.imp
    intro s t lt
    apply orderly.later.imp
    rintro a b follows ⟨rfl, rfl⟩
    rcases Registry.ownView_sees_iff.1 follows.seen with same | settled
    · rw [same] at lt
      exact Nat.lt_irrefl _ lt
    · have before := (isSettled_iff.1 settled).2
      have forward := timely.forward b.1
      exact Nat.lt_irrefl _ (Nat.lt_trans lt (Nat.lt_of_lt_of_le before forward))

end Dated

end RowStore.Run
