/- RowStore/Proofs/Run/Direct
   role: theorems
   digest: What a transaction ended twice costs the others, and what it leaves to them. -/

import RowStore.Proofs.Transaction.Usage
import RowStore.Run.Direct

/-!
A snapshot in use is a number without a user. When a transaction is ended for the second time, its
snapshot goes out of use once more, at the cost of another transaction or of a pin that reads as of
the same time. Snapshots of which no transaction was ended twice are counted exactly. The commit
time of a transaction moves only when the transaction itself is committed again.
-/

set_option autoImplicit false
set_option relaxedAutoImplicit false

namespace RowStore.Run

open RowStore.Transaction (Registry Timestamp TxnId View filterMap_modify_perm filterMap_perm
  isSettled)
open RowStore.Transaction.Registry (Covers horizon_le_of_mem)

variable {state : DirectState} {txn : TxnId} {view : View} {snapshot : Timestamp}

namespace DirectState

def EndedOnce (state : DirectState) (snapshot : Timestamp) : Prop :=
  ∀ txn ∈ state.ended, state.registry.snapshot txn = snapshot → state.ended.count txn = 1

instance (state : DirectState) (snapshot : Timestamp) : Decidable (state.EndedOnce snapshot) :=
  inferInstanceAs (Decidable (∀ txn ∈ state.ended,
    state.registry.snapshot txn = snapshot → state.ended.count txn = 1))

def withActive (state : DirectState) (active : List Timestamp) : Registry :=
  { state.registry with active }

/-- Some list of snapshots in use would cover the transactions never ended and the views held. It
agrees with the registry's own list on the snapshots of which no transaction was ended twice. -/
structure Tracked (state : DirectState) (full : List Timestamp) : Prop where
  covers : (state.withActive full).Covers state.unended state.held
  counts : ∀ snapshot, state.EndedOnce snapshot →
    state.registry.active.count snapshot = full.count snapshot
  known : ∀ txn ∈ state.ended, txn < state.registry.txns.size

theorem mem_unended : txn ∈ state.unended ↔
    txn < state.registry.txns.size ∧ txn ∉ state.ended := by
  simp [unended]

theorem nodup_unended (state : DirectState) : state.unended.Nodup :=
  List.nodup_range.filter _

theorem held_push (state : DirectState) (registry : Registry) (view : View) :
    (view :: state.held).Perm
      { state with registry, views := state.views.push (some view) }.held := by
  simp only [held, Array.toList_push, List.filterMap_append]
  exact (List.perm_append_singleton view _).symm

theorem held_drop {i : Nat} (registry : Registry) (found : state.views[i]? = some (some view)) :
    state.held.Perm
      (view :: { state with registry, views := state.views.modify i fun _ => none }.held) := by
  have at' : state.views.toList[i]? = some (some view) := by
    rw [Array.getElem?_toList]
    exact found
  have before := filterMap_perm id at'
  have after := filterMap_modify_perm id (fun _ => none) at'
  simp only [held, Array.toList_modify]
  exact before.trans (after.symm.cons view)

private theorem active_release_count {registry : Registry} (full : List Timestamp)
    (same : registry.active.count snapshot = full.count snapshot) :
    (registry.release view).active.count snapshot =
      ({ registry with active := full }.release view).active.count snapshot := by
  simp only [Registry.release]
  split
  · exact same
  · split
    · exact same
    · dsimp only
      split
      · rw [List.count_erase, List.count_erase, same]
      · exact same

private theorem release_withActive (registry : Registry) (full : List Timestamp) :
    { registry with active := full }.release view =
      { registry.release view with
        active := ({ registry with active := full }.release view).active } := by
  simp only [Registry.release]
  split
  · rfl
  · split <;> rfl

private theorem hold_withActive (registry : Registry) (full : List Timestamp) :
    { registry with active := full }.hold view = { registry.hold view with active := full } := by
  simp only [Registry.hold]
  split <;> rfl

theorem unended_start (known : ∀ txn ∈ state.ended, txn < state.registry.txns.size) :
    (state.registry.txns.size :: state.unended).Perm (state.step .start).unended := by
  have fresh : state.registry.txns.size ∉ state.ended :=
    fun ended => Nat.lt_irrefl _ (known _ ended)
  refine (List.perm_ext_iff_of_nodup ?_ (nodup_unended _)).2 fun txn => ?_
  · exact List.nodup_cons.2
      ⟨fun again => Nat.lt_irrefl _ (mem_unended.1 again).1, nodup_unended state⟩
  · rw [List.mem_cons, mem_unended, mem_unended]
    change _ ↔ txn < state.registry.start.2.txns.size ∧ txn ∉ state.ended
    rw [Registry.size_start]
    constructor
    · rintro (rfl | ⟨lt, going⟩)
      · exact ⟨Nat.lt_succ_self _, fresh⟩
      · exact ⟨Nat.lt_succ_of_lt lt, going⟩
    · rintro ⟨lt, going⟩
      rcases Nat.lt_or_eq_of_le (Nat.le_of_lt_succ lt) with old | same
      · exact Or.inr ⟨old, going⟩
      · exact Or.inl same

section Finish

variable {registry : Registry} (size : registry.txns.size = state.registry.txns.size)

include size

theorem unended_first (known : txn < state.registry.txns.size) (first : txn ∉ state.ended) :
    state.unended.Perm
      (txn :: { state with registry, ended := txn :: state.ended }.unended) := by
  refine (List.perm_ext_iff_of_nodup (nodup_unended state) ?_).2 fun t => ?_
  · refine List.nodup_cons.2 ⟨fun left => ?_, nodup_unended _⟩
    exact (mem_unended.1 left).2 List.mem_cons_self
  · rw [List.mem_cons, mem_unended, mem_unended, size, List.mem_cons, not_or]
    constructor
    · rintro ⟨lt, going⟩
      by_cases self : t = txn
      · exact Or.inl self
      · exact Or.inr ⟨lt, self, going⟩
    · rintro (rfl | ⟨lt, -, going⟩)
      · exact ⟨known, first⟩
      · exact ⟨lt, going⟩

theorem unended_again (again : txn ∈ state.ended) :
    { state with registry, ended := txn :: state.ended }.unended = state.unended := by
  unfold unended
  rw [size]
  apply List.filter_congr
  intro t _
  by_cases self : t = txn
  · simp [self, again]
  · simp [self]

end Finish

theorem EndedOnce.of_finish {registry : Registry}
    (once : EndedOnce { state with registry, ended := txn :: state.ended } snapshot)
    (snapshots : ∀ t, registry.snapshot t = state.registry.snapshot t)
    (apart : txn ∈ state.ended → state.registry.snapshot txn ≠ snapshot) :
    state.EndedOnce snapshot := by
  intro t ended same
  have other : txn ≠ t := by
    rintro rfl
    exact apart ended same
  have one := once t (List.mem_cons_of_mem txn ended) ((snapshots t).trans same)
  rwa [List.count_cons_of_ne other] at one

namespace Tracked

variable {full : List Timestamp}

theorem start (h : state.Tracked full) :
    (state.step .start).Tracked (state.registry.clock :: full) where
  covers := (h.covers.start fun _ going => (mem_unended.1 going).1).perm (unended_start h.known)
    (List.Perm.refl _)
  counts snapshot once := by
    have before : state.EndedOnce snapshot := by
      intro t ended same
      apply once t ended
      change state.registry.start.2.snapshot t = snapshot
      rw [Registry.snapshot_start, if_neg (Nat.ne_of_lt (h.known t ended))]
      exact same
    change (state.registry.clock :: state.registry.active).count snapshot = _
    rw [List.count_cons, List.count_cons, h.counts snapshot before]
  known t ended := by
    change t < state.registry.start.2.txns.size
    rw [Registry.size_start]
    exact Nat.lt_succ_of_lt (h.known t ended)

section Finish

variable {registry : Registry} (h : state.Tracked full) (known : txn < state.registry.txns.size)
  (active : registry.active = state.registry.active.erase (state.registry.snapshot txn))
  (pins : registry.pins = state.registry.pins)
  (size : registry.txns.size = state.registry.txns.size)
  (snapshots : ∀ t, registry.snapshot t = state.registry.snapshot t)

include h known size in
private theorem finish_known : ∀ t ∈ txn :: state.ended, t < registry.txns.size := by
  intro t ended
  rw [size]
  rcases List.mem_cons.1 ended with rfl | before
  · exact known
  · exact h.known t before

include h known active pins size snapshots

private theorem finish_first (first : txn ∉ state.ended) :
    { state with registry, ended := txn :: state.ended }.Tracked
      (full.erase (state.registry.snapshot txn)) where
  covers := by
    have covers := (h.covers.perm (unended_first size known first) (List.Perm.refl _)).rollback
    refine covers.congr rfl pins fun t _ => ?_
    exact (snapshots t).trans (Registry.snapshot_rollback state.registry txn t).symm
  counts snapshot once := by
    have before := once.of_finish snapshots fun ended => absurd ended first
    change registry.active.count snapshot = _
    rw [active, List.count_erase, List.count_erase, h.counts snapshot before]
  known := h.finish_known known size

private theorem finish_again (again : txn ∈ state.ended) :
    { state with registry, ended := txn :: state.ended }.Tracked full where
  covers := by
    rw [unended_again size again]
    exact h.covers.congr rfl pins fun t _ => snapshots t
  counts snapshot once := by
    have apart : state.registry.snapshot txn ≠ snapshot := by
      intro same
      -- Now it has been ended twice, so nothing is promised for its snapshot.
      have one := once txn List.mem_cons_self ((snapshots txn).trans same)
      have there : 0 < state.ended.count txn := List.count_pos_iff.2 again
      rw [List.count_cons_self] at one
      omega
    change registry.active.count snapshot = full.count snapshot
    rw [active, List.count_erase_of_ne (Ne.symm apart)]
    exact h.counts snapshot (once.of_finish snapshots fun _ => apart)
  known := h.finish_known known size

/-- The end of a transaction, be it the first one or not, when it takes its snapshot out of use and
leaves all snapshots and pins. -/
theorem finish :
    ∃ full, { state with registry, ended := txn :: state.ended }.Tracked full := by
  by_cases again : txn ∈ state.ended
  · exact ⟨_, h.finish_again known active pins size snapshots again⟩
  · exact ⟨_, h.finish_first known active pins size snapshots again⟩

end Finish

theorem look {registry : Registry} {views : Array (Option View)} {full' : List Timestamp}
    (h : state.Tracked full) (txns : registry.txns = state.registry.txns)
    (covers : { registry with active := full' }.Covers state.unended
      { state with registry, views }.held)
    (counts : ∀ snapshot, state.registry.active.count snapshot = full.count snapshot →
      registry.active.count snapshot = full'.count snapshot) :
    { state with registry, views }.Tracked full' where
  covers := by
    have same : { state with registry, views }.unended = state.unended := by
      unfold unended
      rw [txns]
    rw [same]
    exact covers
  counts snapshot once := by
    apply counts
    apply h.counts
    intro t ended same
    exact once t ended ((Registry.snapshot_congr txns t).trans same)
  known t ended := by
    rw [txns]
    exact h.known t ended

theorem step (h : state.Tracked full) (request : Request) :
    ∃ full, (state.step request).Tracked full := by
  cases request with
  | start => exact ⟨_, h.start⟩
  | commit txn =>
    simp only [DirectState.step]
    split
    case isTrue known =>
      exact h.finish (of_decide_eq_true known) rfl rfl (Registry.size_commit _ txn)
        (Registry.snapshot_commit _ txn)
    case isFalse => exact ⟨full, h⟩
  | rollback txn =>
    simp only [DirectState.step]
    split
    case isTrue known =>
      exact h.finish (of_decide_eq_true known) rfl rfl (Registry.size_rollback _ txn)
        (Registry.snapshot_rollback _ txn)
    case isFalse => exact ⟨full, h⟩
  | viewNow =>
    refine ⟨state.registry.clock :: full, h.look rfl ?_ ?_⟩
    · exact h.covers.pinNow.perm (List.Perm.refl _) (held_push state _ _)
    · intro snapshot same
      change (state.registry.clock :: state.registry.active).count snapshot = _
      rw [List.count_cons, List.count_cons, same]
  | copyView i =>
    simp only [DirectState.step]
    split
    case h_1 view found =>
      have used : view ∈ state.held :=
        (held_drop state.registry found).mem_iff.2 List.mem_cons_self
      refine ⟨full, h.look (Registry.txns_hold _ view) ?_ ?_⟩
      · rw [← hold_withActive]
        exact (h.covers.hold used).perm (List.Perm.refl _) (held_push state _ _)
      · intro snapshot same
        rw [Registry.active_hold]
        exact same
    case h_2 => exact ⟨full, h⟩
  | dropView i =>
    simp only [DirectState.step]
    split
    case h_1 view found =>
      refine ⟨_, h.look (Registry.txns_release _ view) ?_ fun snapshot => active_release_count full⟩
      rw [← release_withActive]
      exact (h.covers.perm (List.Perm.refl _) (held_drop _ found)).release
    case h_2 => exact ⟨full, h⟩

theorem run (h : state.Tracked full) (requests : List Request) :
    ∃ full, (state.run requests).Tracked full := by
  induction requests generalizing state full with
  | nil => exact ⟨full, h⟩
  | cons request rest ih =>
    obtain ⟨full', h'⟩ := h.step request
    exact ih h'

theorem initial : Tracked {} [] where
  covers :=
    { active := List.Perm.refl _
      holders := fun i p hp => by cases hp
      pinned := fun v hv => by cases hv }
  counts snapshot _ := rfl
  known t ht := by cases ht

end Tracked

theorem size_step (state : DirectState) (request : Request) :
    state.registry.txns.size ≤ (state.step request).registry.txns.size := by
  cases request with
  | start =>
    change _ ≤ state.registry.start.2.txns.size
    rw [Registry.size_start]
    exact Nat.le_succ _
  | viewNow => exact Nat.le_refl _
  | commit txn =>
    simp only [step]
    split
    · rw [Registry.size_commit]
    · exact Nat.le_refl _
  | rollback txn =>
    simp only [step]
    split
    · rw [Registry.size_rollback]
    · exact Nat.le_refl _
  | copyView i =>
    simp only [step]
    split
    · rw [Registry.txns_hold]
    · exact Nat.le_refl _
  | dropView i =>
    simp only [step]
    split
    · rw [Registry.txns_release]
    · exact Nat.le_refl _

theorem stamp_step {request : Request} (known : txn < state.registry.txns.size)
    (other : request ≠ .commit txn) :
    (state.step request).registry.stamp txn = state.registry.stamp txn := by
  cases request with
  | start =>
    change state.registry.start.2.stamp txn = _
    rw [Registry.stamp_start, if_neg (Nat.ne_of_lt known)]
  | viewNow => rfl
  | commit t =>
    have apart : txn ≠ t := fun same => other (same ▸ rfl)
    simp only [step]
    split
    case isTrue begun =>
      rw [Registry.stamp_commit _ _ (of_decide_eq_true begun), if_neg apart]
    case isFalse => rfl
  | rollback t =>
    simp only [step]
    split
    · exact Registry.stamp_rollback _ t txn
    · rfl
  | copyView i =>
    simp only [step]
    split
    · exact Registry.stamp_congr (Registry.txns_hold _ _) txn
    · rfl
  | dropView i =>
    simp only [step]
    split
    · exact Registry.stamp_congr (Registry.txns_release _ _) txn
    · rfl

theorem stamp_run {requests : List Request} (known : txn < state.registry.txns.size)
    (others : .commit txn ∉ requests) :
    (state.run requests).registry.stamp txn = state.registry.stamp txn := by
  induction requests generalizing state with
  | nil => rfl
  | cons request rest ih =>
    rw [List.mem_cons, not_or] at others
    have later := ih (Nat.lt_of_lt_of_le known (size_step state request)) others.2
    exact later.trans (stamp_step known (Ne.symm others.1))

end DirectState

/-- However often transactions are ended, a transaction never ended and a view that is pinned and
held stay registered if no transaction with the same snapshot was ended twice. The commit time of a
transaction does not change until it is committed again, and until then every view goes on showing
it or not. -/
theorem registered_until_ended_twice (requests : List Request) :
    (∀ txn ∈ (DirectState.run {} requests).unended,
      (DirectState.run {} requests).EndedOnce
        ((DirectState.run {} requests).registry.snapshot txn) →
      (DirectState.run {} requests).registry.horizon ≤
        (DirectState.run {} requests).registry.snapshot txn) ∧
    (∀ view ∈ (DirectState.run {} requests).held, view.isPinned = true →
      (DirectState.run {} requests).EndedOnce view.snapshot →
      (DirectState.run {} requests).registry.horizon ≤ view.snapshot) ∧
    ∀ later txn, txn < (DirectState.run {} requests).registry.txns.size → .commit txn ∉ later →
      (DirectState.run {} (requests ++ later)).registry.stamp txn =
        (DirectState.run {} requests).registry.stamp txn ∧
      ∀ view : View, view.sees (DirectState.run {} (requests ++ later)).registry.stamp txn =
        view.sees (DirectState.run {} requests).registry.stamp txn := by
  obtain ⟨full, tracked⟩ := DirectState.Tracked.initial.run requests
  have registered {snapshot : Timestamp} (used : snapshot ∈ full)
      (once : (DirectState.run {} requests).EndedOnce snapshot) :
      (DirectState.run {} requests).registry.horizon ≤ snapshot := by
    apply horizon_le_of_mem
    rw [← List.count_pos_iff, tracked.counts snapshot once]
    exact List.count_pos_iff.2 used
  refine ⟨fun txn going => registered (tracked.covers.snapshot_mem_of_running going),
    fun view held pinned => registered (tracked.covers.snapshot_mem_of_pinned held pinned), ?_⟩
  intro later txn known others
  have stamp : (DirectState.run {} (requests ++ later)).registry.stamp txn =
      (DirectState.run {} requests).registry.stamp txn := by
    unfold DirectState.run
    rw [List.foldl_append]
    exact DirectState.stamp_run known others
  refine ⟨stamp, fun view => ?_⟩
  unfold View.sees
  rw [stamp]

/-- Three transactions begin at the same time and the first is committed. Then another one begins
and a view is pinned, and the second one is rolled back twice, at the cost of the third. -/
def endedTwiceBefore : List Request :=
  [.start, .start, .start, .commit 0, .start, .viewNow, .rollback 1, .rollback 1]

theorem registered_until_ended_twice_later :
    (DirectState.run {} endedTwiceBefore).registry.horizon ≤
      (DirectState.run {} endedTwiceBefore).registry.snapshot 3 ∧
    (DirectState.run {} endedTwiceBefore).registry.horizon ≤ 2 ∧
    (DirectState.run {} (endedTwiceBefore ++ [.commit 1, .rollback 0])).registry.stamp 0 = 1 := by
  obtain ⟨txns, views, later⟩ := registered_until_ended_twice endedTwiceBefore
  refine ⟨txns 3 (by decide) (by decide), ?_, ?_⟩
  · exact views { snapshot := 2, pin := some 0 } (by decide) (by decide) (by decide)
  · exact (later [.commit 1, .rollback 0] 0 (by decide) (by decide)).1

/-- Two transactions begin at the same time, one is committed, and a view is pinned. -/
def committedOnce : List Request := [.start, .start, .commit 0, .viewNow]

/-- When the transaction is committed again, the other one is no longer registered. The transaction
takes a later commit time, and the view, which showed it before, does not show it now. -/
theorem committed_twice :
    1 ∈ (DirectState.run {} (committedOnce ++ [.commit 0])).unended ∧
    (DirectState.run {} (committedOnce ++ [.commit 0])).registry.snapshot 1 <
      (DirectState.run {} (committedOnce ++ [.commit 0])).registry.horizon ∧
    (DirectState.run {} committedOnce).registry.stamp 0 = 1 ∧
    (DirectState.run {} (committedOnce ++ [.commit 0])).registry.stamp 0 = 2 ∧
    (DirectState.run {} (committedOnce ++ [.commit 0])).held = [{ snapshot := 2, pin := some 0 }] ∧
    View.sees (DirectState.run {} committedOnce).registry.stamp
      { snapshot := 2, pin := some 0 } 0 = true ∧
    View.sees (DirectState.run {} (committedOnce ++ [.commit 0])).registry.stamp
      { snapshot := 2, pin := some 0 } 0 = false := by
  decide

end RowStore.Run
