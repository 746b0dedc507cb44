/- RowStore/Proofs/Transaction/Stamps
   role: theorems
   digest: What each operation of the registry does to clock, stamps, snapshots and noted rows. -/

import RowStore.Transaction.Registry

set_option autoImplicit false
set_option relaxedAutoImplicit false

namespace RowStore.Transaction

theorem isSettled_iff {horizon stamp : Timestamp} :
    isSettled horizon stamp = true ↔ stamp ≤ openBit ∧ stamp < horizon := by
  simp only [isSettled, isCommitted, Bool.and_eq_true, decide_eq_true_eq]
  exact and_congr_left fun _ => Nat.lt_succ_iff

theorem isSettled_mono {horizon later stamp : Timestamp} (h : isSettled horizon stamp = true)
    (le : horizon ≤ later) : isSettled later stamp = true := by
  rw [isSettled_iff] at h ⊢
  exact ⟨h.1, Nat.lt_of_lt_of_le h.2 le⟩

theorem openStamp_of_lt {snapshot : Timestamp} (h : snapshot < openBit) :
    openStamp snapshot = snapshot + openBit := by
  simp [openStamp, h]

theorem tick_of_lt {time : Timestamp} (h : time < openBit) : tick time = time + 1 := by
  unfold openBit Timestamp at h
  unfold tick
  exact Nat.mod_eq_of_lt (by omega)

namespace View

theorem sees_iff {stamps : TxnId → Timestamp} {view : View} {txn : TxnId} :
    view.sees stamps txn = true ↔
      view.own = some txn ∨ isSettled view.snapshot (stamps txn) = true := by
  simp [sees, isOwn]

theorem sees_own {stamps : TxnId → Timestamp} {view : View} {txn : TxnId}
    (h : view.own = some txn) : view.sees stamps txn = true :=
  sees_iff.2 (Or.inl h)

theorem sees_of_isSettled {stamps : TxnId → Timestamp} {view : View} {txn : TxnId}
    {horizon : Timestamp} (h : isSettled horizon (stamps txn) = true)
    (le : horizon ≤ view.snapshot) : view.sees stamps txn = true :=
  sees_iff.2 (Or.inr (isSettled_mono h le))

end View

namespace Registry

variable {registry : Registry} {txn other : TxnId}

private theorem stamp_eq (registry : Registry) (txn : TxnId) :
    registry.stamp txn = (registry.txns[txn]?.map (·.stamp)).getD 0 := by
  unfold stamp
  cases registry.txns[txn]? <;> rfl

private theorem snapshot_eq (registry : Registry) (txn : TxnId) :
    registry.snapshot txn = (registry.txns[txn]?.map (·.snapshot)).getD 0 := by
  unfold snapshot
  cases registry.txns[txn]? <;> rfl

private theorem touched_eq (registry : Registry) (txn : TxnId) :
    registry.touched txn = (registry.txns[txn]?.map (·.touched)).getD [] := by
  unfold touched
  cases registry.txns[txn]? <;> rfl

private theorem map_changed {β : Type} (field : Txn → β) {change : Txn → Txn}
    (same : ∀ t, field (change t) = field t) (registry : Registry) (txn other : TxnId) :
    (if txn = other then registry.txns[other]?.map change else registry.txns[other]?).map field =
      registry.txns[other]?.map field := by
  by_cases changed : txn = other
  · have kept : field ∘ change = field := by
      funext t
      exact same t
    rw [if_pos changed, Option.map_map, kept]
  · rw [if_neg changed]

@[simp] theorem own_ownView (registry : Registry) (txn : TxnId) :
    (registry.ownView txn).own = some txn := rfl

@[simp] theorem snapshot_ownView (registry : Registry) (txn : TxnId) :
    (registry.ownView txn).snapshot = registry.snapshot txn := rfl

theorem ownView_sees_iff : (registry.ownView txn).sees registry.stamp other = true ↔
    other = txn ∨ isSettled (registry.snapshot txn) (registry.stamp other) = true := by
  rw [View.sees_iff, own_ownView, snapshot_ownView, Option.some.injEq]
  exact or_congr_left eq_comm

@[simp] theorem clock_start (registry : Registry) : registry.start.2.clock = registry.clock := rfl

@[simp] theorem size_start (registry : Registry) :
    registry.start.2.txns.size = registry.txns.size + 1 := by
  simp [start]

private theorem get_start (registry : Registry) (txn : TxnId) :
    registry.start.2.txns[txn]? =
      if txn = registry.txns.size then some ⟨registry.clock, openStamp registry.clock, []⟩
      else registry.txns[txn]? := by
  simp [start, Array.getElem?_push]

theorem stamp_start (registry : Registry) (txn : TxnId) :
    registry.start.2.stamp txn =
      if txn = registry.txns.size then openStamp registry.clock else registry.stamp txn := by
  rw [stamp_eq, stamp_eq, get_start]
  split <;> rfl

theorem snapshot_start (registry : Registry) (txn : TxnId) :
    registry.start.2.snapshot txn =
      if txn = registry.txns.size then registry.clock else registry.snapshot txn := by
  rw [snapshot_eq, snapshot_eq, get_start]
  split <;> rfl

theorem touched_start (registry : Registry) (txn : TxnId) :
    registry.start.2.touched txn =
      if txn = registry.txns.size then [] else registry.touched txn := by
  rw [touched_eq, touched_eq, get_start]
  split <;> rfl

@[simp] theorem clock_touch (registry : Registry) (txn : TxnId) (t : Touch) :
    (registry.touch txn t).clock = registry.clock := rfl

@[simp] theorem size_touch (registry : Registry) (txn : TxnId) (t : Touch) :
    (registry.touch txn t).txns.size = registry.txns.size := by
  simp [touch]

private theorem get_touch (registry : Registry) (txn other : TxnId) (t : Touch) :
    (registry.touch txn t).txns[other]? =
      if txn = other then registry.txns[other]?.map fun x => { x with touched := x.touched ++ [t] }
      else registry.txns[other]? := by
  simp [touch, Array.getElem?_modify]

@[simp] theorem stamp_touch (registry : Registry) (txn other : TxnId) (t : Touch) :
    (registry.touch txn t).stamp other = registry.stamp other := by
  rw [stamp_eq, stamp_eq, get_touch, map_changed (·.stamp)]
  intro _
  rfl

@[simp] theorem snapshot_touch (registry : Registry) (txn other : TxnId) (t : Touch) :
    (registry.touch txn t).snapshot other = registry.snapshot other := by
  rw [snapshot_eq, snapshot_eq, get_touch, map_changed (·.snapshot)]
  intro _
  rfl

theorem touched_touch (registry : Registry) (other : TxnId) (t : Touch)
    (known : txn < registry.txns.size) :
    (registry.touch txn t).touched other =
      if other = txn then registry.touched txn ++ [t] else registry.touched other := by
  rw [touched_eq, touched_eq, get_touch]
  by_cases same : txn = other
  · subst same
    simp [Array.getElem?_eq_getElem known]
  · rw [if_neg same, if_neg (Ne.symm same), touched_eq]

@[simp] theorem clock_commit (registry : Registry) (txn : TxnId) :
    (registry.commit txn).2.2.clock = tick registry.clock := rfl

@[simp] theorem size_commit (registry : Registry) (txn : TxnId) :
    (registry.commit txn).2.2.txns.size = registry.txns.size := by
  simp [commit]

private theorem get_commit (registry : Registry) (txn other : TxnId) :
    (registry.commit txn).2.2.txns[other]? =
      if txn = other then
        registry.txns[other]?.map fun t => { t with stamp := registry.clock, touched := [] }
      else registry.txns[other]? := by
  simp [commit, Array.getElem?_modify]

theorem stamp_commit (registry : Registry) (other : TxnId) (known : txn < registry.txns.size) :
    (registry.commit txn).2.2.stamp other =
      if other = txn then registry.clock else registry.stamp other := by
  rw [stamp_eq, stamp_eq, get_commit]
  by_cases same : txn = other
  · subst same
    simp [Array.getElem?_eq_getElem known]
  · simp [same, Ne.symm same]

@[simp] theorem snapshot_commit (registry : Registry) (txn other : TxnId) :
    (registry.commit txn).2.2.snapshot other = registry.snapshot other := by
  rw [snapshot_eq, snapshot_eq, get_commit, map_changed (·.snapshot)]
  intro _
  rfl

theorem touched_commit_of_ne (registry : Registry) (apart : other ≠ txn) :
    (registry.commit txn).2.2.touched other = registry.touched other := by
  rw [touched_eq, touched_eq, get_commit, if_neg (Ne.symm apart)]

@[simp] theorem size_rollback (registry : Registry) (txn : TxnId) :
    (registry.rollback txn).2.txns.size = registry.txns.size := by
  simp [rollback]

private theorem get_rollback (registry : Registry) (txn other : TxnId) :
    (registry.rollback txn).2.txns[other]? =
      if txn = other then registry.txns[other]?.map fun t => { t with touched := [] }
      else registry.txns[other]? := by
  simp [rollback, Array.getElem?_modify]

@[simp] theorem stamp_rollback (registry : Registry) (txn other : TxnId) :
    (registry.rollback txn).2.stamp other = registry.stamp other := by
  rw [stamp_eq, stamp_eq, get_rollback, map_changed (·.stamp)]
  intro _
  rfl

@[simp] theorem snapshot_rollback (registry : Registry) (txn other : TxnId) :
    (registry.rollback txn).2.snapshot other = registry.snapshot other := by
  rw [snapshot_eq, snapshot_eq, get_rollback, map_changed (·.snapshot)]
  intro _
  rfl

theorem touched_rollback_of_ne (registry : Registry) (apart : other ≠ txn) :
    (registry.rollback txn).2.touched other = registry.touched other := by
  rw [touched_eq, touched_eq, get_rollback, if_neg (Ne.symm apart)]

theorem touched_rollback_self (registry : Registry) (txn : TxnId) :
    (registry.rollback txn).2.touched txn = [] := by
  rw [touched_eq, get_rollback, if_pos rfl]
  cases registry.txns[txn]? <;> rfl

@[simp] theorem txns_pinNow (registry : Registry) :
    registry.pinNow.2.txns = registry.txns := rfl

@[simp] theorem clock_hold (registry : Registry) (view : View) :
    (registry.hold view).clock = registry.clock := by
  simp only [hold]
  split <;> rfl

@[simp] theorem txns_hold (registry : Registry) (view : View) :
    (registry.hold view).txns = registry.txns := by
  simp only [hold]
  split <;> rfl

@[simp] theorem active_hold (registry : Registry) (view : View) :
    (registry.hold view).active = registry.active := by
  simp only [hold]
  split <;> rfl

@[simp] theorem clock_release (registry : Registry) (view : View) :
    (registry.release view).clock = registry.clock := by
  simp only [release]
  split
  · rfl
  · split <;> rfl

@[simp] theorem txns_release (registry : Registry) (view : View) :
    (registry.release view).txns = registry.txns := by
  simp only [release]
  split
  · rfl
  · split <;> rfl

theorem mem_active_of_release {view : View} {a : Timestamp}
    (h : a ∈ (registry.release view).active) : a ∈ registry.active := by
  simp only [release] at h
  split at h
  · exact h
  · split at h
    · exact h
    · dsimp only at h
      split at h
      · exact List.mem_of_mem_erase h
      · exact h

theorem stamp_congr {new : Registry} (h : new.txns = registry.txns) (txn : TxnId) :
    new.stamp txn = registry.stamp txn := by
  unfold stamp
  rw [h]

theorem snapshot_congr {new : Registry} (h : new.txns = registry.txns) (txn : TxnId) :
    new.snapshot txn = registry.snapshot txn := by
  unfold snapshot
  rw [h]

theorem touched_congr {new : Registry} (h : new.txns = registry.txns) (txn : TxnId) :
    new.touched txn = registry.touched txn := by
  unfold touched
  rw [h]

end Registry

end RowStore.Transaction
