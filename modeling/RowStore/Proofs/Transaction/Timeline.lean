/- RowStore/Proofs/Transaction/Timeline
   role: theorems
   digest: The order of snapshots, stamps and the clock, and how a registry develops. -/

import RowStore.Proofs.Transaction.Usage

set_option autoImplicit false
set_option relaxedAutoImplicit false

namespace RowStore.Transaction.Registry

variable {registry : Registry} {running : List TxnId} {txn : TxnId}

/-- Snapshots, stamps and the clock stand in their order. -/
structure Timely (registry : Registry) (running : List TxnId) : Prop where
  clock_pos : 0 < registry.clock
  clock_lt : registry.clock < openBit
  active : ∀ a ∈ registry.active, a ≤ registry.clock
  snapshots : ∀ t < registry.txns.size,
    0 < registry.snapshot t ∧ registry.snapshot t ≤ registry.clock
  forward : ∀ t, registry.snapshot t ≤ registry.stamp t
  opened : ∀ t ∈ running,
    t < registry.txns.size ∧ registry.stamp t = openStamp (registry.snapshot t)
  nodup : running.Nodup

/-- All snapshots and all commit times are kept, and the horizon does not move back. -/
structure Extends (old new : Registry) : Prop where
  size : old.txns.size ≤ new.txns.size
  snapshot : ∀ t < old.txns.size, new.snapshot t = old.snapshot t
  stamp : ∀ t < old.txns.size, old.stamp t ≤ openBit → new.stamp t = old.stamp t
  horizon : old.horizon ≤ new.horizon

namespace Extends

theorem refl (registry : Registry) : registry.Extends registry where
  size := Nat.le_refl _
  snapshot _ _ := rfl
  stamp _ _ _ := rfl
  horizon := Nat.le_refl _

theorem trans {first second third : Registry} (h : first.Extends second)
    (h' : second.Extends third) : first.Extends third where
  size := Nat.le_trans h.size h'.size
  snapshot t known := by
    have later : t < second.txns.size := Nat.lt_of_lt_of_le known h.size
    exact (h'.snapshot t later).trans (h.snapshot t known)
  stamp t known settled := by
    have later : t < second.txns.size := Nat.lt_of_lt_of_le known h.size
    have same : second.stamp t = first.stamp t := h.stamp t known settled
    rw [h'.stamp t later (by rwa [same]), same]
  horizon := Nat.le_trans h.horizon h'.horizon

end Extends

namespace Timely

theorem openBit_lt_stamp (h : registry.Timely running) (runs : txn ∈ running) :
    openBit < registry.stamp txn := by
  obtain ⟨known, stamp⟩ := h.opened txn runs
  obtain ⟨positive, le⟩ := h.snapshots txn known
  rw [stamp, openStamp_of_lt (Nat.lt_of_le_of_lt le h.clock_lt)]
  exact Nat.lt_add_of_pos_left positive

theorem perm {others : List TxnId} (h : registry.Timely running) (same : running.Perm others) :
    registry.Timely others where
  clock_pos := h.clock_pos
  clock_lt := h.clock_lt
  active := h.active
  snapshots := h.snapshots
  forward := h.forward
  opened t ht := h.opened t (same.mem_iff.2 ht)
  nodup := same.nodup_iff.1 h.nodup

theorem tail (h : registry.Timely (txn :: running)) : registry.Timely running where
  clock_pos := h.clock_pos
  clock_lt := h.clock_lt
  active := h.active
  snapshots := h.snapshots
  forward := h.forward
  opened t ht := h.opened t (List.mem_cons_of_mem txn ht)
  nodup := (List.nodup_cons.1 h.nodup).2

section Congr

variable {new : Registry} (h : registry.Timely running) (clock : new.clock = registry.clock)
  (size : new.txns.size = registry.txns.size)
  (snapshot : ∀ t, new.snapshot t = registry.snapshot t)
  (stamp : ∀ t, new.stamp t = registry.stamp t)
  (active : ∀ a ∈ new.active, a ∈ registry.active ∨ a = registry.clock)

include h clock size snapshot stamp active

/-- Clock, snapshots and stamps stay; the snapshots newly in use are those of the clock. -/
theorem congr : new.Timely running where
  clock_pos := clock ▸ h.clock_pos
  clock_lt := clock ▸ h.clock_lt
  active a ha := by
    rw [clock]
    rcases active a ha with old | now
    · exact h.active a old
    · exact Nat.le_of_eq now
  snapshots t ht := by
    rw [snapshot, clock]
    exact h.snapshots t (size ▸ ht)
  forward t := by
    rw [snapshot, stamp]
    exact h.forward t
  opened t ht := by
    rw [size, snapshot, stamp]
    exact h.opened t ht
  nodup := h.nodup

theorem congr_extends : registry.Extends new where
  size := Nat.le_of_eq size.symm
  snapshot t _ := snapshot t
  stamp t _ _ := stamp t
  horizon := horizon_mono h.active (Nat.le_of_eq clock.symm) fun a ha =>
    (active a ha).imp_right fun now => Nat.le_of_eq now.symm

end Congr

theorem start (h : registry.Timely running) :
    registry.start.2.Timely (registry.txns.size :: running) where
  clock_pos := h.clock_pos
  clock_lt := h.clock_lt
  active a ha := by
    rcases List.mem_cons.1 ha with rfl | old
    · exact Nat.le_refl _
    · exact h.active a old
  snapshots t ht := by
    rw [snapshot_start, clock_start]
    rw [size_start] at ht
    by_cases fresh : t = registry.txns.size
    · rw [if_pos fresh]
      exact ⟨h.clock_pos, Nat.le_refl _⟩
    · rw [if_neg fresh]
      exact h.snapshots t (Nat.lt_of_le_of_ne (Nat.le_of_lt_succ ht) fresh)
  forward t := by
    rw [snapshot_start, stamp_start]
    split
    · rw [openStamp_of_lt h.clock_lt]
      exact Nat.le_add_right _ _
    · exact h.forward t
  opened t ht := by
    rw [size_start, snapshot_start, stamp_start]
    rcases List.mem_cons.1 ht with rfl | old
    · exact ⟨Nat.lt_succ_self _, by rw [if_pos rfl, if_pos rfl]⟩
    · obtain ⟨known, stamp⟩ := h.opened t old
      rw [if_neg (Nat.ne_of_lt known), if_neg (Nat.ne_of_lt known)]
      exact ⟨Nat.lt_succ_of_lt known, stamp⟩
  nodup := by
    refine List.nodup_cons.2 ⟨fun again => ?_, h.nodup⟩
    exact Nat.lt_irrefl _ (h.opened _ again).1

theorem start_extends (h : registry.Timely running) : registry.Extends registry.start.2 where
  size := by
    rw [size_start]
    omega
  snapshot t known := by rw [snapshot_start, if_neg (Nat.ne_of_lt known)]
  stamp t known _ := by rw [stamp_start, if_neg (Nat.ne_of_lt known)]
  horizon := by
    refine horizon_mono h.active (Nat.le_refl _) ?_
    intro a ha
    rcases List.mem_cons.1 ha with rfl | old
    · exact Or.inr (Nat.le_refl _)
    · exact Or.inl old

theorem touch (h : registry.Timely running) (t : Touch) : (registry.touch txn t).Timely running :=
  h.congr rfl (size_touch registry txn t) (fun u => snapshot_touch registry txn u t)
    (fun u => stamp_touch registry txn u t) fun _ ha => Or.inl ha

theorem touch_extends (h : registry.Timely running) (txn : TxnId) (t : Touch) :
    registry.Extends (registry.touch txn t) :=
  h.congr_extends rfl (size_touch registry txn t) (fun u => snapshot_touch registry txn u t)
    (fun u => stamp_touch registry txn u t) fun _ ha => Or.inl ha

theorem commit (h : registry.Timely (txn :: running)) (room : registry.clock + 1 < openBit) :
    (registry.commit txn).2.2.Timely running where
  clock_pos := by
    rw [clock_commit, tick_of_lt h.clock_lt]
    exact Nat.succ_pos _
  clock_lt := by
    rw [clock_commit, tick_of_lt h.clock_lt]
    exact room
  active a ha := by
    rw [clock_commit, tick_of_lt h.clock_lt]
    exact Nat.le_succ_of_le (h.active a (List.mem_of_mem_erase ha))
  snapshots t ht := by
    rw [snapshot_commit, clock_commit, tick_of_lt h.clock_lt]
    obtain ⟨positive, le⟩ := h.snapshots t (by rwa [size_commit] at ht)
    exact ⟨positive, Nat.le_succ_of_le le⟩
  forward t := by
    obtain ⟨known, -⟩ := h.opened txn List.mem_cons_self
    rw [snapshot_commit, stamp_commit registry t known]
    split
    case isTrue same => exact same ▸ (h.snapshots txn known).2
    case isFalse other => exact h.forward t
  opened t ht := by
    obtain ⟨known, -⟩ := h.opened txn List.mem_cons_self
    have other : t ≠ txn := fun same => (List.nodup_cons.1 h.nodup).1 (same ▸ ht)
    rw [size_commit, snapshot_commit, stamp_commit registry t known, if_neg other]
    exact h.opened t (List.mem_cons_of_mem txn ht)
  nodup := (List.nodup_cons.1 h.nodup).2

theorem commit_extends (h : registry.Timely (txn :: running)) :
    registry.Extends (registry.commit txn).2.2 where
  size := Nat.le_of_eq (size_commit registry txn).symm
  snapshot t _ := snapshot_commit registry txn t
  stamp t _ settled := by
    obtain ⟨known, -⟩ := h.opened txn List.mem_cons_self
    have other : t ≠ txn := by
      rintro rfl
      exact Nat.not_le_of_lt (h.openBit_lt_stamp List.mem_cons_self) settled
    rw [stamp_commit registry t known, if_neg other]
  horizon := by
    refine horizon_mono h.active ?_ fun a ha => Or.inl (List.mem_of_mem_erase ha)
    rw [clock_commit, tick_of_lt h.clock_lt]
    exact Nat.le_succ _

theorem rollback (h : registry.Timely (txn :: running)) :
    (registry.rollback txn).2.Timely running :=
  h.tail.congr rfl (size_rollback registry txn) (snapshot_rollback registry txn)
    (stamp_rollback registry txn) fun _ ha => Or.inl (List.mem_of_mem_erase ha)

theorem rollback_extends (h : registry.Timely running) (txn : TxnId) :
    registry.Extends (registry.rollback txn).2 :=
  h.congr_extends rfl (size_rollback registry txn) (snapshot_rollback registry txn)
    (stamp_rollback registry txn) fun _ ha => Or.inl (List.mem_of_mem_erase ha)

end Timely

end RowStore.Transaction.Registry
