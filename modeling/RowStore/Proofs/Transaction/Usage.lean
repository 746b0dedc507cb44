/- RowStore/Proofs/Transaction/Usage
   role: theorems
   digest: The snapshots in use are those of running transactions and of pins with holders. -/

import Mathlib.Data.List.Dedup
import Mathlib.Data.List.FinRange
import Mathlib.Data.List.Perm.Basic
import RowStore.Proofs.Transaction.Stamps

set_option autoImplicit false
set_option relaxedAutoImplicit false

namespace RowStore.Transaction

section Modify

variable {α β : Type} {l : List α} {i : Nat} {a : α}

theorem perm_of_getElem?_eq_some (h : l[i]? = some a) : l.Perm (a :: l.eraseIdx i) := by
  obtain ⟨lt, rfl⟩ := List.getElem?_eq_some_iff.1 h
  exact (List.getElem_cons_eraseIdx_perm lt).symm

theorem modify_perm (f : α → α) (h : l[i]? = some a) :
    (l.modify i f).Perm (f a :: l.eraseIdx i) := by
  have at' : (l.modify i f)[i]? = some (f a) := by
    rw [List.getElem?_modify_eq, h]
    rfl
  have rest := perm_of_getElem?_eq_some at'
  rwa [List.eraseIdx_modify_of_eq] at rest

theorem filterMap_perm (g : α → Option β) (h : l[i]? = some a) :
    (l.filterMap g).Perm ((g a).toList ++ (l.eraseIdx i).filterMap g) := by
  have split := (perm_of_getElem?_eq_some h).filterMap g
  rw [List.filterMap_cons] at split
  cases found : g a <;> simpa [found] using split

theorem filterMap_modify_perm (g : α → Option β) (f : α → α) (h : l[i]? = some a) :
    ((l.modify i f).filterMap g).Perm ((g (f a)).toList ++ (l.eraseIdx i).filterMap g) := by
  have split := (modify_perm f h).filterMap g
  rw [List.filterMap_cons] at split
  cases found : g (f a) <;> simpa [found] using split

theorem filterMap_modify_eq (g : α → Option β) (f : α → α)
    (same : ∀ a, l[i]? = some a → g (f a) = g a) : (l.modify i f).filterMap g = l.filterMap g := by
  induction l generalizing i with
  | nil => simp
  | cons head rest ih =>
    cases i with
    | zero =>
      have first : g (f head) = g head := same head rfl
      rw [List.modify_zero_cons, List.filterMap_cons, List.filterMap_cons, first]
    | succ i =>
      have later : ∀ a, rest[i]? = some a → g (f a) = g a := same
      rw [List.modify_succ_cons, List.filterMap_cons, List.filterMap_cons, ih later]

end Modify

namespace Registry

variable {registry : Registry} {txn : TxnId} {txns : List TxnId} {view : View} {views : List View}

/-- The snapshots of pins that still have holders, once for each such pin. -/
def heldOf (pins : List Pin) : List Timestamp :=
  (pins.filter fun p => decide (0 < p.holders)).map (·.snapshot)

theorem heldOf_cons (p : Pin) (pins : List Pin) :
    heldOf (p :: pins) = if 0 < p.holders then p.snapshot :: heldOf pins else heldOf pins := by
  unfold heldOf
  rw [List.filter_cons]
  by_cases held : 0 < p.holders <;> simp [held]

theorem heldOf_perm {pins pins' : List Pin} (h : pins.Perm pins') :
    (heldOf pins).Perm (heldOf pins') :=
  (h.filter _).map _

theorem heldOf_of_held {pins : List Pin} {i : PinId} {p : Pin} (at' : pins[i]? = some p)
    (held : 0 < p.holders) : (heldOf pins).Perm (p.snapshot :: heldOf (pins.eraseIdx i)) := by
  have split := heldOf_perm (perm_of_getElem?_eq_some at')
  rwa [heldOf_cons, if_pos held] at split

theorem heldOf_modify {pins : List Pin} {i : PinId} {p : Pin} (count : Nat → Nat)
    (at' : pins[i]? = some p) :
    (heldOf (pins.modify i fun p => { p with holders := count p.holders })).Perm
      (if 0 < count p.holders then p.snapshot :: heldOf (pins.eraseIdx i)
        else heldOf (pins.eraseIdx i)) := by
  have split := heldOf_perm (modify_perm (fun p => { p with holders := count p.holders }) at')
  rwa [heldOf_cons] at split

def heldPins (pins : List Pin) : List (Fin pins.length) :=
  (List.finRange pins.length).filter fun i => decide (0 < (pins.get i).holders)

theorem heldOf_eq (pins : List Pin) :
    heldOf pins = (heldPins pins).map fun i => (pins.get i).snapshot := by
  conv_lhs => rw [← List.map_get_finRange pins]
  unfold heldOf
  rw [List.filter_map, List.map_map]
  rfl

/-- The snapshots in use are those of the running transactions and those of the views, where views
that share a pin count once. -/
structure Covers (registry : Registry) (txns : List TxnId) (views : List View) : Prop where
  active : registry.active.Perm (txns.map registry.snapshot ++ heldOf registry.pins.toList)
  holders : ∀ i p, registry.pins[i]? = some p →
    p.holders = views.countP fun v => decide (v.pin = some i)
  pinned : ∀ v ∈ views, ∀ i, v.pin = some i →
    v.own = none ∧ ∃ p, registry.pins[i]? = some p ∧ p.snapshot = v.snapshot

namespace Covers

theorem perm {txns' : List TxnId} {views' : List View} (h : registry.Covers txns views)
    (sameTxns : txns.Perm txns') (sameViews : views.Perm views') :
    registry.Covers txns' views' where
  active := h.active.trans ((sameTxns.map _).append_right _)
  holders i p hp := by rw [h.holders i p hp, sameViews.countP_eq]
  pinned v hv := h.pinned v (sameViews.mem_iff.2 hv)

/-- A change of the registry that keeps the snapshots in use, the snapshots of the running
transactions and the pins keeps the account. -/
theorem congr {new : Registry} (h : registry.Covers txns views)
    (active : new.active = registry.active) (pins : new.pins = registry.pins)
    (snapshot : ∀ t ∈ txns, new.snapshot t = registry.snapshot t) : new.Covers txns views where
  active := by
    rw [active, pins, List.map_congr_left snapshot]
    exact h.active
  holders := by
    rw [pins]
    exact h.holders
  pinned := by
    rw [pins]
    exact h.pinned

theorem start (h : registry.Covers txns views) (known : ∀ t ∈ txns, t < registry.txns.size) :
    registry.start.2.Covers (registry.txns.size :: txns) views where
  active := by
    have old : txns.map registry.start.2.snapshot = txns.map registry.snapshot := by
      apply List.map_congr_left
      intro t ht
      rw [snapshot_start, if_neg (Nat.ne_of_lt (known t ht))]
    rw [List.map_cons, old, snapshot_start, if_pos rfl, List.cons_append]
    exact h.active.cons registry.clock
  holders := h.holders
  pinned := h.pinned

private theorem erase_active (h : registry.Covers (txn :: txns) views) :
    (registry.active.erase (registry.snapshot txn)).Perm
      (txns.map registry.snapshot ++ heldOf registry.pins.toList) := by
  have erased := h.active.erase (registry.snapshot txn)
  rwa [List.map_cons, List.cons_append, List.erase_cons_head] at erased

theorem commit (h : registry.Covers (txn :: txns) views) :
    (registry.commit txn).2.2.Covers txns views where
  active := by
    have old : txns.map (registry.commit txn).2.2.snapshot = txns.map registry.snapshot :=
      List.map_congr_left fun t _ => snapshot_commit registry txn t
    rw [old]
    exact h.erase_active
  holders := h.holders
  pinned := h.pinned

theorem rollback (h : registry.Covers (txn :: txns) views) :
    (registry.rollback txn).2.Covers txns views where
  active := by
    have old : txns.map (registry.rollback txn).2.snapshot = txns.map registry.snapshot :=
      List.map_congr_left fun t _ => snapshot_rollback registry txn t
    rw [old]
    exact h.erase_active
  holders := h.holders
  pinned := h.pinned

private theorem holders_pos (h : registry.Covers txns views) (used : view ∈ views) {i : PinId}
    (named : view.pin = some i) {p : Pin} (hp : registry.pins[i]? = some p) : 0 < p.holders := by
  have occurs : decide (view.pin = some i) = true := by simp [named]
  rw [h.holders i p hp]
  exact List.countP_pos_iff.2 ⟨view, used, occurs⟩

private theorem exists_pin_modify {pins : Array Pin} {j : PinId} {snapshot : Timestamp} (i : PinId)
    (count : Nat → Nat) (found : ∃ p, pins[j]? = some p ∧ p.snapshot = snapshot) :
    ∃ p, (pins.modify i fun p => { p with holders := count p.holders })[j]? = some p ∧
      p.snapshot = snapshot := by
  obtain ⟨q, hq, rfl⟩ := found
  rw [Array.getElem?_modify, hq]
  by_cases same : i = j
  · rw [if_pos same]
    exact ⟨{ q with holders := count q.holders }, rfl, rfl⟩
  · rw [if_neg same]
    exact ⟨q, rfl, rfl⟩

private theorem pin_lt (h : registry.Covers txns views) {v : View} (hv : v ∈ views) {i : PinId}
    (named : v.pin = some i) : i < registry.pins.size := by
  obtain ⟨-, p, hp, -⟩ := h.pinned v hv i named
  exact (Array.getElem?_eq_some_iff.1 hp).1

private theorem get_pinNow (registry : Registry) (i : PinId) :
    registry.pinNow.2.pins[i]? =
      if i = registry.pins.size then some ⟨registry.clock, 1⟩ else registry.pins[i]? :=
  Array.getElem?_push

theorem pinNow (h : registry.Covers txns views) :
    registry.pinNow.2.Covers txns (registry.pinNow.1 :: views) where
  active := by
    have pins : heldOf registry.pinNow.2.pins.toList =
        heldOf registry.pins.toList ++ [registry.clock] := by
      simp [Registry.pinNow, heldOf]
    have old : txns.map registry.pinNow.2.snapshot = txns.map registry.snapshot :=
      List.map_congr_left fun t _ => snapshot_congr (txns_pinNow registry) t
    rw [pins, old, ← List.append_assoc]
    exact (h.active.cons registry.clock).trans (List.perm_append_singleton _ _).symm
  holders i p hp := by
    rw [get_pinNow] at hp
    by_cases fresh : i = registry.pins.size
    · rw [if_pos fresh] at hp
      cases hp
      have others : views.countP (fun v => decide (v.pin = some i)) = 0 := by
        rw [List.countP_eq_zero]
        intro v hv named
        exact Nat.lt_irrefl _ (fresh ▸ h.pin_lt hv (by simpa using named))
      rw [List.countP_cons_of_pos (by simp [Registry.pinNow, fresh]), others]
    · rw [if_neg fresh] at hp
      rw [List.countP_cons_of_neg (by simp [Registry.pinNow, Ne.symm fresh])]
      exact h.holders i p hp
  pinned v hv i named := by
    rcases List.mem_cons.1 hv with rfl | hv
    · cases named
      exact ⟨rfl, ⟨registry.clock, 1⟩, by rw [get_pinNow, if_pos rfl], rfl⟩
    · rw [get_pinNow, if_neg (Nat.ne_of_lt (h.pin_lt hv named))]
      exact h.pinned v hv i named

theorem cons_unpinned (h : registry.Covers txns views) (unpinned : view.pin = none) :
    registry.Covers txns (view :: views) where
  active := h.active
  holders i p hp := by
    rw [List.countP_cons_of_neg (by simp [unpinned])]
    exact h.holders i p hp
  pinned v hv i named := by
    rcases List.mem_cons.1 hv with rfl | hv
    · rw [unpinned] at named
      cases named
    · exact h.pinned v hv i named

theorem hold (h : registry.Covers txns views) (used : view ∈ views) :
    (registry.hold view).Covers txns (view :: views) := by
  cases named : view.pin with
  | none =>
    have same : registry.hold view = registry := by
      unfold Registry.hold
      rw [named]
    rw [same]
    exact h.cons_unpinned named
  | some i =>
    obtain ⟨unowned, p, hp, snapshot⟩ := h.pinned view used i named
    have grown : registry.hold view =
        { registry with
          pins := registry.pins.modify i fun p => { p with holders := p.holders + 1 } } := by
      unfold Registry.hold
      rw [named]
    have holders := h.holders_pos used named hp
    have at' : registry.pins.toList[i]? = some p := by rwa [Array.getElem?_toList]
    constructor
    case active =>
      -- The pin had a holder before, so its snapshot was counted already.
      have held : (heldOf (registry.hold view).pins.toList).Perm (heldOf registry.pins.toList) := by
        have after := heldOf_modify (· + 1) at'
        rw [if_pos (Nat.succ_pos _)] at after
        rw [grown, Array.toList_modify]
        exact after.trans (heldOf_of_held at' holders).symm
      have old : txns.map (registry.hold view).snapshot = txns.map registry.snapshot :=
        List.map_congr_left fun t _ => snapshot_congr (txns_hold registry view) t
      rw [active_hold, old]
      exact h.active.trans (held.symm.append_left _)
    case holders =>
      intro j q hq
      rw [grown, Array.getElem?_modify] at hq
      by_cases same : i = j
      · subst same
        rw [if_pos rfl, hp] at hq
        cases hq
        rw [List.countP_cons_of_pos (by simp [named]), ← h.holders i p hp]
      · rw [if_neg same] at hq
        rw [List.countP_cons_of_neg (by simp [named, same])]
        exact h.holders j q hq
    case pinned =>
      intro v hv j vj
      have was : v.own = none ∧ ∃ p, registry.pins[j]? = some p ∧ p.snapshot = v.snapshot := by
        rcases List.mem_cons.1 hv with rfl | hv
        · exact h.pinned v used j vj
        · exact h.pinned v hv j vj
      obtain ⟨unowned, set⟩ := was
      refine ⟨unowned, ?_⟩
      rw [grown]
      exact exists_pin_modify i (· + 1) set

private theorem release_of_pinned {i : PinId} {p : Pin} (named : view.pin = some i)
    (hp : registry.pins[i]? = some p) :
    registry.release view =
      { registry with
        active := if p.holders = 1 then registry.active.erase p.snapshot else registry.active
        pins := registry.pins.modify i fun p => { p with holders := p.holders - 1 } } := by
  unfold Registry.release
  rw [named]
  simp only [hp]

private theorem active_release {i : PinId} {p : Pin} (h : registry.Covers txns (view :: views))
    (named : view.pin = some i) (hp : registry.pins[i]? = some p) :
    (registry.release view).active.Perm (txns.map (registry.release view).snapshot ++
      heldOf (registry.release view).pins.toList) := by
  have at' : registry.pins.toList[i]? = some p := by rwa [Array.getElem?_toList]
  have held : 0 < p.holders := h.holders_pos List.mem_cons_self named hp
  have before := heldOf_of_held at' held
  have after := heldOf_modify (· - 1) at'
  have old : txns.map (registry.release view).snapshot = txns.map registry.snapshot :=
    List.map_congr_left fun t _ => snapshot_congr (txns_release registry view) t
  rw [old, release_of_pinned named hp, Array.toList_modify]
  by_cases last : p.holders = 1
  · have none : ¬ 0 < p.holders - 1 := by omega
    rw [if_neg none] at after
    rw [if_pos last]
    have moved : registry.active.Perm (p.snapshot ::
        (txns.map registry.snapshot ++ heldOf (registry.pins.toList.eraseIdx i))) :=
      (h.active.trans (before.append_left _)).trans List.perm_middle
    have erased := moved.erase p.snapshot
    rw [List.erase_cons_head] at erased
    exact erased.trans (after.symm.append_left _)
  · have others : 0 < p.holders - 1 := by omega
    rw [if_pos others] at after
    rw [if_neg last]
    exact h.active.trans ((before.trans after.symm).append_left _)

theorem release (h : registry.Covers txns (view :: views)) :
    (registry.release view).Covers txns views := by
  cases named : view.pin with
  | none =>
    have same : registry.release view = registry := by
      unfold Registry.release
      rw [named]
    rw [same]
    constructor
    case active => exact h.active
    case holders =>
      intro i p hp
      rw [h.holders i p hp, List.countP_cons_of_neg (by simp [named])]
    case pinned =>
      intro v hv
      exact h.pinned v (List.mem_cons_of_mem view hv)
  | some i =>
    obtain ⟨unowned, p, hp, snapshot⟩ := h.pinned view List.mem_cons_self i named
    have released := release_of_pinned named hp
    constructor
    case active => exact h.active_release named hp
    case holders =>
      intro j q hq
      rw [released, Array.getElem?_modify] at hq
      by_cases same : i = j
      · subst same
        have holders : p.holders = views.countP (fun v => decide (v.pin = some i)) + 1 := by
          rw [h.holders i p hp, List.countP_cons_of_pos (by simp [named])]
        rw [if_pos rfl, hp] at hq
        cases hq
        exact Nat.sub_eq_of_eq_add holders
      · rw [if_neg same] at hq
        rw [h.holders j q hq, List.countP_cons_of_neg (by simp [named, same])]
    case pinned =>
      intro v hv j vj
      obtain ⟨unowned, set⟩ := h.pinned v (List.mem_cons_of_mem view hv) j vj
      refine ⟨unowned, ?_⟩
      rw [released]
      exact exists_pin_modify i (· - 1) set

theorem snapshot_mem_of_running (h : registry.Covers txns views) (running : txn ∈ txns) :
    registry.snapshot txn ∈ registry.active :=
  h.active.mem_iff.2 (List.mem_append_left _ (List.mem_map_of_mem running))

theorem snapshot_mem_of_pinned (h : registry.Covers txns views) (used : view ∈ views)
    (pinned : view.isPinned = true) : view.snapshot ∈ registry.active := by
  obtain ⟨i, named⟩ := Option.isSome_iff_exists.1 pinned
  obtain ⟨-, p, hp, snapshot⟩ := h.pinned view used i named
  have holders := h.holders_pos used named hp
  have at' : registry.pins.toList[i]? = some p := by rwa [Array.getElem?_toList]
  have held : view.snapshot ∈ heldOf registry.pins.toList := by
    rw [← snapshot]
    exact List.mem_map_of_mem (List.mem_filter.2 ⟨List.mem_of_getElem? at', by simp [holders]⟩)
  exact h.active.mem_iff.2 (List.mem_append_right _ held)

private theorem mem_heldPins (h : registry.Covers txns views)
    {i : Fin registry.pins.toList.length} :
    i ∈ heldPins registry.pins.toList ↔ ∃ v ∈ views, v.pin = some i.val := by
  have counted : (registry.pins.toList.get i).holders =
      views.countP fun v => decide (v.pin = some i.val) := by
    apply h.holders i.val
    rw [← Array.getElem?_toList, List.getElem?_eq_getElem i.isLt]
    rfl
  simp only [heldPins, List.mem_filter, List.mem_finRange, true_and, counted, decide_eq_true_eq,
    List.countP_pos_iff]

private theorem snapshot_of_named (h : registry.Covers txns views) (used : view ∈ views)
    {i : Fin registry.pins.toList.length} (named : view.pin = some i.val) :
    (registry.pins.toList.get i).snapshot = view.snapshot := by
  obtain ⟨-, p, hp, snapshot⟩ := h.pinned view used i named
  rw [← Array.getElem?_toList, List.getElem?_eq_getElem i.isLt] at hp
  cases hp
  exact snapshot

private theorem exists_named (h : registry.Covers txns views) (used : view ∈ views)
    (pinned : view.isPinned = true) :
    view.own = none ∧ ∃ i : Fin registry.pins.toList.length, view.pin = some i.val := by
  obtain ⟨i, named⟩ := Option.isSome_iff_exists.1 pinned
  obtain ⟨foreign, p, hp, -⟩ := h.pinned view used i named
  exact ⟨foreign, ⟨i, (Array.getElem?_eq_some_iff.1 hp).1⟩, named⟩

/-- The held snapshots are those of the pinned views. -/
theorem held (h : registry.Covers txns views) :
    (heldOf registry.pins.toList).Perm
      (((views.filter View.isPinned).dedup).map (·.snapshot)) := by
  have ofMem {v : View} (hv : v ∈ (views.filter View.isPinned).dedup) :
      v ∈ views ∧ v.isPinned = true := List.mem_filter.1 (List.mem_dedup.1 hv)
  -- Beside the number of its pin, no snapshot occurs twice on either side.
  have numbered : ((heldPins registry.pins.toList).map fun i =>
        (some i.val, (registry.pins.toList.get i).snapshot)).Perm
      ((views.filter View.isPinned).dedup.map fun v => (v.pin, v.snapshot)) := by
    refine (List.perm_ext_iff_of_nodup ?_ ?_).2 ?_
    · apply List.Nodup.map _ ((List.nodup_finRange _).filter _)
      intro i j same
      exact Fin.ext (Option.some.inj (Prod.mk.inj same).1)
    · apply List.Nodup.map_on _ (List.nodup_dedup _)
      intro v hv w hw same
      obtain ⟨foreignV, -⟩ := h.exists_named (ofMem hv).1 (ofMem hv).2
      obtain ⟨foreignW, -⟩ := h.exists_named (ofMem hw).1 (ofMem hw).2
      cases v
      cases w
      simp_all
    · intro pair
      rw [List.mem_map, List.mem_map]
      constructor
      · rintro ⟨i, held, rfl⟩
        obtain ⟨v, used, named⟩ := h.mem_heldPins.1 held
        have pinned : v.isPinned = true := Option.isSome_iff_exists.2 ⟨i.val, named⟩
        refine ⟨v, List.mem_dedup.2 (List.mem_filter.2 ⟨used, pinned⟩), ?_⟩
        rw [named, h.snapshot_of_named used named]
      · rintro ⟨v, hv, rfl⟩
        obtain ⟨-, i, named⟩ := h.exists_named (ofMem hv).1 (ofMem hv).2
        refine ⟨i, h.mem_heldPins.2 ⟨v, (ofMem hv).1, named⟩, ?_⟩
        rw [named, h.snapshot_of_named (ofMem hv).1 named]
  have snapshots := numbered.map Prod.snd
  rw [List.map_map, List.map_map] at snapshots
  rw [heldOf_eq]
  exact snapshots

theorem active_eq_nil (h : registry.Covers [] views)
    (dropped : ∀ view ∈ views, view.isPinned = false) : registry.active = [] := by
  have unpinned : views.filter View.isPinned = [] := by
    apply List.filter_eq_nil_iff.2
    intro view used
    simp [dropped view used]
  have held := h.held
  have active := h.active
  rw [unpinned, List.dedup_nil, List.map_nil] at held
  rw [List.perm_nil.1 held] at active
  exact List.perm_nil.1 active

end Covers

theorem horizon_le_of_mem {snapshot : Timestamp} (h : snapshot ∈ registry.active) :
    registry.horizon ≤ snapshot := by
  unfold horizon
  cases least : registry.active.min? with
  | none =>
    rw [List.min?_eq_none_iff.1 least] at h
    cases h
  | some m => exact (List.min?_eq_some_iff.1 least).2 snapshot h

theorem horizon_mem (registry : Registry) :
    registry.horizon = registry.clock ∨ registry.horizon ∈ registry.active := by
  unfold horizon
  cases least : registry.active.min? with
  | none => exact Or.inl rfl
  | some m => exact Or.inr (List.min?_eq_some_iff.1 least).1

theorem horizon_le_clock (h : ∀ a ∈ registry.active, a ≤ registry.clock) :
    registry.horizon ≤ registry.clock := by
  rcases registry.horizon_mem with clock | used
  · exact Nat.le_of_eq clock
  · exact h _ used

/-- The horizon does not move back when every snapshot newly in use is that of the clock. -/
theorem horizon_mono {new : Registry} (bound : ∀ a ∈ registry.active, a ≤ registry.clock)
    (clock : registry.clock ≤ new.clock)
    (active : ∀ a ∈ new.active, a ∈ registry.active ∨ registry.clock ≤ a) :
    registry.horizon ≤ new.horizon := by
  have low := horizon_le_clock bound
  rcases new.horizon_mem with eq | used
  · exact eq ▸ Nat.le_trans low clock
  · rcases active _ used with old | late
    · exact horizon_le_of_mem old
    · exact Nat.le_trans low late

end Registry

end RowStore.Transaction
