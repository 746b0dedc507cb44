/- RowStore/Proofs/Run/Leases
   role: theorems
   digest: Operators keep one snapshot in use for each pinned view, and none when they are closed. -/

import RowStore.Proofs.Engine.Handles
import RowStore.Proofs.Run.Operators
import RowStore.Run.Call

/-!
What a tree of operators adds to the snapshots in use is compared with the store that it was given.
Each pinned view of its scans has a pin of its own with one holder, so to give up the view takes
exactly its snapshot out of use. A handle that had no transaction may have begun one; nothing else is
added. Every step of every operator keeps this account, and a tree that is closed has no views.
-/

set_option autoImplicit false
set_option relaxedAutoImplicit false

namespace RowStore

open RowStore.Row (Record RowFilter RowId)
open RowStore.Schema (Layout)
open RowStore.Transaction (LockMode PinId Timestamp TxnId View)
open RowStore.Transaction.Registry (snapshot_congr snapshot_start)

variable {h : HandleId} {base engine engine' : Engine} {views rest : List View} {view : View}
  {table : Layout} {change : Change} {run : ChangeRun} {filter : RowFilter} {child operator : Operator}
  {others : List Operator} {n : Nat}

def pinnedSnapshots (views : List View) : List Timestamp :=
  (views.filter (·.isPinned)).map (·.snapshot)

theorem pinnedSnapshots_cons (view : View) (views : List View) :
    pinnedSnapshots (view :: views) =
      if view.isPinned then view.snapshot :: pinnedSnapshots views else pinnedSnapshots views := by
  unfold pinnedSnapshots
  rw [List.filter_cons]
  split <;> rfl

/-- The snapshot of the transaction that a handle carries now, if it carried none in an earlier state
of the store. -/
def Engine.begunSince (old new : Engine) (h : HandleId) : List Timestamp :=
  match (old.handle h).txn with
  | some _ => []
  | none => ((new.handle h).txn.map new.registry.snapshot).toList

theorem Engine.begunSince_congr {old : Engine}
    (carried : (engine'.handle h).txn = (engine.handle h).txn)
    (snapshot : ∀ txn, engine'.registry.snapshot txn = engine.registry.snapshot txn) :
    old.begunSince engine' h = old.begunSince engine h := by
  unfold begunSince
  rw [carried, funext snapshot]

/-- The snapshots in use are those of an earlier store, those of the pinned views, and that of the
transaction that the handle has begun since. The views have pins of their own. -/
structure Leased (h : HandleId) (base engine : Engine) (views : List View) : Prop where
  known : h < engine.handles.size
  carries : ∀ txn, (base.handle h).txn = some txn → (engine.handle h).txn = some txn
  active : engine.registry.active.Perm
    (base.begunSince engine h ++ pinnedSnapshots views ++ base.registry.active)
  pins : ∀ v ∈ views, ∀ i, v.pin = some i → engine.registry.pins[i]? = some ⟨v.snapshot, 1⟩
  apart : (views.filterMap (·.pin)).Nodup

namespace Leased

theorem refl (known : h < engine.handles.size) : Leased h engine engine [] where
  known := known
  carries _ carried := carried
  active := by
    have none : engine.begunSince engine h = [] := by
      unfold Engine.begunSince
      cases (engine.handle h).txn <;> rfl
    rw [none]
    exact List.Perm.refl _
  pins v hv := by cases hv
  apart := List.nodup_nil

theorem perm (leased : Leased h base engine views) (same : views.Perm rest) :
    Leased h base engine rest where
  known := leased.known
  carries := leased.carries
  active := leased.active.trans
    (((same.filter _).map _).append_left _ |>.append_right _)
  pins v hv := leased.pins v (same.mem_iff.2 hv)
  apart := (same.filterMap _).nodup_iff.1 leased.apart

theorem congr (leased : Leased h base engine views)
    (size : engine'.handles.size = engine.handles.size)
    (carried : (engine'.handle h).txn = (engine.handle h).txn)
    (active : engine'.registry.active = engine.registry.active)
    (pins : engine'.registry.pins = engine.registry.pins)
    (snapshot : ∀ txn, engine'.registry.snapshot txn = engine.registry.snapshot txn) :
    Leased h base engine' views where
  known := size ▸ leased.known
  carries txn begun := carried.trans (leased.carries txn begun)
  active := by
    rw [active, Engine.begunSince_congr carried snapshot]
    exact leased.active
  pins := pins ▸ leased.pins
  apart := leased.apart

theorem ensureStarted (leased : Leased h base engine views) :
    Leased h base (engine.ensureStarted h).2 views := by
  cases carried : (engine.handle h).txn with
  | some txn =>
    rw [Engine.ensureStarted_of_carries carried]
    exact leased
  | none =>
    have idle : (base.handle h).txn = none := by
      cases before : (base.handle h).txn with
      | none => rfl
      | some txn => exact absurd ((leased.carries txn before).symm.trans carried) nofun
    have begun := Engine.carries_ensureStarted leased.known
    have active := leased.active
    unfold Engine.begunSince at active
    rw [Engine.ensureStarted_of_idle carried] at begun ⊢
    rw [idle, carried] at active
    constructor
    case known =>
      change h < (engine.handles.modify h _).size
      rw [Array.size_modify]
      exact leased.known
    case carries =>
      intro txn before
      rw [idle] at before
      cases before
    case active =>
      unfold Engine.begunSince
      rw [idle, begun]
      change (engine.registry.clock :: engine.registry.active).Perm
        ([engine.registry.start.2.snapshot engine.registry.txns.size] ++ pinnedSnapshots views ++
          base.registry.active)
      rw [snapshot_start, if_pos rfl]
      exact active.cons engine.registry.clock
    case pins => exact leased.pins
    case apart => exact leased.apart

theorem latestView (leased : Leased h base engine views) :
    Leased h base engine.latestView.2 (engine.latestView.1 :: views) := by
  have old : ∀ v ∈ views, ∀ i, v.pin = some i → i ≠ engine.registry.pins.size := by
    intro v hv i named
    exact Nat.ne_of_lt (Array.getElem?_eq_some_iff.1 (leased.pins v hv i named)).1
  constructor
  case known => exact leased.known
  case carries => exact leased.carries
  case active =>
    have same : base.begunSince engine.latestView.2 h = base.begunSince engine h :=
      Engine.begunSince_congr rfl (snapshot_congr rfl)
    rw [same, pinnedSnapshots_cons]
    exact (leased.active.cons engine.registry.clock).trans
      (List.perm_middle.symm.append_right base.registry.active)
  case pins =>
    intro v hv i named
    change (engine.registry.pins.push ⟨engine.registry.clock, 1⟩)[i]? = _
    rw [Array.getElem?_push]
    rcases List.mem_cons.1 hv with rfl | hv
    · cases named
      rw [if_pos rfl]
      rfl
    · rw [if_neg (old v hv i named)]
      exact leased.pins v hv i named
  case apart =>
    refine List.nodup_cons.2 ⟨fun mem => ?_, leased.apart⟩
    obtain ⟨v, hv, named⟩ := List.mem_filterMap.1 mem
    exact old v hv _ named rfl

theorem cons_unpinned (unpinned : view.pin = none) :
    Leased h base engine (view :: views) ↔ Leased h base engine views := by
  have free : view.isPinned = false := by simp [View.isPinned, unpinned]
  have snapshots : pinnedSnapshots (view :: views) = pinnedSnapshots views := by
    simp [pinnedSnapshots_cons, free]
  have pins : (view :: views).filterMap (·.pin) = views.filterMap (·.pin) :=
    List.filterMap_cons_none unpinned
  constructor
  · intro leased
    refine ⟨leased.known, leased.carries, snapshots ▸ leased.active, ?_, pins ▸ leased.apart⟩
    intro v hv
    exact leased.pins v (List.mem_cons_of_mem _ hv)
  · intro leased
    refine ⟨leased.known, leased.carries, snapshots ▸ leased.active, ?_, pins ▸ leased.apart⟩
    intro v hv i named
    rcases List.mem_cons.1 hv with rfl | hv
    · rw [unpinned] at named
      cases named
    · exact leased.pins v hv i named

theorem readView (leased : Leased h base engine views) :
    Leased h base (engine.readView h).2 ((engine.readView h).1 :: views) := by
  unfold Engine.readView
  split
  · exact (cons_unpinned rfl).2 leased
  · exact leased.latestView

/-- A view given up takes its snapshot out of use. -/
theorem dropView (leased : Leased h base engine (view :: views)) :
    Leased h base (engine.dropView view) views := by
  cases named : view.pin with
  | none =>
    have same : engine.dropView view = engine := by
      unfold Engine.dropView Transaction.Registry.release
      rw [named]
    rw [same]
    exact (cons_unpinned named).1 leased
  | some i =>
    have pin := leased.pins view List.mem_cons_self i named
    have dropped : engine.dropView view = { engine with
        registry := { engine.registry with
          active := engine.registry.active.erase view.snapshot
          pins := engine.registry.pins.modify i fun p => { p with holders := p.holders - 1 } } } := by
      unfold Engine.dropView Transaction.Registry.release
      rw [named]
      dsimp only
      rw [pin]
      rfl
    have apart := leased.apart
    rw [List.filterMap_cons_some named, List.nodup_cons] at apart
    rw [dropped]
    constructor
    case known => exact leased.known
    case carries => exact leased.carries
    case active =>
      have pinned : view.isPinned = true := by simp [View.isPinned, named]
      have active := leased.active
      rw [pinnedSnapshots_cons, if_pos pinned] at active
      have first := active.trans (List.perm_middle.append_right base.registry.active)
      have erased := first.erase view.snapshot
      rw [List.cons_append, List.erase_cons_head] at erased
      exact erased
    case pins =>
      intro v hv j vj
      -- No other view names the pin, so all other pins keep their one holder.
      have other : i ≠ j := by
        rintro rfl
        exact apart.1 (List.mem_filterMap.2 ⟨v, hv, vj⟩)
      change (engine.registry.pins.modify i _)[j]? = _
      rw [Array.getElem?_modify, if_neg other]
      exact leased.pins v (List.mem_cons_of_mem _ hv) j vj
    case apart => exact apart.2

theorem scannerStart (leased : Leased h base engine views) (scanner : Scanner)
    (own : scanner.handle = h) (closed : scanner.view = none) :
    ∃ view, (scanner.start engine).1.view = some view ∧
      Leased h base (scanner.start engine).2 (view :: views) := by
  obtain ⟨layout, handle, mode, view, cursor, page⟩ := scanner
  cases own
  cases closed
  cases mode with
  | readOnly => exact ⟨_, rfl, leased.readView⟩
  | readWrite => exact ⟨_, rfl, leased.ensureStarted.readView⟩

theorem releaseView {scanner : Scanner} (leased : Leased h base engine (scanner.view.toList ++ views)) :
    Leased h base (scanner.releaseView engine) views := by
  unfold Scanner.releaseView
  cases opened : scanner.view with
  | none =>
    rw [opened] at leased
    exact leased
  | some view =>
    rw [opened] at leased
    exact leased.dropView

theorem scannerNext {scanner : Scanner} (leased : Leased h base engine views) :
    Leased h base (scanner.next engine).2.2 views := by
  obtain ⟨-, same | ⟨locks, moved⟩⟩ := scanner.next_locks engine
  · rwa [same]
  · rw [moved]
    exact leased.congr Array.size_modify
      (Engine.carried_modifyHandle engine _ h fun _ => rfl) rfl rfl fun _ => rfl

theorem attempted {α : Type} {row : α → RowId} {outcome : Except Fault α × Engine}
    (leased : Leased h base engine views)
    (attempted : Engine.Attempted engine h table row outcome) : Leased h base outcome.2 views := by
  have begun := leased.ensureStarted
  cases attempted with
  | failed fault left catalog registry handles =>
    refine begun.congr (by rw [handles]) ?_ (by rw [registry]) (by rw [registry]) ?_
    · rw [Engine.handle_eq, Engine.handle_eq, handles]
    · rw [registry]
      exact fun _ => rfl
  | noted a left catalog registry handles =>
    refine begun.congr ?_ ?_ (by exact congrArg (·.active) registry)
      (by exact congrArg (·.pins) registry) ?_
    · change (left.handles.modify h _).size = _
      rw [Array.size_modify, handles]
    · refine (Engine.carried_modifyHandle _ h h (by intro _; rfl)).trans ?_
      change (left.handles[h]?.getD {}).txn = _
      rw [handles]
      rfl
    · intro txn
      change (left.registry.touch _ _).snapshot txn = _
      rw [Transaction.Registry.snapshot_touch, registry]

theorem apply (leased : Leased h base engine views) (fields : List Schema.RowField) (row : Record) :
    Leased h base (change.apply table fields h row engine).2 views := by
  unfold Change.apply
  split
  · exact leased.attempted (Engine.attempted_delete engine h table row.id)
  · split
    · exact leased
    · exact leased.attempted (Engine.attempted_replace engine h table row.id _)

end Leased

namespace Operator

/-- Changes act for the handle only, and only the first input of a change can have views. -/
def Tidy (h : HandleId) : Operator → Prop
  | .scan _ _ _ _ => True
  | .predicate _ child => child.Tidy h
  | .alter _ _ _ [] => True
  | .alter _ _ run (child :: others) =>
    (∀ other, run.handle = some other → other = h) ∧ viewsOfAll others = [] ∧ child.Tidy h

/-- The operator, which has so many scans, holds its views beside the rest of those accounted for. -/
structure Holds (h : HandleId) (base : Engine) (rest : List View) (n : Nat) (operator : Operator)
    (engine : Engine) : Prop where
  leased : Leased h base engine (operator.views ++ rest)
  tidy : operator.Tidy h
  count : operator.scanCount = n

namespace Holds

theorem predicate (holds : Holds h base rest n child engine) :
    Holds h base rest n (.predicate filter child) engine :=
  ⟨holds.leased, holds.tidy, holds.count⟩

theorem inner (holds : Holds h base rest n (.predicate filter child) engine) :
    Holds h base rest n child engine :=
  ⟨holds.leased, holds.tidy, holds.count⟩

theorem alter_iff : Holds h base rest n (.alter table change run (child :: others)) engine ↔
    (∀ other, run.handle = some other → other = h) ∧ viewsOfAll others = [] ∧
      ∃ m, Holds h base rest m child engine ∧ m + scanCountOfAll others = n := by
  constructor
  · rintro ⟨leased, ⟨acts, empty, tidy⟩, count⟩
    refine ⟨acts, empty, child.scanCount, ⟨?_, tidy, rfl⟩, count⟩
    change Leased h base engine (child.views ++ viewsOfAll others ++ rest) at leased
    rwa [empty, List.append_nil] at leased
  · rintro ⟨acts, empty, m, ⟨leased, tidy, rfl⟩, count⟩
    refine ⟨?_, ⟨acts, empty, tidy⟩, count⟩
    change Leased h base engine (child.views ++ viewsOfAll others ++ rest)
    rwa [empty, List.append_nil]

theorem leased_cons {scanner : Scanner} (opened : scanner.view = some view) {mode : LockMode}
    {row : Option Record} (leased : Leased h base engine (view :: rest)) :
    Holds h base rest 1 (.scan table mode (some scanner) row) engine := by
  refine ⟨?_, trivial, rfl⟩
  change Leased h base engine (scanner.view.toList ++ rest)
  rwa [opened]

end Holds

theorem start_holds : ∀ {operator : Operator} {engine : Engine} {n : Nat},
    Holds h base rest n operator engine →
      Holds h base rest n (operator.start h engine).2.1 (operator.start h engine).2.2
  | .scan table mode old row, engine, n, holds => by
    have leased := holds.leased
    cases holds.count
    obtain ⟨view, opened, started⟩ :=
      leased.scannerStart { layout := table, handle := h, mode } rfl rfl
    apply Holds.leased_cons opened
    cases old with
    | none => exact started
    | some scanner =>
      apply Leased.releaseView
      exact started.perm List.perm_middle.symm
  | .predicate filter child, engine, n, holds => (start_holds holds.inner).predicate
  | .alter table change run [], engine, n, holds => holds
  | .alter table change run (_ :: _ :: _), engine, n, holds => holds
  | .alter table change run [child], engine, n, holds => by
    obtain ⟨acts, empty, m, inner, count⟩ := Holds.alter_iff.1 holds
    have started := start_holds inner
    simp only [start]
    split
    · exact holds
    · split
      case h_1 failed =>
        rw [failed] at started
        exact Holds.alter_iff.2 ⟨acts, empty, m, started, count⟩
      case h_2 done =>
        rw [done] at started
        refine Holds.alter_iff.2 ⟨?_, empty, m, started, count⟩
        intro other same
        exact (Option.some.inj same).symm

theorem nextWithin_holds (steps : Nat) (holds : Holds h base rest n operator engine) :
    Holds h base rest n (nextWithin steps operator engine).2.1
      (nextWithin steps operator engine).2.2 := by
  induction steps generalizing operator engine n with
  | zero => exact holds
  | succ steps ih =>
    have child' {m : Nat} (child : Operator) (engine : Engine)
        (inner : Holds h base rest m child engine) :
        Holds h base rest m (nextWithin steps child engine).2.1
          (nextWithin steps child engine).2.2 := ih inner
    cases operator with
    | scan table mode scanner row =>
      cases scanner with
      | none => exact holds
      | some scanner =>
        obtain ⟨same, -⟩ := scanner.next_locks engine
        have moved : Leased h base (scanner.next engine).2.2 (scanner.view.toList ++ rest) :=
          holds.leased.scannerNext
        rw [← same] at moved
        simp only [nextWithin]
        split
        case h_1 stopped =>
          rw [stopped] at moved
          exact ⟨moved, trivial, holds.count⟩
        case h_2 stepped =>
          rw [stepped] at moved
          exact ⟨moved, trivial, holds.count⟩
    | predicate filter child =>
      exact (seek_keeps child' record? (engine.rowCount + 1) holds.inner).predicate
    | alter table change run children =>
      simp only [nextWithin]
      split
      · exact holds
      · exact holds
      case h_3 bound child others started =>
        obtain ⟨acts, empty, m, inner, count⟩ := Holds.alter_iff.1 holds
        have mine : bound = h := acts bound started
        subst mine
        have changes (row : Record) (child : Operator) (engine : Engine)
            (inner : Holds bound base rest m child engine) :
            Holds bound base rest m child (change.apply table run.fields bound row engine).2 :=
          ⟨inner.leased.apply run.fields row, inner.tidy, inner.count⟩
        have applied := applyAll_keeps child' changes change.consumer record? (engine.rowCount + 1)
          run.affected inner
        exact Holds.alter_iff.2 ⟨acts, empty, m, applied, count⟩

/-- A tree that is closed has no views. -/
theorem close_holds : ∀ {operator : Operator} {engine : Engine} {n : Nat},
    Holds h base rest n operator engine →
      Holds h base rest n (operator.close engine).1 (operator.close engine).2 ∧
        (operator.close engine).1.views = []
  | .scan table mode none row, engine, n, holds => ⟨⟨holds.leased, trivial, holds.count⟩, rfl⟩
  | .scan table mode (some scanner) row, engine, n, holds =>
    ⟨⟨holds.leased.releaseView, trivial, holds.count⟩, rfl⟩
  | .predicate filter child, engine, n, holds => by
    obtain ⟨closed, released⟩ := close_holds holds.inner
    exact ⟨closed.predicate, released⟩
  | .alter table change run [], engine, n, holds => ⟨⟨holds.leased, trivial, holds.count⟩, rfl⟩
  | .alter table change run (child :: others), engine, n, holds => by
    obtain ⟨acts, empty, m, inner, count⟩ := Holds.alter_iff.1 holds
    obtain ⟨closed, released⟩ := close_holds inner
    have idle : ∀ other, (none : Option HandleId) = some other → other = h := nofun
    refine ⟨Holds.alter_iff.2 ⟨idle, empty, m, closed, count⟩, ?_⟩
    change (child.close engine).1.views ++ viewsOfAll others = []
    rw [released, empty, List.append_nil]

theorem perform_holds (holds : Holds h base rest n operator engine) (use : Run.Use) :
    Holds h base rest n (Run.Use.perform h (operator, engine) use).1
      (Run.Use.perform h (operator, engine) use).2 := by
  cases use with
  | start => exact start_holds holds
  | next => exact nextWithin_holds operator.height holds
  | close => exact (close_holds holds).1

theorem performAll_holds (holds : Holds h base rest n operator engine) (uses : List Run.Use) :
    Holds h base rest n (Run.performAll h (operator, engine) uses).1
      (Run.performAll h (operator, engine) uses).2 := by
  induction uses generalizing operator engine with
  | nil => exact holds
  | cons use uses ih => exact ih (perform_holds holds use)

mutual

theorem views_ofPlan : ∀ plan : Plan, (ofPlan plan).views = []
  | .scan _ _ => rfl
  | .predicate _ child => views_ofPlan child
  | .alter _ _ children => viewsOfAll_ofPlans children

theorem viewsOfAll_ofPlans : ∀ plans : List Plan, viewsOfAll (ofPlans plans) = []
  | [] => rfl
  | plan :: rest => by
    change (ofPlan plan).views ++ viewsOfAll (ofPlans rest) = []
    rw [views_ofPlan plan, viewsOfAll_ofPlans rest]
    rfl

end

theorem tidy_ofPlan (h : HandleId) : ∀ plan : Plan, (ofPlan plan).Tidy h
  | .scan _ _ => trivial
  | .predicate _ child => tidy_ofPlan h child
  | .alter _ _ [] => trivial
  | .alter _ _ (child :: others) => ⟨nofun, viewsOfAll_ofPlans others, tidy_ofPlan h child⟩

theorem ofPlan_holds (known : h < engine.handles.size) (plan : Plan) :
    Holds h engine [] (ofPlan plan).scanCount (ofPlan plan) engine := by
  refine ⟨?_, tidy_ofPlan h plan, rfl⟩
  rw [views_ofPlan]
  exact Leased.refl known

mutual

/-- A tree has at most one view for each of its scans. -/
theorem length_views_le : ∀ operator : Operator, operator.views.length ≤ operator.scanCount
  | .scan _ _ scanner _ => by
    change (scanner.bind (·.view)).toList.length ≤ 1
    cases scanner.bind (·.view) <;> simp
  | .predicate _ child => length_views_le child
  | .alter _ _ _ children => length_viewsOfAll_le children

theorem length_viewsOfAll_le :
    ∀ operators : List Operator, (viewsOfAll operators).length ≤ scanCountOfAll operators
  | [] => Nat.le_refl 0
  | operator :: rest => by
    have first := length_views_le operator
    have others := length_viewsOfAll_le rest
    change (operator.views ++ viewsOfAll rest).length ≤ operator.scanCount + scanCountOfAll rest
    rw [List.length_append]
    exact Nat.add_le_add first others

end

theorem drain_holds (holds : Holds h base rest n operator engine) :
    Holds h base rest n (engine.drain h operator).2.1 (engine.drain h operator).2.2 := by
  have started := start_holds holds
  unfold Engine.drain
  split
  case h_1 failed =>
    rw [failed] at started
    exact started
  case h_2 operator' engine' done =>
    rw [done] at started
    have advanced := nextWithin_holds operator'.height started
    split
    case h_1 failed =>
      rw [next] at failed
      rw [failed] at advanced
      exact advanced
    case h_2 stepped =>
      rw [next] at stepped
      rw [stepped] at advanced
      exact advanced

/-- Closed, a tree leaves the snapshots that were in use before, and that of the transaction begun. -/
theorem Holds.active_close (holds : Holds h base [] n operator engine) :
    (operator.close engine).2.registry.active.Perm
      (base.begunSince (operator.close engine).2 h ++ base.registry.active) := by
  obtain ⟨closed, released⟩ := close_holds holds
  have active := closed.leased.active
  rw [released] at active
  exact (List.append_nil (base.begunSince (operator.close engine).2 h)) ▸ active

end Operator

/-- Whatever tree of operators a handle opens, advances and closes, in any order and whether or not
that succeeds, the snapshots in use are those in use before, that of a transaction which the handle
has begun meanwhile, and those of the tree's pinned views, at most one for each scan. A tree that is
closed has none. So a statement, however it ends, adds at most the handle's new transaction. -/
theorem operators_leak_nothing (engine : Engine) (known : h < engine.handles.size) :
    (∀ (plan : Plan) (uses : List Run.Use),
      let used := Run.performAll h (Operator.ofPlan plan, engine) uses
      let closed := used.1.close used.2
      used.2.registry.active.Perm
          (engine.begunSince used.2 h ++ pinnedSnapshots used.1.views ++ engine.registry.active) ∧
        used.1.views.length ≤ (Operator.ofPlan plan).scanCount ∧ closed.1.views = [] ∧
        closed.2.registry.active.Perm (engine.begunSince closed.2 h ++ engine.registry.active)) ∧
    ∀ statement, (engine.execute h statement).2.registry.active.Perm
      (engine.begunSince (engine.execute h statement).2 h ++ engine.registry.active) := by
  constructor
  · intro plan uses
    have used := Operator.performAll_holds (Operator.ofPlan_holds known plan) uses
    have active := used.leased.active
    rw [List.append_nil] at active
    refine ⟨active, ?_, (Operator.close_holds used).2, used.active_close⟩
    exact Nat.le_trans (Operator.length_views_le _) (Nat.le_of_eq used.count)
  · intro statement
    unfold Engine.execute
    split
    · exact (List.append_nil (engine.begunSince engine h)) ▸ (Leased.refl known).active
    · rename_i plan _
      exact (Operator.drain_holds (Operator.ofPlan_holds known plan)).active_close

def oneRow : Engine :=
  ((Run.initial {}).run [.createTable ⟨"t", [⟨"a", .int, 4⟩]⟩, .newHandle, .insert 0 1 [1, 0, 0, 0],
    .commit 0]).engine

theorem operators_leak_nothing_twice_opened :
    let scan := Plan.scan ⟨1, "t", [⟨"a", .int, 0, 4⟩]⟩ .readOnly
    let used := Run.performAll 0 (Operator.ofPlan scan, oneRow) [.start, .start, .next]
    used.1.views.length = 1 ∧ used.2.registry.active.Perm [2] ∧
      (used.1.close used.2).2.registry.active.Perm [] := by
  have account := (operators_leak_nothing (h := 0) oneRow (by decide)).1
    (.scan ⟨1, "t", [⟨"a", .int, 0, 4⟩]⟩ .readOnly) [.start, .start, .next]
  exact ⟨by decide, account.1, account.2.2.2⟩

end RowStore
