/- RowStore/Proofs/Run/Linkage
   role: theorems
   digest: How the versions of a row follow each other, and where unfinished transactions stand. -/

import Mathlib.Data.List.Chain
import RowStore.Proofs.Run.Events
import RowStore.Proofs.Table.Rows

/-!
Each version but the last was deleted by the maker of the next one, who had begun after the commit of
its maker. So the makers committed in the order of the versions, and only the last version can be that
of an unfinished transaction. This is kept by every write, and what is left of a row when old versions
are forgotten is the end of such a list.
-/

set_option autoImplicit false
set_option relaxedAutoImplicit false

namespace RowStore.Run

open RowStore.Row (RowId)
open RowStore.Schema (Layout)
open RowStore.Table (Chain Version)
open RowStore.Table.Chain
open RowStore.Transaction (Registry Timestamp Touch TxnId isSettled isSettled_iff isSettled_mono
  openBit)
open RowStore.Transaction.Registry (ownView_sees_iff)

variable {config : Config} {commits : Nat} {inserts : Nat → Nat} {state : State}
  {registry : Registry} {writes : List (TxnId × Write)} {txn : TxnId} {chain front : Chain}
  {v w : Version} {t : Touch}

/-- Each version but the last is deleted by the maker of the next one, the makers committed one after
the other, and who deleted the last one sees its maker. -/
structure Linked (registry : Registry) (chain : Chain) : Prop where
  handed : chain.IsChain fun v w => v.deleter = some w.creator
  timed : (chain.map (·.creator)).Pairwise fun a b =>
    isSettled (registry.stamp b) (registry.stamp a) = true
  newest : ∀ v ∈ chain.getLast?, ∀ txn, v.deleter = some txn →
    (registry.ownView txn).sees registry.stamp v.creator = true

namespace Linked

theorem singleton (registry : Registry) (free : v.deleter = none) : Linked registry [v] where
  handed := List.isChain_singleton v
  timed := List.pairwise_singleton _ _
  newest last hl txn deleted := by
    cases List.mem_singleton.1 (List.mem_of_getLast? hl)
    rw [free] at deleted
    cases deleted

theorem suffix {old : Chain} (linked : Linked registry (old ++ chain)) (occupied : chain ≠ []) :
    Linked registry chain where
  handed := linked.handed.suffix (List.suffix_append old chain)
  timed := by
    have all := linked.timed
    rw [List.map_append] at all
    exact (List.pairwise_append.1 all).2.1
  newest last hl := by
    apply linked.newest
    rwa [List.getLast?_append_of_ne_nil old occupied]

theorem rewritten (linked : Linked registry (front ++ [v])) (same : w.creator = v.creator)
    (seen : ∀ txn, w.deleter = some txn →
      (registry.ownView txn).sees registry.stamp w.creator = true) :
    Linked registry (front ++ [w]) where
  handed := by
    obtain ⟨before, -, joined⟩ := List.isChain_append.1 linked.handed
    refine List.isChain_append.2 ⟨before, List.isChain_singleton w, ?_⟩
    intro u hu x hx
    cases hx
    rw [same]
    exact joined u hu v rfl
  timed := by
    have all := linked.timed
    rw [List.map_append, List.map_singleton] at all ⊢
    rwa [same]
  newest last hl := by
    rw [List.getLast?_concat] at hl
    cases hl
    exact seen

/-- A version may follow when the last one was deleted by its maker, who has begun after the commit of
the last maker. -/
theorem followed (linked : Linked registry (front ++ [v])) (handed : v.deleter = some w.creator)
    (settled : isSettled (registry.stamp w.creator) (registry.stamp v.creator) = true)
    (free : w.deleter = none) : Linked registry (front ++ [v] ++ [w]) where
  handed := by
    refine List.isChain_append.2 ⟨linked.handed, List.isChain_singleton w, ?_⟩
    intro u hu x hx
    rw [List.getLast?_concat] at hu
    cases hu
    cases hx
    exact handed
  timed := by
    have all := linked.timed
    rw [List.map_append]
    refine List.pairwise_append.2 ⟨all, List.pairwise_singleton _ _, ?_⟩
    intro a ha b hb
    cases List.mem_singleton.1 hb
    rw [List.map_append] at all ha
    rcases List.mem_append.1 ha with older | last
    · have before := (List.pairwise_append.1 all).2.2 a older v.creator List.mem_cons_self
      exact isSettled_mono before (Nat.le_of_lt (isSettled_iff.1 settled).2)
    · cases List.mem_singleton.1 last
      exact settled
  newest last hl txn deleted := by
    rw [List.getLast?_concat] at hl
    cases hl
    rw [free] at deleted
    cases deleted

theorem nodup (linked : Linked registry chain) : (chain.map (·.creator)).Nodup := by
  apply linked.timed.imp
  rintro a b settled rfl
  exact Nat.lt_irrefl _ (isSettled_iff.1 settled).2

theorem ordered (linked : Linked registry chain) :
    chain.Pairwise fun v w => registry.stamp v.creator < registry.stamp w.creator := by
  apply (List.pairwise_map.1 linked.timed).imp
  intro v w settled
  exact (isSettled_iff.1 settled).2

theorem committed (linked : Linked registry chain) (mem : v ∈ chain.dropLast) :
    registry.stamp v.creator ≤ openBit := by
  rcases List.eq_nil_or_concat chain with rfl | ⟨front, last, rfl⟩
  · cases mem
  · rw [List.concat_eq_append] at linked mem
    rw [List.dropLast_concat] at mem
    have all := linked.timed
    rw [List.map_append] at all
    have before := (List.pairwise_append.1 all).2.2 v.creator (List.mem_map_of_mem mem)
      last.creator List.mem_cons_self
    exact (isSettled_iff.1 before).1

end Linked

private theorem linked_record (forward : Forward registry) {made : TxnId × Write}
    (orderly : Orderly registry (writes ++ [made])) (linked : Linked registry (versions writes)) :
    Linked registry (versions (writes ++ [made])) := by
  obtain ⟨txn, write⟩ := made
  rw [versions_append_singleton]
  rcases orderly.made_over with ⟨rfl, data, rfl⟩ | ⟨front, newest, eq, free, seen, notFirst⟩
  · rw [versions_nil, record_inserted]
    exact Linked.singleton registry rfl
  · rw [eq] at linked ⊢
    have deletes : ∀ txn', some txn = some txn' →
        (registry.ownView txn').sees registry.stamp newest.creator = true := by
      intro txn' same
      cases same
      exact seen
    cases write with
    | inserted data => exact absurd rfl (notFirst data)
    | deleted =>
      rw [record_deleted]
      exact linked.rewritten rfl deletes
    | replaced data =>
      rw [record_replaced]
      by_cases own : newest.creator = txn
      case pos =>
        rw [if_pos own]
        refine linked.rewritten rfl fun txn' deleted => ?_
        exact absurd (free.symm.trans deleted) nofun
      case neg =>
        rw [if_neg own]
        have settled := (ownView_sees_iff.1 seen).resolve_left own
        have marked : Linked registry (front ++ [{ newest with deleter := some txn }]) :=
          linked.rewritten rfl deletes
        have next := marked.followed (w := { data := data, creator := txn }) rfl
          (isSettled_mono settled (forward txn)) rfl
        rwa [List.append_assoc] at next

/-- Orderly writes leave linked versions. -/
theorem linked_versions (forward : Forward registry) (orderly : Orderly registry writes) :
    Linked registry (versions writes) := by
  induction writes using List.reverseRecOn with
  | nil =>
    refine ⟨List.isChain_nil, List.Pairwise.nil, ?_⟩
    intro v hv
    cases hv
  | append_singleton before made ih => exact linked_record forward orderly (ih orderly.init)

theorem of_mem_record {write : Write} (mem : v ∈ Write.record chain (txn, write)) :
    (∃ u ∈ chain, u.creator = v.creator ∧ u.data = v.data) ∨
      v.creator = txn ∧ write.left = some v.data := by
  rcases List.eq_nil_or_concat chain with rfl | ⟨front, newest, rfl⟩
  · cases write with
    | deleted => cases mem
    | inserted data | replaced data =>
      cases List.mem_singleton.1 mem
      exact Or.inr ⟨rfl, rfl⟩
  · rw [List.concat_eq_append] at mem ⊢
    have last : newest ∈ front ++ [newest] := List.mem_append_right _ List.mem_cons_self
    cases write with
    | inserted data =>
      rw [record_inserted] at mem
      rcases List.mem_append.1 mem with old | new
      · exact Or.inl ⟨v, old, rfl, rfl⟩
      · cases List.mem_singleton.1 new
        exact Or.inr ⟨rfl, rfl⟩
    | deleted =>
      rw [record_deleted] at mem
      rcases List.mem_append.1 mem with old | new
      · exact Or.inl ⟨v, List.mem_append_left _ old, rfl, rfl⟩
      · cases List.mem_singleton.1 new
        exact Or.inl ⟨newest, last, rfl, rfl⟩
    | replaced data =>
      rw [record_replaced] at mem
      rcases List.mem_append.1 mem with old | new
      · exact Or.inl ⟨v, List.mem_append_left _ old, rfl, rfl⟩
      · by_cases own : newest.creator = txn
        · rw [if_pos own] at new
          cases List.mem_singleton.1 new
          exact Or.inr ⟨own, rfl⟩
        · rw [if_neg own] at new
          rcases List.mem_cons.1 new with rfl | new
          · exact Or.inl ⟨newest, last, rfl, rfl⟩
          · cases List.mem_singleton.1 new
            exact Or.inr ⟨rfl, rfl⟩

/-- Every version holds what a write of its maker has left. -/
theorem exists_made (mem : v ∈ versions writes) :
    ∃ made ∈ writes, made.1 = v.creator ∧ made.2.left = some v.data := by
  induction writes using List.reverseRecOn generalizing v with
  | nil => cases mem
  | append_singleton before made ih =>
    rw [versions_append_singleton] at mem
    rcases of_mem_record mem with ⟨u, old, creator, data⟩ | ⟨own, left⟩
    · obtain ⟨earlier, hm, same, left⟩ := ih old
      exact ⟨earlier, List.mem_append_left _ hm, same.trans creator, data ▸ left⟩
    · exact ⟨made, List.mem_append_right _ List.mem_cons_self, own.symm, left⟩

namespace Keeps

theorem linked (forward : Forward registry) (keeps : Keeps registry writes chain)
    (occupied : chain ≠ []) : Linked registry chain := by
  obtain ⟨old, eq, -⟩ := keeps.kept
  have all := linked_versions forward keeps.orderly
  rw [eq] at all
  exact all.suffix occupied

theorem exists_made (keeps : Keeps registry writes chain) (mem : v ∈ chain) :
    ∃ made ∈ writes, made.1 = v.creator ∧ made.2.left = some v.data := by
  obtain ⟨old, eq, -⟩ := keeps.kept
  apply RowStore.Run.exists_made
  rw [eq]
  exact List.mem_append_right old mem

theorem known (keeps : Keeps registry writes chain) (mem : v ∈ chain) :
    v.creator < registry.txns.size := by
  obtain ⟨made, hm, same, -⟩ := keeps.exists_made mem
  exact same ▸ keeps.orderly.known made hm

end Keeps

def State.HasCommitted (state : State) (txn : TxnId) : Prop :=
  .committed txn (state.engine.registry.stamp txn) ∈ state.history

theorem Sound.hasCommitted (s : Sound config commits inserts state)
    (known : txn < state.engine.registry.txns.size)
    (stamped : state.engine.registry.stamp txn ≤ openBit) : state.HasCommitted txn := by
  rcases s.dated.known txn known with runs | withdrawn | ⟨time, committed⟩
  · exact absurd (s.timely.openBit_lt_stamp runs) (Nat.not_lt.2 stamped)
  · exact absurd (s.dated.withdrawn txn withdrawn).2.2 (Nat.not_lt.2 stamped)
  · have same := (s.dated.committed txn time committed).2.2.1
    rwa [State.HasCommitted, same]

/-- How the versions of a stored row stand: their bytes fill a row of the table; no transaction made
two of them; each but the last was deleted by the maker of the next; the makers of all but the last
have committed, one after the other; who deleted the last made it or has begun after its maker had
committed. An unfinished transaction can only have made the last version, deleted it, or deleted the
one before a last version of its own; it has noted the row. -/
structure Linkage (state : State) (row : Touch) (chain : Chain) : Prop where
  occupied : chain ≠ []
  sized : ∃ layout, state.engine.catalog.findById? row.table = some layout ∧
    ∀ v ∈ chain, v.data.length = layout.recordSize
  apart : (chain.map (·.creator)).Nodup
  handed : chain.IsChain fun v w => v.deleter = some w.creator
  committed : ∀ v ∈ chain.dropLast, state.HasCommitted v.creator
  ordered : chain.Pairwise fun v w => state.HasCommitted w.creator →
    state.engine.registry.stamp v.creator < state.engine.registry.stamp w.creator
  deleted : ∀ v ∈ chain.getLast?, ∀ txn, v.deleter = some txn → txn = v.creator ∨
    state.HasCommitted v.creator ∧
      state.engine.registry.stamp v.creator < state.engine.registry.snapshot txn
  creates : ∀ txn ∈ state.unfinished, ∀ v ∈ chain.dropLast, v.creator ≠ txn
  deletes : ∀ txn ∈ state.unfinished, ∀ older v w newer, chain = older ++ v :: w :: newer →
    v.deleter = some txn → newer = [] ∧ w.creator = txn
  noted : ∀ txn ∈ state.unfinished, (∃ v ∈ chain, v.creator = txn ∨ v.deleter = some txn) →
    row ∈ state.engine.registry.touched txn

namespace Sound

theorem sized (s : Sound config commits inserts state) (fitted : Fitted state)
    (occupied : state.engine.chain t ≠ []) :
    ∃ layout, state.engine.catalog.findById? t.table = some layout ∧
      ∀ v ∈ state.engine.chain t, v.data.length = layout.recordSize := by
  have wrote {v : Version} (mem : v ∈ state.engine.chain t) : ∃ layout,
      state.engine.catalog.findById? t.table = some layout ∧ v.data.length = layout.recordSize := by
    obtain ⟨made, hm, -, left⟩ := (s.keeps t).exists_made mem
    obtain ⟨layout, listed, id, fits⟩ := fitted _ t _ (History.mem_standing.1 hm).1
    exact ⟨layout, id ▸ s.findById?_eq listed, fits _ left⟩
  obtain ⟨v, hv⟩ := List.exists_mem_of_ne_nil _ occupied
  obtain ⟨layout, found, -⟩ := wrote hv
  refine ⟨layout, found, fun w hw => ?_⟩
  obtain ⟨layout', found', fits⟩ := wrote hw
  cases found.symm.trans found'
  exact fits

/-- A row on which an unfinished transaction has a part is one that it has noted. -/
theorem noted_of_occurs (s : Sound config commits inserts state) (runs : txn ∈ state.unfinished)
    (occurs : ∃ v ∈ state.engine.chain t, v.creator = txn ∨ v.deleter = some txn) :
    t ∈ state.engine.registry.touched txn := by
  have writes : ∃ made ∈ state.history.standing t, made.1 = txn := by
    apply Decidable.byContradiction
    intro none
    obtain ⟨v, hv, part⟩ := occurs
    have absent := (s.keeps t).absent fun made hm own => none ⟨made, hm, own⟩
    rcases part with creator | deleter
    · exact (absent v hv).1 creator
    · exact (absent v hv).2 deleter
  obtain ⟨made, hm, rfl⟩ := writes
  exact s.noted _ runs t made.2 (History.mem_standing.1 hm).1

theorem linkage (s : Sound config commits inserts state) (fitted : Fitted state)
    (occupied : state.engine.chain t ≠ []) : Linkage state t (state.engine.chain t) := by
  have linked := (s.keeps t).linked s.timely.forward occupied
  have creates : ∀ txn ∈ state.unfinished, ∀ v ∈ (state.engine.chain t).dropLast,
      v.creator ≠ txn := by
    rintro txn runs v hv rfl
    exact absurd (s.timely.openBit_lt_stamp runs) (Nat.not_lt.2 (linked.committed hv))
  constructor
  case occupied => exact occupied
  case sized => exact s.sized fitted occupied
  case apart => exact linked.nodup
  case handed => exact linked.handed
  case committed =>
    intro v hv
    exact s.hasCommitted ((s.keeps t).known (List.dropLast_subset _ hv)) (linked.committed hv)
  case ordered =>
    apply linked.ordered.imp
    intro v w before _
    exact before
  case deleted =>
    intro v hv txn deleted
    rcases ownView_sees_iff.1 (linked.newest v hv txn deleted) with own | settled
    · exact Or.inl own.symm
    · obtain ⟨stamped, before⟩ := isSettled_iff.1 settled
      have known := (s.keeps t).known (List.mem_of_getLast? hv)
      exact Or.inr ⟨s.hasCommitted known stamped, before⟩
  case creates => exact creates
  case deletes =>
    intro txn runs older v w newer eq deleted
    have handed := linked.handed
    rw [eq] at handed
    have next : v.deleter = some w.creator :=
      (List.isChain_cons_cons.1 (List.isChain_append.1 handed).2.1).1
    have own : w.creator = txn := Option.some.inj (next.symm.trans deleted)
    refine ⟨?_, own⟩
    -- Were there a later version, the maker of this one would have committed.
    rcases List.eq_nil_or_concat newer with rfl | ⟨between, last, rfl⟩
    · rfl
    · refine absurd own (creates txn runs w ?_)
      rw [eq]
      simp [List.dropLast_append_of_ne_nil, List.dropLast_cons_of_ne_nil]
  case noted => exact fun txn runs occurs => s.noted_of_occurs runs occurs

end Sound

/-- In every reachable state the versions of every stored row are linked. -/
theorem stored_versions_linked (reach : Reachable config state) {table : Nat} {row : RowId}
    (stored : (row, chain) ∈ (state.engine.heap table).rows.entries) :
    Linkage state ⟨table, row⟩ chain := by
  obtain ⟨calls, fits, -, rfl⟩ := reach
  have s := Sound.run config calls fits
  obtain ⟨same, occupied⟩ := (Table.Rows.mem_entries_iff _).1 stored
  have eq : ((initial config).run calls).engine.chain ⟨table, row⟩ = chain := same
  have linkage := s.linkage (fitted_run config calls fits) (t := ⟨table, row⟩) (eq ▸ occupied)
  rwa [eq] at linkage

def replacedOnce : List Call :=
  [.createTable ⟨"t", [⟨"a", .int, 4⟩]⟩, .newHandle, .newHandle, .insert 0 1 [1, 0, 0, 0], .commit 0,
    .replace 1 1 ⟨0, 0⟩ [2, 0, 0, 0]]

theorem stored_versions_linked_replaced :
    Linkage ((initial {}).run replacedOnce) ⟨1, ⟨0, 0⟩⟩
      [⟨[1, 0, 0, 0], 0, some 1⟩, ⟨[2, 0, 0, 0], 1, none⟩] ∧
    ((initial {}).run replacedOnce).unfinished = [1] := by
  have reach : Reachable {} ((initial {}).run replacedOnce) :=
    ⟨replacedOnce, fits_of_length (by decide), by decide, rfl⟩
  exact ⟨stored_versions_linked reach (by decide), by decide⟩

end RowStore.Run
