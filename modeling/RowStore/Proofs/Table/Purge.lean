/- RowStore/Proofs/Table/Purge
   role: theorems
   digest: What a purge leaves of a chain, and that there is nothing more to purge. -/

import RowStore.Proofs.Table.Chain

/-!
A purge keeps the last version whose creator is settled and everything newer, or nothing if that
version is alone and its deletion is settled too. So of the versions left only the oldest can have a
settled creator, and purging again as of the same or an earlier horizon leaves them as they are.
-/

set_option autoImplicit false
set_option relaxedAutoImplicit false

namespace RowStore.Table.Chain

open RowStore.Transaction (TxnId Timestamp View isSettled isSettled_mono)

variable {stamps : TxnId → Timestamp} {horizon earlier : Timestamp}
  {settled settled' : TxnId → Bool} {chain : Chain}

/-- Nothing of the chain may be forgotten: no version but the oldest has a settled creator, and the
row is not gone. -/
structure Purged (settled : TxnId → Bool) (chain : Chain) : Prop where
  unsettled : ∀ v ∈ chain.tail, settled v.creator = false
  present : isGone settled chain = false

theorem isGone_mono (le : ∀ t, settled' t = true → settled t = true)
    (gone : isGone settled' chain = true) : isGone settled chain = true := by
  obtain ⟨v, d, rfl, made, named, deleted⟩ := isGone_spec gone
  simp [isGone, le _ made, named, le _ deleted]

theorem Purged.anti (purged : Purged settled chain)
    (le : ∀ t, settled' t = true → settled t = true) : Purged settled' chain where
  unsettled v hv := by
    have unsettled := purged.unsettled v hv
    rw [← Bool.not_eq_true] at unsettled ⊢
    exact mt (le v.creator) unsettled
  present := by
    have present := purged.present
    rw [← Bool.not_eq_true] at present ⊢
    exact mt (isGone_mono le) present

theorem superseded_eq_zero (unsettled : ∀ v ∈ chain.tail, settled v.creator = false) :
    superseded settled chain = 0 := by
  cases chain with
  | nil => rfl
  | cons v rest =>
    refine if_neg ?_
    simpa using unsettled

theorem unsettled_drop_superseded (settled : TxnId → Bool) (chain : Chain) :
    ∀ v ∈ (chain.drop (superseded settled chain)).tail, settled v.creator = false := by
  induction chain with
  | nil => exact List.forall_mem_nil _
  | cons u rest ih =>
    by_cases later : rest.any (settled ·.creator) = true
    · rw [superseded, if_pos later]
      exact ih
    · rw [superseded, if_neg later]
      simpa using later

theorem purge_eq (stamps : TxnId → Timestamp) (horizon : Timestamp) (chain : Chain) :
    chain.purge stamps horizon =
      let kept := chain.drop (superseded (fun t => isSettled horizon (stamps t)) chain)
      if isGone (fun t => isSettled horizon (stamps t)) kept then [] else kept := by
  simp only [purge, forgettable]
  split
  · exact List.drop_length
  · rfl

theorem purged_purge (stamps : TxnId → Timestamp) (horizon : Timestamp) (chain : Chain) :
    Purged (fun t => isSettled horizon (stamps t)) (chain.purge stamps horizon) := by
  rw [purge_eq]
  dsimp only
  split
  case isTrue => exact ⟨List.forall_mem_nil _, rfl⟩
  case isFalse present => exact ⟨unsettled_drop_superseded _ chain, by simpa using present⟩

theorem purge_of_purged (purged : Purged (fun t => isSettled horizon (stamps t)) chain) :
    chain.purge stamps horizon = chain := by
  rw [purge_eq, superseded_eq_zero purged.unsettled]
  dsimp only
  rw [List.drop_zero, purged.present]
  rfl

theorem purge_purge (le : earlier ≤ horizon) (chain : Chain) :
    (chain.purge stamps horizon).purge stamps earlier = chain.purge stamps horizon :=
  purge_of_purged ((purged_purge stamps horizon chain).anti fun _ settled =>
    isSettled_mono settled le)

theorem drop_superseded_append (settled : TxnId → Bool) (old rest : Chain) {v : Version}
    (made : settled v.creator = true) :
    (old ++ v :: rest).drop (superseded settled (old ++ v :: rest)) =
      (v :: rest).drop (superseded settled (v :: rest)) := by
  induction old with
  | nil => rfl
  | cons u old ih =>
    have later : (old ++ v :: rest).any (settled ·.creator) = true :=
      List.any_eq_true.2 ⟨v, List.mem_append_right old List.mem_cons_self, made⟩
    rw [List.cons_append, superseded, if_pos later, List.drop_succ_cons]
    exact ih

theorem purge_append_of_settled (old rest : Chain) {v : Version}
    (made : isSettled horizon (stamps v.creator) = true) :
    Chain.purge stamps horizon (old ++ v :: rest) = Chain.purge stamps horizon (v :: rest) := by
  rw [purge_eq, purge_eq]
  have kept := drop_superseded_append (fun t => isSettled horizon (stamps t)) old rest made
  rw [kept]

theorem purge_of_isGone (gone : isGone (fun t => isSettled horizon (stamps t)) chain = true) :
    chain.purge stamps horizon = [] := by
  obtain ⟨v, d, rfl, -⟩ := isGone_spec gone
  rw [purge_eq]
  exact if_pos gone

/-- What is superseded as of an earlier horizon makes no difference to a purge. -/
theorem purge_drop_superseded (le : earlier ≤ horizon) (chain : Chain) :
    Chain.purge stamps horizon
        (chain.drop (superseded (fun t => isSettled earlier (stamps t)) chain)) =
      chain.purge stamps horizon := by
  rcases superseded_spec (fun t => isSettled earlier (stamps t)) chain with none | found
  · rw [none, List.drop_zero]
  · obtain ⟨v, rest, begins, made⟩ := found
    conv_rhs =>
      rw [← List.take_append_drop (superseded (fun t => isSettled earlier (stamps t)) chain) chain]
    rw [begins]
    exact (purge_append_of_settled _ rest (isSettled_mono made le)).symm

theorem purge_purge_of_le (le : earlier ≤ horizon) (chain : Chain) :
    (chain.purge stamps earlier).purge stamps horizon = chain.purge stamps horizon := by
  rw [← purge_drop_superseded le chain, purge_eq stamps earlier]
  dsimp only
  split
  case isTrue gone =>
    exact (purge_of_isGone (isGone_mono (fun _ past => isSettled_mono past le) gone)).symm
  case isFalse => rfl

/-- Two purges in either order do what one does as of the later of their horizons. -/
theorem purge_purge_eq_max (stamps : TxnId → Timestamp) (first second : Timestamp) (chain : Chain) :
    (chain.purge stamps first).purge stamps second = chain.purge stamps (max first second) := by
  rcases Nat.le_total first second with le | le
  · rw [purge_purge_of_le le, Nat.max_eq_right le]
  · rw [purge_purge le, Nat.max_eq_left le]

theorem superseded_le_length (settled : TxnId → Bool) (chain : Chain) :
    superseded settled chain ≤ chain.length := by
  induction chain with
  | nil => exact Nat.le_refl 0
  | cons u rest ih =>
    rw [superseded, List.length_cons]
    split <;> omega

theorem forgettable_add_length (stamps : TxnId → Timestamp) (horizon : Timestamp) (chain : Chain) :
    chain.forgettable stamps horizon + (chain.purge stamps horizon).length = chain.length := by
  have within : chain.forgettable stamps horizon ≤ chain.length := by
    simp only [forgettable]
    split
    · exact Nat.le_refl _
    · exact superseded_le_length _ chain
  rw [purge, List.length_drop]
  omega

theorem forgettable_add_forgettable (stamps : TxnId → Timestamp) (first second : Timestamp)
    (chain : Chain) :
    chain.forgettable stamps first + (chain.purge stamps first).forgettable stamps second =
      chain.forgettable stamps (max first second) := by
  have before := forgettable_add_length stamps first chain
  have after := forgettable_add_length stamps second (chain.purge stamps first)
  have once := forgettable_add_length stamps (max first second) chain
  rw [purge_purge_eq_max] at after
  omega

/-- A view of the horizon or later reads the same before and after a purge. -/
theorem read_purge (stamps : TxnId → Timestamp) {view : View} (le : horizon ≤ view.snapshot)
    (chain : Chain) : (chain.purge stamps horizon).read stamps view = chain.read stamps view := by
  obtain ⟨old, parts, obsolete⟩ := obsolete_purge stamps horizon (.nil _ chain)
  have sees (t : TxnId) (past : isSettled horizon (stamps t) = true) :
      view.sees stamps t = true := by
    unfold View.sees
    rw [isSettled_mono past le, Bool.or_true]
  have same := read_append_of_obsolete obsolete sees
  rw [← parts] at same
  exact same.symm

theorem Purged.oldest {front back : Chain} {v : Version}
    (purged : Purged settled (front ++ v :: back)) (made : settled v.creator = true) :
    front = [] ∧ ∀ w ∈ back, settled w.creator = false := by
  cases front with
  | nil => exact ⟨rfl, purged.unsettled⟩
  | cons u front =>
    have later := purged.unsettled v (by simp)
    rw [made] at later
    cases later

theorem Purged.countP_le_one (purged : Purged settled chain) :
    chain.countP (fun v => settled v.creator) ≤ 1 := by
  cases chain with
  | nil => exact Nat.zero_le 1
  | cons v rest =>
    have none : rest.countP (fun v => settled v.creator) = 0 := by
      apply List.countP_eq_zero.2
      intro w hw
      rw [purged.unsettled w hw]
      exact Bool.false_ne_true
    rw [List.countP_cons, none]
    split <;> decide

theorem Purged.tail_eq_nil (purged : Purged settled chain)
    (made : ∀ v ∈ chain, settled v.creator = true) : chain.tail = [] := by
  apply List.eq_nil_iff_forall_not_mem.2
  intro v hv
  have unsettled := purged.unsettled v hv
  rw [made v (List.mem_of_mem_tail hv)] at unsettled
  cases unsettled

end RowStore.Table.Chain
