/- RowStore/Proofs/Run/Writes
   role: theorems
   digest: The versions that the writes on a row leave when nothing is ever forgotten. -/

import Mathlib.Data.List.Pairwise
import RowStore.Proofs.Table.Chain
import RowStore.Run.History

set_option autoImplicit false
set_option relaxedAutoImplicit false

namespace RowStore.Run

open RowStore.Table (Chain Version)
open RowStore.Table.Chain
open RowStore.Text (Bytes)
open RowStore.Transaction (Registry Timestamp TxnId View isSettled isSettled_iff isSettled_mono
  openBit)
open RowStore.Transaction.View (sees_iff)
open RowStore.Transaction.Registry (ownView_sees_iff)

variable {registry : Registry} {view : View} {writes : List (TxnId × Write)} {txn : TxnId}
  {write : Write} {data : Bytes}

/-- The versions after one more write, which is made over the newest of them. -/
def Write.record (chain : Chain) (made : TxnId × Write) : Chain :=
  match made.2, chain.getLast? with
  | .deleted, none => []
  | .deleted, some newest => chain.dropLast ++ [{ newest with deleter := some made.1 }]
  | .replaced data, some newest =>
    chain.dropLast ++
      if newest.creator = made.1 then [{ newest with data := data }]
      else [{ newest with deleter := some made.1 }, { data := data, creator := made.1 }]
  | .replaced data, none => [{ data := data, creator := made.1 }]
  | .inserted data, _ => chain ++ [{ data := data, creator := made.1 }]

def versions (writes : List (TxnId × Write)) : Chain := writes.foldl Write.record []

@[simp] theorem versions_nil : versions [] = [] := rfl

theorem versions_append_singleton (writes : List (TxnId × Write)) (made : TxnId × Write) :
    versions (writes ++ [made]) = Write.record (versions writes) made := by
  unfold versions
  rw [List.foldl_append]
  rfl

theorem record_inserted (chain : Chain) (txn : TxnId) (data : Bytes) :
    Write.record chain (txn, .inserted data) = chain ++ [{ data := data, creator := txn }] := by
  cases h : chain.getLast? <;> simp [Write.record]

theorem record_replaced (front : Chain) (newest : Version) (txn : TxnId) (data : Bytes) :
    Write.record (front ++ [newest]) (txn, .replaced data) =
      front ++
        if newest.creator = txn then [{ newest with data := data }]
        else [{ newest with deleter := some txn }, { data := data, creator := txn }] := by
  simp [Write.record]

theorem record_deleted (front : Chain) (newest : Version) (txn : TxnId) :
    Write.record (front ++ [newest]) (txn, .deleted) =
      front ++ [{ newest with deleter := some txn }] := by
  simp [Write.record]

theorem record_append (old : Chain) {chain : Chain} (made : TxnId × Write) (h : chain ≠ []) :
    Write.record (old ++ chain) made = old ++ Write.record chain made := by
  obtain ⟨txn, write⟩ := made
  rcases List.eq_nil_or_concat chain with rfl | ⟨front, newest, rfl⟩
  · exact absurd rfl h
  · rw [List.concat_eq_append]
    cases write with
    | inserted data => rw [record_inserted, record_inserted, List.append_assoc]
    | replaced data =>
      rw [← List.append_assoc, record_replaced, record_replaced, List.append_assoc]
    | deleted => rw [← List.append_assoc, record_deleted, record_deleted, List.append_assoc]

theorem exists_record_cons (v : Version) (rest : Chain) (made : TxnId × Write) :
    ∃ v' rest', Write.record (v :: rest) made = v' :: rest' ∧ v'.creator = v.creator := by
  obtain ⟨txn, write⟩ := made
  rcases List.eq_nil_or_concat rest with rfl | ⟨front, newest, rfl⟩
  · rw [← List.nil_append [v]]
    cases write with
    | inserted data => exact ⟨v, _, record_inserted _ txn data, rfl⟩
    | replaced data =>
      rw [record_replaced]
      by_cases own : v.creator = txn
      · exact ⟨{ v with data := data }, [], by simp [own], rfl⟩
      · exact ⟨{ v with deleter := some txn }, _, by rw [if_neg own]; rfl, rfl⟩
    | deleted => exact ⟨{ v with deleter := some txn }, [], record_deleted [] v txn, rfl⟩
  · rw [List.concat_eq_append, ← List.cons_append]
    cases write with
    | inserted data => exact ⟨v, _, record_inserted _ txn data, rfl⟩
    | replaced data => exact ⟨v, _, record_replaced _ newest txn data, rfl⟩
    | deleted => exact ⟨v, _, record_deleted _ newest txn, rfl⟩

/-- The earlier write left bytes and was made by a transaction that the later one sees; the later
write is no insertion. -/
structure Follows (registry : Registry) (earlier later : TxnId × Write) : Prop where
  present : earlier.2 ≠ .deleted
  notFirst : ∀ data, later.2 ≠ .inserted data
  seen : (registry.ownView later.1).sees registry.stamp earlier.1 = true

/-- The writes on a row begin with its insertion, and each follows all the ones before it. All are
made by transactions that have begun. -/
structure Orderly (registry : Registry) (writes : List (TxnId × Write)) : Prop where
  first : ∀ made ∈ writes.head?, ∃ data, made.2 = .inserted data
  later : writes.Pairwise (Follows registry)
  known : ∀ made ∈ writes, made.1 < registry.txns.size

/-- The view reads as of the snapshot of its own transaction, if it has one. -/
def Grounded (registry : Registry) (view : View) : Prop :=
  ∀ t, view.own = some t → view.snapshot = registry.snapshot t

def Forward (registry : Registry) : Prop := ∀ t, registry.snapshot t ≤ registry.stamp t

theorem grounded_ownView (registry : Registry) (txn : TxnId) :
    Grounded registry (registry.ownView txn) := by
  intro t own
  cases own
  rfl

theorem sees_trans (forward : Forward registry) (grounded : Grounded registry view)
    {middle other : TxnId} (seen : view.sees registry.stamp middle = true)
    (before : (registry.ownView middle).sees registry.stamp other = true) :
    view.sees registry.stamp other = true := by
  rcases ownView_sees_iff.1 before with rfl | settled
  · exact seen
  · rcases sees_iff.1 seen with own | late
    · rw [← grounded middle own] at settled
      exact sees_iff.2 (Or.inr settled)
    · have le : registry.snapshot middle ≤ view.snapshot :=
        Nat.le_trans (forward middle) (Nat.le_of_lt (isSettled_iff.1 late).2)
      exact sees_iff.2 (Or.inr (isSettled_mono settled le))

namespace Orderly

theorem nil (registry : Registry) : Orderly registry [] where
  first made h := by cases h
  later := List.Pairwise.nil
  known made h := by cases h

theorem singleton (data : Bytes) (known : txn < registry.txns.size) :
    Orderly registry [(txn, .inserted data)] where
  first made h := by
    cases h
    exact ⟨data, rfl⟩
  later := List.pairwise_singleton _ _
  known made h := by
    cases List.mem_singleton.1 h
    exact known

theorem init {made : TxnId × Write} (h : Orderly registry (writes ++ [made])) :
    Orderly registry writes where
  first w hw := by
    apply h.first
    rw [List.head?_append, Option.mem_def.1 hw]
    rfl
  later := (List.pairwise_append.1 h.later).1
  known w hw := h.known w (List.mem_append_left _ hw)

theorem follows {made : TxnId × Write} (h : Orderly registry (writes ++ [made])) :
    ∀ earlier ∈ writes, Follows registry earlier made := fun earlier hw =>
  (List.pairwise_append.1 h.later).2.2 earlier hw made List.mem_cons_self

theorem follows_or_follows {a b : TxnId × Write} (h : Orderly registry writes) (ha : a ∈ writes)
    (hb : b ∈ writes) (different : a ≠ b) : Follows registry a b ∨ Follows registry b a := by
  have either : writes.Pairwise fun a b => Follows registry a b ∨ Follows registry b a :=
    h.later.imp Or.inl
  have symmetric : Std.Symm fun a b => Follows registry a b ∨ Follows registry b a :=
    ⟨fun _ _ => Or.symm⟩
  exact either.forall ha hb different

theorem append_singleton {made : TxnId × Write} (h : Orderly registry writes)
    (occupied : writes ≠ []) (next : ∀ earlier ∈ writes, Follows registry earlier made)
    (known : made.1 < registry.txns.size) : Orderly registry (writes ++ [made]) where
  first w hw := by
    obtain ⟨head, rest, rfl⟩ := List.exists_cons_of_ne_nil occupied
    exact h.first w hw
  later := by
    refine List.pairwise_append.2 ⟨h.later, List.pairwise_singleton _ _, fun earlier hw w hw' => ?_⟩
    cases List.mem_singleton.1 hw'
    exact next earlier hw
  known w hw := by
    rcases List.mem_append.1 hw with hw | hw
    · exact h.known w hw
    · cases List.mem_singleton.1 hw
      exact known

end Orderly

/-- The newest version tells the last write. It is the version written, free of any deletion, unless
that write is a deletion; then it is one that the deleting transaction sees. -/
theorem exists_newest (h : Orderly registry writes) (last : writes.getLast? = some (txn, write)) :
    ∃ front newest, versions writes = front ++ [newest] ∧
      (registry.ownView txn).sees registry.stamp newest.creator = true ∧
      (newest.creator = txn ∧ write.left = some newest.data ∧ newest.deleter = none ∨
        write = .deleted ∧ newest.deleter = some txn) := by
  have own : (registry.ownView txn).sees registry.stamp txn = true := View.sees_own rfl
  -- From the newest write: what it was made over is told by the write before it.
  induction writes using List.reverseRecOn generalizing txn write with
  | nil => cases last
  | append_singleton before made ih =>
    cases (List.getLast?_concat (l := before) (a := made)).symm.trans last
    rw [versions_append_singleton]
    rcases List.eq_nil_or_concat before with rfl | ⟨earlier, previous, rfl⟩
    · obtain ⟨data, rfl⟩ := h.first (txn, write) rfl
      exact ⟨[], { data := data, creator := txn }, record_inserted [] txn data, own,
        Or.inl ⟨rfl, rfl, rfl⟩⟩
    · rw [List.concat_eq_append] at h ih ⊢
      have next := h.follows previous (List.mem_append_right _ List.mem_cons_self)
      obtain ⟨front, newest, eq, -, kept⟩ :=
        ih h.init List.getLast?_concat (View.sees_own rfl)
      obtain ⟨made', -, free⟩ := kept.resolve_right fun gone => next.present gone.1
      rw [eq]
      cases write with
      | inserted data => exact absurd rfl (next.notFirst data)
      | replaced data =>
        rw [record_replaced]
        by_cases mine : newest.creator = txn
        · exact ⟨front, { newest with data := data }, by rw [if_pos mine], mine ▸ own,
            Or.inl ⟨mine, rfl, free⟩⟩
        · refine ⟨front ++ [{ newest with deleter := some txn }], { data := data, creator := txn },
            ?_, own, Or.inl ⟨rfl, rfl, rfl⟩⟩
          rw [if_neg mine, List.append_assoc]
          rfl
      | deleted =>
        exact ⟨front, { newest with deleter := some txn }, record_deleted front newest txn,
          made' ▸ next.seen, Or.inr ⟨rfl, rfl⟩⟩

theorem Orderly.made_over (h : Orderly registry (writes ++ [(txn, write)])) :
    (writes = [] ∧ ∃ data, write = .inserted data) ∨
      ∃ front newest, versions writes = front ++ [newest] ∧ newest.deleter = none ∧
        (registry.ownView txn).sees registry.stamp newest.creator = true ∧
        ∀ data, write ≠ .inserted data := by
  rcases List.eq_nil_or_concat writes with rfl | ⟨earlier, previous, rfl⟩
  · exact Or.inl ⟨rfl, h.first (txn, write) rfl⟩
  · right
    rw [List.concat_eq_append] at h ⊢
    have next := h.follows previous (List.mem_append_right _ List.mem_cons_self)
    obtain ⟨front, newest, eq, -, kept⟩ := exists_newest h.init List.getLast?_concat
    obtain ⟨made, -, free⟩ := kept.resolve_right fun gone => next.present gone.1
    exact ⟨front, newest, eq, free, made ▸ next.seen, next.notFirst⟩

theorem replay_append_singleton (before : List Write) (write : Write) :
    Write.replay (before ++ [write]) = write.left := by
  unfold Write.replay
  rw [List.foldl_append]
  rfl

theorem read_record_of_seen {front : Chain} {newest : Version}
    (free : newest.deleter = none) (notFirst : ∀ data, write ≠ .inserted data)
    (through : view.sees registry.stamp newest.creator = true)
    (seen : view.sees registry.stamp txn = true) :
    (Write.record (front ++ [newest]) (txn, write)).read registry.stamp view = write.left := by
  cases write with
  | inserted data => exact absurd rfl (notFirst data)
  | replaced data =>
    rw [record_replaced]
    by_cases own : newest.creator = txn
    · rw [if_pos own, read_append_singleton, if_pos through, free]
      rfl
    · rw [if_neg own, ← List.singleton_append, ← List.append_assoc, read_append_singleton,
        if_pos seen]
      rfl
  | deleted =>
    rw [record_deleted, read_append_singleton, if_pos through]
    simp [seen, Write.left]

private theorem read_record_of_unseen {front : Chain} {newest : Version}
    (free : newest.deleter = none) (notFirst : ∀ data, write ≠ .inserted data)
    (unseen : ¬ view.sees registry.stamp txn = true) :
    (Write.record (front ++ [newest]) (txn, write)).read registry.stamp view =
      Chain.read registry.stamp view (front ++ [newest]) := by
  have marked : Chain.read registry.stamp view (front ++ [{ newest with deleter := some txn }]) =
      Chain.read registry.stamp view (front ++ [newest]) := by
    rw [read_append_singleton, read_append_singleton, free]
    simp [unseen]
  cases write with
  | inserted data => exact absurd rfl (notFirst data)
  | replaced data =>
    rw [record_replaced]
    by_cases own : newest.creator = txn
    · rw [if_pos own, read_append_singleton_of_unseen (own ▸ unseen),
        read_append_singleton_of_unseen (own ▸ unseen)]
    · rw [if_neg own, ← List.singleton_append, ← List.append_assoc,
        read_append_singleton_of_unseen unseen, marked]
  | deleted => rw [record_deleted, marked]

/-- A view reads of the versions what the last write that it sees has left. -/
theorem read_versions (forward : Forward registry) (grounded : Grounded registry view)
    (h : Orderly registry writes) :
    (versions writes).read registry.stamp view =
      Write.replay ((writes.filter fun made => view.sees registry.stamp made.1).map (·.2)) := by
  induction writes using List.reverseRecOn with
  | nil => rfl
  | append_singleton before made ih =>
    obtain ⟨txn, write⟩ := made
    rw [versions_append_singleton, List.filter_append, List.map_append]
    by_cases seen : view.sees registry.stamp txn = true
    · rw [List.filter_cons_of_pos (by exact seen), List.filter_nil, List.map_singleton,
        replay_append_singleton]
      rcases h.made_over with ⟨rfl, data, rfl⟩ | ⟨front, newest, eq, free, sees, notFirst⟩
      · rw [record_inserted, versions_nil, read_append_singleton_of_seen seen]
        rfl
      · rw [eq]
        -- The maker of the newest version is seen by who wrote over it, so by the view too.
        exact read_record_of_seen free notFirst (sees_trans forward grounded seen sees) seen
    · rw [List.filter_cons_of_neg (by exact seen), List.filter_nil, List.map_nil, List.append_nil,
        ← ih h.init]
      rcases h.made_over with ⟨rfl, data, rfl⟩ | ⟨front, newest, eq, free, -, notFirst⟩
      · rw [record_inserted, read_append_singleton_of_unseen seen]
      · rw [eq]
        exact read_record_of_unseen free notFirst seen

/-- While a transaction is open, only its own writes follow one of its writes. -/
theorem Follows.own_of_open {earlier later : TxnId × Write} (h : Follows registry earlier later)
    (opened : openBit < registry.stamp earlier.1) : earlier.1 = later.1 := by
  rcases ownView_sees_iff.1 h.seen with own | settled
  · exact own
  · exact absurd (isSettled_iff.1 settled).1 (Nat.not_le_of_lt opened)

theorem absent_record {chain : Chain} {made : TxnId × Write} (h : Absent txn chain)
    (apart : made.1 ≠ txn) : Absent txn (Write.record chain made) := by
  obtain ⟨maker, write⟩ := made
  have fresh : ∀ data, Absent txn [{ data := data, creator := maker }] := fun data =>
    absent_singleton.2 ⟨apart, by simp⟩
  rcases List.eq_nil_or_concat chain with rfl | ⟨front, newest, rfl⟩
  · cases write with
    | inserted data => exact fresh data
    | replaced data => exact fresh data
    | deleted => exact h
  · rw [List.concat_eq_append] at h ⊢
    obtain ⟨older, last⟩ := absent_append.1 h
    obtain ⟨creator, deleter⟩ := absent_singleton.1 last
    have marked : Absent txn [{ newest with deleter := some maker }] :=
      absent_singleton.2 ⟨creator, by simpa using apart⟩
    cases write with
    | inserted data =>
      rw [record_inserted]
      exact absent_append.2 ⟨h, fresh data⟩
    | replaced data =>
      rw [record_replaced]
      by_cases own : newest.creator = maker
      · rw [if_pos own]
        exact absent_append.2 ⟨older, absent_singleton.2 ⟨creator, deleter⟩⟩
      · rw [if_neg own, ← List.singleton_append]
        exact absent_append.2 ⟨older, absent_append.2 ⟨marked, fresh data⟩⟩
    | deleted =>
      rw [record_deleted]
      exact absent_append.2 ⟨older, marked⟩

theorem absent_versions (h : ∀ made ∈ writes, made.1 ≠ txn) : Absent txn (versions writes) := by
  induction writes using List.reverseRecOn with
  | nil =>
    intro v hv
    cases hv
  | append_singleton before made ih =>
    rw [versions_append_singleton]
    exact absent_record (ih fun w hw => h w (List.mem_append_left _ hw))
      (h made (List.mem_append_right _ List.mem_cons_self))

theorem known_of_not_absent (h : Orderly registry writes) (occurs : ¬ Absent txn (versions writes)) :
    txn < registry.txns.size := by
  apply Decidable.byContradiction
  intro unknown
  refine occurs (absent_versions fun made hw own => unknown ?_)
  exact own ▸ h.known made hw

theorem withdraw_record {front : Chain} {newest : Version} (free : newest.deleter = none)
    (notFirst : ∀ data, write ≠ .inserted data) :
    (Write.record (front ++ [newest]) (txn, write)).withdraw txn =
      Chain.withdraw txn (front ++ [newest]) := by
  have marked : Chain.withdraw txn [{ newest with deleter := some txn }] =
      Chain.withdraw txn [newest] := by
    by_cases own : newest.creator = txn
    · rw [withdraw_cons_own [] own, withdraw_cons_own [] (by exact own)]
    · have untouched : unmark txn newest = newest := unmark_of_ne (by simp [free])
      rw [withdraw_cons_of_ne [] own, withdraw_cons_of_ne [] (by exact own), unmark_marked free,
        untouched]
  cases write with
  | inserted data => exact absurd rfl (notFirst data)
  | replaced data =>
    rw [record_replaced, withdraw_append, withdraw_append]
    by_cases own : newest.creator = txn
    · rw [if_pos own, withdraw_cons_own [] own, withdraw_cons_own [] (by exact own)]
    · rw [if_neg own, ← List.singleton_append, withdraw_append, marked, withdraw_own_singleton,
        List.append_nil]
  | deleted => rw [record_deleted, withdraw_append, withdraw_append, marked]

private theorem apart_of_open (h : Orderly registry (writes ++ [(txn, write)])) {other : TxnId}
    (opened : openBit < registry.stamp other) (apart : txn ≠ other) :
    ∀ made ∈ writes ++ [(txn, write)], made.1 ≠ other := by
  intro made hw own
  rcases List.mem_append.1 hw with before | last
  · have same := (h.follows made before).own_of_open (own ▸ opened)
    exact apart (same.symm.trans own)
  · cases List.mem_singleton.1 last
    exact apart own

/-- Without the writes of an open transaction the versions are those with them, withdrawn. -/
theorem versions_filter_ne (h : Orderly registry writes) (opened : openBit < registry.stamp txn) :
    versions (writes.filter fun made => made.1 != txn) = (versions writes).withdraw txn := by
  induction writes using List.reverseRecOn with
  | nil => rfl
  | append_singleton before made ih =>
    obtain ⟨maker, write⟩ := made
    by_cases own : maker = txn
    · rw [List.filter_append, List.filter_cons_of_neg (by simp [own]), List.filter_nil,
        List.append_nil, ih h.init, versions_append_singleton, own]
      rcases h.made_over with ⟨rfl, data, rfl⟩ | ⟨front, newest, eq, free, -, notFirst⟩
      · rw [record_inserted, withdraw_append, withdraw_own_singleton, List.append_nil]
      · rw [eq, withdraw_record free notFirst]
    · -- Only its own writes follow those of an open transaction, so it has made none at all.
      have others := apart_of_open h opened own
      rw [List.filter_eq_self.2 fun made hw => by simpa using others made hw,
        withdraw_of_absent (absent_versions others)]

theorem Orderly.alone_of_first {first : TxnId × Write} (h : Orderly registry (first :: writes))
    (own : first.1 = txn) (opened : openBit < registry.stamp txn) :
    (first :: writes).filter (fun made => made.1 != txn) = [] := by
  apply List.filter_eq_nil_iff.2
  intro made hm
  rcases List.mem_cons.1 hm with rfl | later
  · simp [own]
  · have follows := List.rel_of_pairwise_cons h.later later
    simp [← follows.own_of_open (own ▸ opened), own]

theorem Orderly.filter_ne (h : Orderly registry writes) (opened : openBit < registry.stamp txn) :
    Orderly registry (writes.filter fun made => made.1 != txn) where
  first made hw := by
    cases writes with
    | nil => cases hw
    | cons head rest =>
      by_cases own : head.1 = txn
      · rw [h.alone_of_first own opened] at hw
        cases hw
      · rw [List.filter_cons_of_pos (by simpa using own)] at hw
        exact h.first made hw
  later := h.later.filter _
  known made hw := h.known made (List.mem_filter.1 hw).1

theorem newest_of_open (h : Orderly registry writes) (opened : openBit < registry.stamp txn) :
    ∀ v ∈ (versions writes).dropLast, v.creator ≠ txn := by
  induction writes using List.reverseRecOn with
  | nil =>
    intro v hv
    cases hv
  | append_singleton before made ih =>
    obtain ⟨maker, write⟩ := made
    by_cases own : maker = txn
    · rw [versions_append_singleton]
      rcases h.made_over with ⟨rfl, data, rfl⟩ | ⟨front, newest, eq, -, -, notFirst⟩
      · intro v hv
        cases hv
      · have older : ∀ v ∈ front, v.creator ≠ txn := by
          intro v hv
          apply ih h.init v
          rwa [eq, List.dropLast_concat]
        rw [eq]
        cases write with
        | inserted data => exact absurd rfl (notFirst data)
        | replaced data =>
          rw [record_replaced]
          by_cases same : newest.creator = maker
          · rwa [if_pos same, List.dropLast_concat]
          · rw [if_neg same, ← List.singleton_append, ← List.append_assoc, List.dropLast_concat]
            refine List.forall_mem_append.2 ⟨older, List.forall_mem_singleton.2 ?_⟩
            rwa [← own]
        | deleted => rwa [record_deleted, List.dropLast_concat]
    · intro v hv
      have others := absent_versions (apart_of_open h opened own)
      exact (others v (List.dropLast_subset _ hv)).1

end RowStore.Run
