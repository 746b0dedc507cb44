/- RowStore/Proofs/Run/Keeping
   role: theorems
   digest: A stored chain holds the versions of the writes on its row, except forgotten ones. -/

import RowStore.Proofs.Run.Writes
import RowStore.Proofs.Transaction.Timeline

/-!
The chain of a row ends like the versions of all writes on the row that were not withdrawn. What it
lacks makes no difference to views of the horizon or later. This holds after every write, purge and
withdrawal, and it decides what views read and whether a transaction may write.
-/

set_option autoImplicit false
set_option relaxedAutoImplicit false

namespace RowStore.Run

open RowStore.Row (RowId)
open RowStore.Table (Chain Version)
open RowStore.Table.Chain
open RowStore.Text (Bytes)
open RowStore.Transaction (Registry Timestamp TxnId View isSettled isSettled_iff isSettled_mono
  openBit)
open RowStore.Transaction.View (sees_iff sees_of_isSettled)
open RowStore.Transaction.Registry (Extends ownView_sees_iff)

variable {registry : Registry} {view : View} {writes : List (TxnId × Write)} {txn : TxnId}
  {write : Write} {data : Bytes} {chain chain' : Chain} {row : RowId}

def settledIn (registry : Registry) (txn : TxnId) : Bool :=
  isSettled registry.horizon (registry.stamp txn)

/-- The chain holds the versions of the writes, except for old ones that make no difference. -/
structure Keeps (registry : Registry) (writes : List (TxnId × Write)) (chain : Chain) : Prop where
  orderly : Orderly registry writes
  kept : ∃ old, versions writes = old ++ chain ∧ Obsolete (settledIn registry) old chain

def Writable (registry : Registry) (txn : TxnId) (chain : Chain) : Prop :=
  ∃ front newest, chain = front ++ [newest] ∧
    (registry.ownView txn).sees registry.stamp newest.creator = true ∧ newest.deleter = none

theorem replace_eq_ok_iff :
    chain.replace registry.stamp (registry.ownView txn) txn row data = .ok chain' ↔
      Writable registry txn chain ∧ chain' = Write.record chain (txn, .replaced data) := by
  rw [replace_eq_ok]
  constructor
  · rintro ⟨front, newest, rfl, seen, free, rfl⟩
    refine ⟨⟨front, newest, rfl, seen, free⟩, ?_⟩
    simp [record_replaced, View.isOwn, eq_comm]
  · rintro ⟨⟨front, newest, rfl, seen, free⟩, rfl⟩
    refine ⟨front, newest, rfl, seen, free, ?_⟩
    simp [record_replaced, View.isOwn, eq_comm]

theorem delete_eq_ok_iff :
    chain.delete registry.stamp (registry.ownView txn) txn row = .ok chain' ↔
      Writable registry txn chain ∧ chain' = Write.record chain (txn, .deleted) := by
  rw [delete_eq_ok]
  constructor
  · rintro ⟨front, newest, rfl, seen, free, rfl⟩
    exact ⟨⟨front, newest, rfl, seen, free⟩, (record_deleted front newest txn).symm⟩
  · rintro ⟨⟨front, newest, rfl, seen, free⟩, rfl⟩
    exact ⟨front, newest, rfl, seen, free, record_deleted front newest txn⟩

theorem Follows.extend {new : Registry} {earlier later : TxnId × Write}
    (h : Follows registry earlier later) (ext : registry.Extends new)
    (knownEarlier : earlier.1 < registry.txns.size) (knownLater : later.1 < registry.txns.size) :
    Follows new earlier later where
  present := h.present
  notFirst := h.notFirst
  seen := by
    rw [ownView_sees_iff]
    rcases ownView_sees_iff.1 h.seen with own | settled
    · exact Or.inl own
    · right
      have committed := (isSettled_iff.1 settled).1
      rw [ext.snapshot _ knownLater, ext.stamp _ knownEarlier committed]
      exact settled

theorem Orderly.extend {new : Registry} (h : Orderly registry writes)
    (ext : registry.Extends new) : Orderly new writes where
  first := h.first
  later := by
    apply h.later.imp_of_mem
    intro earlier later he hl follows
    exact follows.extend ext (h.known earlier he) (h.known later hl)
  known made hw := Nat.lt_of_lt_of_le (h.known made hw) ext.size

theorem settledIn_extend {new : Registry} (ext : registry.Extends new)
    (known : txn < registry.txns.size) (h : settledIn registry txn = true) :
    settledIn new txn = true := by
  unfold settledIn
  rw [ext.stamp txn known (isSettled_iff.1 h).1]
  exact isSettled_mono h ext.horizon

namespace Keeps

theorem extend {new : Registry} (h : Keeps registry writes chain) (ext : registry.Extends new) :
    Keeps new writes chain where
  orderly := h.orderly.extend ext
  kept := by
    obtain ⟨old, eq, obsolete⟩ := h.kept
    refine ⟨old, eq, obsolete.mono ?_⟩
    intro t occurs
    rw [← eq] at occurs
    exact settledIn_extend ext (known_of_not_absent h.orderly occurs)

theorem nil (registry : Registry) : Keeps registry [] [] where
  orderly := Orderly.nil registry
  kept := ⟨[], rfl, Obsolete.nil _ []⟩

theorem eq_nil (h : Keeps registry [] chain) : chain = [] := by
  obtain ⟨old, eq, -⟩ := h.kept
  exact (List.append_eq_nil_iff.1 eq.symm).2

theorem inserted (data : Bytes) (known : txn < registry.txns.size) :
    Keeps registry [(txn, .inserted data)] [{ data := data, creator := txn }] where
  orderly := Orderly.singleton data known
  kept := ⟨[], record_inserted [] txn data, Obsolete.nil _ _⟩

theorem newest {front : Chain} {last : Version} (h : Keeps registry writes (front ++ [last])) :
    ∃ older, versions writes = older ++ [last] := by
  obtain ⟨old, eq, -⟩ := h.kept
  exact ⟨old ++ front, by rw [eq, List.append_assoc]⟩

theorem last_of_free {front : Chain} {last : Version} (h : Keeps registry writes (front ++ [last]))
    (free : last.deleter = none) :
    ∃ before, writes.getLast? = some (last.creator, before) ∧ before.left = some last.data := by
  obtain ⟨older, eq⟩ := h.newest
  rcases List.eq_nil_or_concat writes with rfl | ⟨earlier, ⟨maker, before⟩, rfl⟩
  · simp at eq
  · rw [List.concat_eq_append] at h eq ⊢
    obtain ⟨front', last', eq', -, kept⟩ := exists_newest h.orderly List.getLast?_concat
    obtain ⟨-, same⟩ := List.append_inj' (eq.symm.trans eq') rfl
    cases List.cons.inj same |>.1
    rcases kept with ⟨rfl, left, -⟩ | ⟨-, deleted⟩
    · exact ⟨before, List.getLast?_concat, left⟩
    · rw [free] at deleted
      cases deleted

private theorem follows_all (forward : Forward registry) (h : Keeps registry writes chain)
    (writable : Writable registry txn chain) (notFirst : ∀ data, write ≠ .inserted data) :
    ∀ earlier ∈ writes, Follows registry earlier (txn, write) := by
  obtain ⟨front, last, rfl, seen, free⟩ := writable
  obtain ⟨before, final, left⟩ := h.last_of_free free
  obtain ⟨init, rfl⟩ := List.getLast?_eq_some_iff.1 final
  intro earlier he
  rcases List.mem_append.1 he with he | he
  · have follows := h.orderly.follows earlier he
    exact ⟨follows.present, notFirst,
      sees_trans forward (grounded_ownView registry txn) seen follows.seen⟩
  · cases List.mem_singleton.1 he
    refine ⟨?_, notFirst, seen⟩
    rintro rfl
    cases left

theorem recorded (forward : Forward registry) (h : Keeps registry writes chain)
    (writable : Writable registry txn chain) (notFirst : ∀ data, write ≠ .inserted data)
    (known : txn < registry.txns.size) :
    Keeps registry (writes ++ [(txn, write)]) (Write.record chain (txn, write)) where
  orderly := by
    refine h.orderly.append_singleton ?_ (follows_all forward h writable notFirst) known
    obtain ⟨front, last, rfl, -, free⟩ := writable
    obtain ⟨before, final, -⟩ := h.last_of_free free
    rintro rfl
    cases final
  kept := by
    obtain ⟨old, eq, obsolete⟩ := h.kept
    have occupied : chain ≠ [] := by
      obtain ⟨front, last, rfl, -⟩ := writable
      simp
    refine ⟨old, by rw [versions_append_singleton, eq, record_append old _ occupied], ?_⟩
    -- The oldest version kept has the same creator as before.
    obtain ⟨v, rest, rfl⟩ := List.exists_cons_of_ne_nil occupied
    obtain ⟨v', rest', eq', creator⟩ := exists_record_cons v rest (txn, write)
    rw [eq']
    rcases obsolete with none | made
    · exact Or.inl none
    · right
      rwa [creator]

theorem exists_newest_of_present (h : Keeps registry writes chain) {maker : TxnId}
    (last : writes.getLast? = some (maker, write)) (present : write ≠ .deleted) :
    ∃ front newest, chain = front ++ [newest] ∧ newest.creator = maker ∧ newest.deleter = none := by
  obtain ⟨old, eq, obsolete⟩ := h.kept
  obtain ⟨front', newest, eq', -, kept⟩ := exists_newest h.orderly last
  obtain ⟨made, -, free⟩ := kept.resolve_right fun gone => present gone.1
  rcases List.eq_nil_or_concat chain with rfl | ⟨front, newest', rfl⟩
  · -- The newest of obsolete versions would be deleted.
    rw [List.append_nil, eq'] at eq
    obtain ⟨-, d, named, -⟩ := obsolete newest (eq ▸ List.getLast?_concat)
    rw [free] at named
    cases named
  · rw [List.concat_eq_append, eq', ← List.append_assoc] at eq
    obtain ⟨-, same⟩ := List.append_inj' eq rfl
    cases List.cons.inj same |>.1
    exact ⟨front, newest, List.concat_eq_append, made, free⟩

theorem absent (h : Keeps registry writes chain) (others : ∀ made ∈ writes, made.1 ≠ txn) :
    Absent txn chain := by
  obtain ⟨old, eq, -⟩ := h.kept
  exact (absent_append.1 (eq ▸ absent_versions others)).2

theorem newest_of_open (h : Keeps registry writes chain) (opened : openBit < registry.stamp txn) :
    ∀ v ∈ chain.dropLast, v.creator ≠ txn := by
  obtain ⟨old, eq, -⟩ := h.kept
  have all := RowStore.Run.newest_of_open h.orderly opened
  intro v hv
  have occupied : chain ≠ [] := by
    rintro rfl
    cases hv
  rw [eq, List.dropLast_append_of_ne_nil occupied] at all
  exact all v (List.mem_append_right old hv)

theorem purge (h : Keeps registry writes chain) :
    Keeps registry writes (chain.purge registry.stamp registry.horizon) where
  orderly := h.orderly
  kept := by
    obtain ⟨old, eq, obsolete⟩ := h.kept
    obtain ⟨old', eq', obsolete'⟩ := obsolete_purge registry.stamp registry.horizon obsolete
    exact ⟨old', eq.trans eq', obsolete'⟩

theorem withdraw (h : Keeps registry writes chain) (opened : openBit < registry.stamp txn) :
    Keeps registry (writes.filter fun made => made.1 != txn) (chain.withdraw txn) where
  orderly := h.orderly.filter_ne opened
  kept := by
    obtain ⟨old, eq, obsolete⟩ := h.kept
    have unsettled : ¬ settledIn registry txn = true := by
      intro settled
      exact Nat.not_le_of_lt opened (isSettled_iff.1 settled).1
    refine ⟨Chain.withdraw txn old, ?_, obsolete.withdraw unsettled⟩
    rw [versions_filter_ne h.orderly opened, eq, withdraw_append]

/-- A view of the horizon or later reads what the last write that it sees has left. -/
theorem read (forward : Forward registry) (h : Keeps registry writes chain)
    (grounded : Grounded registry view) (recent : registry.horizon ≤ view.snapshot) :
    chain.read registry.stamp view =
      Write.replay ((writes.filter fun made => view.sees registry.stamp made.1).map (·.2)) := by
  obtain ⟨old, eq, obsolete⟩ := h.kept
  have sees : ∀ t, settledIn registry t = true → view.sees registry.stamp t = true := by
    intro t settled
    exact sees_of_isSettled settled recent
  rw [← read_versions forward grounded h.orderly, eq]
  exact (read_append_of_obsolete obsolete sees).symm

end Keeps

end RowStore.Run
