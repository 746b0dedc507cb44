/- RowStore/Proofs/Table/Chain
   role: theorems
   digest: What views read of a chain after versions are added, withdrawn or forgotten. -/

import Mathlib.Data.List.Induction
import RowStore.Proofs.Transaction.Stamps
import RowStore.Table.Chain

set_option autoImplicit false
set_option relaxedAutoImplicit false

namespace RowStore.Table.Chain

open RowStore.Row (RowId)
open RowStore.Text (Bytes)
open RowStore.Transaction (TxnId Timestamp View isSettled)

variable {stamps : TxnId → Timestamp} {view : View} {txn : TxnId} {row : RowId} {data : Bytes}

@[simp] theorem read_nil : Chain.read stamps view [] = none := rfl

theorem read_append_singleton (chain : Chain) (v : Version) :
    Chain.read stamps view (chain ++ [v]) =
      if view.sees stamps v.creator then
        if v.deleter.any (view.sees stamps) then none else some v.data
      else chain.read stamps view := by
  unfold Chain.read
  rw [List.reverse_append, List.reverse_singleton, List.singleton_append, List.find?_cons]
  cases view.sees stamps v.creator <;> rfl

theorem read_append_singleton_of_seen {chain : Chain} {v : Version}
    (seen : view.sees stamps v.creator = true) :
    Chain.read stamps view (chain ++ [v]) =
      if v.deleter.any (view.sees stamps) then none else some v.data := by
  rw [read_append_singleton, if_pos seen]

theorem read_append_singleton_of_unseen {chain : Chain} {v : Version}
    (unseen : ¬ view.sees stamps v.creator = true) :
    Chain.read stamps view (chain ++ [v]) = chain.read stamps view := by
  rw [read_append_singleton, if_neg unseen]

/-- A view that sees the creator of a version reads nothing of the versions before it. -/
theorem read_append_cons_of_seen (old : Chain) {v : Version} (rest : Chain)
    (seen : view.sees stamps v.creator = true) :
    Chain.read stamps view (old ++ v :: rest) = Chain.read stamps view (v :: rest) := by
  induction rest using List.reverseRecOn with
  | nil =>
    rw [read_append_singleton_of_seen seen]
    exact (@read_append_singleton_of_seen stamps view [] v seen).symm
  | append_singleton rest w ih =>
    rw [← List.cons_append, ← List.append_assoc, read_append_singleton, read_append_singleton, ih]

def Absent (txn : TxnId) (chain : Chain) : Prop :=
  ∀ v ∈ chain, v.creator ≠ txn ∧ v.deleter ≠ some txn

theorem absent_append {front back : Chain} :
    Absent txn (front ++ back) ↔ Absent txn front ∧ Absent txn back :=
  List.forall_mem_append

theorem absent_singleton {v : Version} :
    Absent txn [v] ↔ v.creator ≠ txn ∧ v.deleter ≠ some txn := by
  unfold Absent
  rw [List.forall_mem_singleton]

/-- Old versions make no difference in front of a chain to a view that sees all settled
transactions: the chain begins with a settled version, or it is gone because the newest of the old
versions is settled and so is its deletion. -/
def Obsolete (settled : TxnId → Bool) (old : Chain) : Chain → Prop
  | v :: _ => old = [] ∨ settled v.creator = true
  | [] => ∀ v ∈ old.getLast?, settled v.creator = true ∧ ∃ d, v.deleter = some d ∧ settled d = true

theorem Obsolete.nil (settled : TxnId → Bool) (chain : Chain) : Obsolete settled [] chain := by
  cases chain with
  | nil =>
    intro v hv
    cases hv
  | cons v rest => exact Or.inl rfl

theorem Obsolete.mono {settled settled' : TxnId → Bool} {old chain : Chain}
    (h : Obsolete settled old chain)
    (le : ∀ t, ¬ Absent t (old ++ chain) → settled t = true → settled' t = true) :
    Obsolete settled' old chain := by
  cases chain with
  | nil =>
    intro v hv
    obtain ⟨made, d, named, gone⟩ := h v hv
    have last : v ∈ old ++ [] := List.mem_append_left [] (List.mem_of_getLast? hv)
    have makes : ¬ Absent v.creator (old ++ []) := by
      intro absent
      exact (absent v last).1 rfl
    have deletes : ¬ Absent d (old ++ []) := by
      intro absent
      exact (absent v last).2 named
    exact ⟨le v.creator makes made, d, named, le d deletes gone⟩
  | cons v rest =>
    have occurs : ¬ Absent v.creator (old ++ v :: rest) := by
      intro absent
      exact (absent v (List.mem_append_right old List.mem_cons_self)).1 rfl
    rcases h with none | made
    · exact Or.inl none
    · exact Or.inr (le v.creator occurs made)

theorem read_append_of_obsolete {settled : TxnId → Bool} {old chain : Chain}
    (h : Obsolete settled old chain)
    (sees : ∀ t, settled t = true → view.sees stamps t = true) :
    Chain.read stamps view (old ++ chain) = chain.read stamps view := by
  cases chain with
  | cons v rest =>
    rcases h with rfl | made
    · rfl
    · exact read_append_cons_of_seen old rest (sees _ made)
  | nil =>
    rw [List.append_nil, read_nil]
    cases last : old.getLast? with
    | none =>
      rw [List.getLast?_eq_none_iff.1 last]
      rfl
    | some v =>
      obtain ⟨made, d, named, gone⟩ := h v last
      obtain ⟨init, rfl⟩ := List.getLast?_eq_some_iff.1 last
      rw [read_append_singleton_of_seen (sees _ made), named]
      simp [sees d gone]

/-- Behind the superseded versions the chain begins with a settled version, if any is superseded. -/
theorem superseded_spec (settled : TxnId → Bool) (chain : Chain) :
    superseded settled chain = 0 ∨
      ∃ v rest, chain.drop (superseded settled chain) = v :: rest ∧ settled v.creator = true := by
  induction chain with
  | nil => exact Or.inl rfl
  | cons u rest ih =>
    by_cases later : rest.any (settled ·.creator) = true
    · right
      simp only [superseded, if_pos later, List.drop_succ_cons]
      rcases ih with zero | found
      · rw [zero, List.drop_zero]
        cases rest with
        | nil => cases later
        | cons v rest =>
          refine ⟨v, rest, rfl, ?_⟩
          -- No version is superseded, so none behind the first is settled; one of them is.
          by_cases further : rest.any (settled ·.creator) = true
          · simp [superseded, further] at zero
          · simpa [further] using later
      · exact found
    · left
      simp [superseded, later]

theorem isGone_spec {settled : TxnId → Bool} {chain : Chain} (h : isGone settled chain = true) :
    ∃ v d, chain = [v] ∧ settled v.creator = true ∧ v.deleter = some d ∧ settled d = true := by
  match chain, h with
  | [v], h =>
    rw [isGone, Bool.and_eq_true, Option.any_eq_true] at h
    obtain ⟨made, d, named, gone⟩ := h
    exact ⟨v, d, rfl, made, named, gone⟩

/-- A purge turns the oldest versions into old ones that make no difference. -/
theorem obsolete_purge (stamps : TxnId → Timestamp) (horizon : Timestamp) {old chain : Chain}
    (h : Obsolete (fun t => isSettled horizon (stamps t)) old chain) :
    ∃ old', old ++ chain = old' ++ chain.purge stamps horizon ∧
      Obsolete (fun t => isSettled horizon (stamps t)) old' (chain.purge stamps horizon) := by
  let settled := fun t => isSettled horizon (stamps t)
  by_cases gone : isGone settled (chain.drop (chain.superseded settled)) = true
  · -- The row is gone: its last version joins the old ones.
    have all : chain.purge stamps horizon = [] := by
      simp [purge, forgettable, settled, gone]
    obtain ⟨v, d, single, made, named, deleted⟩ := isGone_spec gone
    refine ⟨old ++ chain, by rw [all, List.append_nil], ?_⟩
    rw [all]
    intro w hw
    have last : (old ++ chain).getLast? = some v := by
      rw [← List.take_append_drop (chain.superseded settled) chain, single, ← List.append_assoc,
        List.getLast?_concat]
    cases last.symm.trans hw
    exact ⟨made, d, named, deleted⟩
  · have some' : chain.purge stamps horizon = chain.drop (chain.superseded settled) := by
      simp [purge, forgettable, settled, gone]
    refine ⟨old ++ chain.take (chain.superseded settled), ?_, ?_⟩
    · rw [some', List.append_assoc, List.take_append_drop]
    · rw [some']
      rcases superseded_spec settled chain with zero | ⟨v, rest, begins, made⟩
      · rw [zero, List.drop_zero, List.take_zero, List.append_nil]
        exact h
      · rw [begins]
        exact Or.inr made

def unmark (txn : TxnId) (v : Version) : Version :=
  if v.deleter = some txn then { v with deleter := none } else v

@[simp] theorem creator_unmark (txn : TxnId) (v : Version) : (unmark txn v).creator = v.creator := by
  simp only [unmark]
  split <;> rfl

theorem deleter_unmark (txn : TxnId) (v : Version) :
    (unmark txn v).deleter = if v.deleter = some txn then none else v.deleter := by
  simp only [unmark]
  split <;> rfl

theorem unmark_of_ne {v : Version} (h : v.deleter ≠ some txn) : unmark txn v = v := if_neg h

theorem unmark_marked {v : Version} (free : v.deleter = none) :
    unmark txn { v with deleter := some txn } = v := by
  unfold unmark
  rw [if_pos rfl, ← free]

@[simp] theorem withdraw_nil (txn : TxnId) : Chain.withdraw txn [] = [] := rfl

theorem withdraw_eq (txn : TxnId) (chain : Chain) :
    chain.withdraw txn = (chain.filter fun v => v.creator != txn).map (unmark txn) := rfl

theorem withdraw_append (txn : TxnId) (front back : Chain) :
    Chain.withdraw txn (front ++ back) = front.withdraw txn ++ back.withdraw txn := by
  rw [withdraw_eq, withdraw_eq, withdraw_eq, List.filter_append, List.map_append]

theorem withdraw_cons_own {v : Version} (rest : Chain) (h : v.creator = txn) :
    Chain.withdraw txn (v :: rest) = rest.withdraw txn := by
  rw [withdraw_eq, withdraw_eq, List.filter_cons_of_neg (by simp [h])]

theorem withdraw_cons_of_ne {v : Version} (rest : Chain) (h : v.creator ≠ txn) :
    Chain.withdraw txn (v :: rest) = unmark txn v :: rest.withdraw txn := by
  rw [withdraw_eq, withdraw_eq, List.filter_cons_of_pos (by simp [h]), List.map_cons]

theorem withdraw_own_singleton (txn : TxnId) (data : Bytes) :
    Chain.withdraw txn [{ data := data, creator := txn }] = [] :=
  withdraw_cons_own [] rfl

theorem withdraw_of_absent {chain : Chain} (h : Absent txn chain) : chain.withdraw txn = chain := by
  induction chain with
  | nil => rfl
  | cons v rest ih =>
    obtain ⟨made, marked⟩ := h v List.mem_cons_self
    rw [withdraw_cons_of_ne rest made, unmark_of_ne marked,
      ih fun w hw => h w (List.mem_cons_of_mem v hw)]

/-- When the transaction made at most the newest version, the versions of all others keep their
places. -/
theorem getElem?_withdraw {chain : Chain} (older : ∀ v ∈ chain.dropLast, v.creator ≠ txn) (i : Nat) :
    (chain.withdraw txn)[i]? =
      (chain[i]?.filter fun v => v.creator != txn).map (unmark txn) := by
  rcases List.eq_nil_or_concat chain with rfl | ⟨front, newest, rfl⟩
  · rfl
  · rw [List.concat_eq_append] at older ⊢
    rw [List.dropLast_concat] at older
    have kept : Chain.withdraw txn front = front.map (unmark txn) := by
      rw [withdraw_eq, List.filter_eq_self.2 fun v hv => by simpa using older v hv]
    rw [withdraw_append, kept]
    rcases Nat.lt_or_ge i front.length with inside | beyond
    · rw [List.getElem?_append_left (by simpa using inside), List.getElem?_append_left inside,
        List.getElem?_map, List.getElem?_eq_getElem inside]
      have other := older front[i] (List.getElem_mem inside)
      simp [Option.filter, other]
    · rw [List.getElem?_append_right (by simpa using beyond), List.getElem?_append_right beyond,
        List.length_map]
      by_cases own : newest.creator = txn
      · rw [withdraw_cons_own [] own, withdraw_nil]
        cases i - front.length <;> simp [Option.filter, own]
      · rw [withdraw_cons_of_ne [] own, withdraw_nil]
        cases i - front.length <;> simp [Option.filter, own]

theorem absent_withdraw (txn : TxnId) (chain : Chain) : Absent txn (chain.withdraw txn) := by
  intro v h
  rw [withdraw_eq, List.mem_map] at h
  obtain ⟨u, hu, rfl⟩ := h
  have apart : u.creator ≠ txn := by simpa using (List.mem_filter.1 hu).2
  refine ⟨by rwa [creator_unmark], ?_⟩
  rw [deleter_unmark]
  split
  · simp
  · assumption

theorem withdraw_withdraw (txn : TxnId) (chain : Chain) :
    (chain.withdraw txn).withdraw txn = chain.withdraw txn :=
  withdraw_of_absent (absent_withdraw txn chain)

theorem Obsolete.withdraw {settled : TxnId → Bool} {old chain : Chain}
    (h : Obsolete settled old chain) (unsettled : ¬ settled txn = true) :
    Obsolete settled (Chain.withdraw txn old) (Chain.withdraw txn chain) := by
  cases chain with
  | nil =>
    rw [withdraw_nil]
    cases last : old.getLast? with
    | none =>
      rw [List.getLast?_eq_none_iff.1 last]
      exact Obsolete.nil settled []
    | some v =>
      obtain ⟨made, d, named, gone⟩ := h v last
      obtain ⟨init, rfl⟩ := List.getLast?_eq_some_iff.1 last
      have other : v.creator ≠ txn := by
        rintro rfl
        exact unsettled made
      have marked : v.deleter ≠ some txn := by
        intro same
        cases named.symm.trans same
        exact unsettled gone
      rw [withdraw_append, withdraw_cons_of_ne [] other, withdraw_nil, unmark_of_ne marked]
      intro w hw
      rw [List.getLast?_concat] at hw
      cases hw
      exact ⟨made, d, named, gone⟩
  | cons v rest =>
    rcases h with rfl | made
    · exact Obsolete.nil settled _
    · have other : v.creator ≠ txn := by
        rintro rfl
        exact unsettled made
      rw [withdraw_cons_of_ne rest other]
      exact Or.inr (by rwa [creator_unmark])

theorem checkWritable_eq_ok {newest : Version} {own : Bool} :
    checkWritable stamps view row newest = .ok own ↔
      view.sees stamps newest.creator = true ∧ newest.deleter = none ∧
        own = view.isOwn newest.creator := by
  unfold checkWritable
  cases view.sees stamps newest.creator with
  | false => simp
  | true =>
    cases newest.deleter with
    | none => simp [eq_comm]
    | some d => by_cases gone : view.sees stamps d = true <;> simp [gone]

theorem delete_append_singleton (front : Chain) (newest : Version) :
    Chain.delete stamps view txn row (front ++ [newest]) =
      (checkWritable stamps view row newest).map fun _ =>
        front ++ [{ newest with deleter := some txn }] := by
  unfold Chain.delete
  rw [List.getLast?_concat, List.dropLast_concat]

theorem replace_append_singleton (front : Chain) (newest : Version) :
    Chain.replace stamps view txn row data (front ++ [newest]) =
      (checkWritable stamps view row newest).map fun own =>
        front ++
          if own then [{ newest with data := data }]
          else [{ newest with deleter := some txn }, { data := data, creator := txn }] := by
  unfold Chain.replace
  rw [List.getLast?_concat, List.dropLast_concat]

def admits (stamps : TxnId → Timestamp) (view : View) (row : RowId) (chain : Chain) :
    Except Fault Unit :=
  match chain.getLast? with
  | none => .error (.rowNotFound row)
  | some newest => (checkWritable stamps view row newest).map fun _ => ()

/-- A row that a view shows is there to be written, unless somebody else has written it. -/
theorem admits_of_read {chain : Chain} {data : Bytes}
    (found : chain.read stamps view = some data) (row : RowId) :
    chain.admits stamps view row = .ok () ∨
      chain.admits stamps view row = .error (.writeConflict row) := by
  rcases List.eq_nil_or_concat chain with rfl | ⟨front, newest, rfl⟩
  · cases found
  · rw [List.concat_eq_append] at found ⊢
    rw [read_append_singleton] at found
    unfold admits checkWritable
    rw [List.getLast?_concat]
    dsimp only
    by_cases seen : view.sees stamps newest.creator = true
    · rw [if_pos seen] at found
      rw [if_neg (by simp [seen])]
      cases marked : newest.deleter with
      | none => exact Or.inl rfl
      | some deleter =>
        have unseen : ¬ view.sees stamps deleter = true := by
          intro gone
          rw [marked, if_pos (by simpa using gone)] at found
          cases found
        dsimp only
        rw [if_neg unseen]
        exact Or.inr rfl
    · rw [if_pos (by simp [seen])]
      exact Or.inr rfl

theorem delete_outcome (stamps : TxnId → Timestamp) (view : View) (txn : TxnId) (row : RowId)
    (chain : Chain) :
    (chain.delete stamps view txn row).map (fun _ => ()) = chain.admits stamps view row := by
  unfold Chain.delete admits
  cases chain.getLast? with
  | none => rfl
  | some newest => cases h : checkWritable stamps view row newest <;> simp [Except.map, h]

theorem replace_outcome (stamps : TxnId → Timestamp) (view : View) (txn : TxnId) (row : RowId)
    (data : Bytes) (chain : Chain) :
    (chain.replace stamps view txn row data).map (fun _ => ()) = chain.admits stamps view row := by
  unfold Chain.replace admits
  cases chain.getLast? with
  | none => rfl
  | some newest => cases h : checkWritable stamps view row newest <;> simp [Except.map, h]

theorem delete_eq_ok {chain chain' : Chain} :
    chain.delete stamps view txn row = .ok chain' ↔
      ∃ front newest, chain = front ++ [newest] ∧ view.sees stamps newest.creator = true ∧
        newest.deleter = none ∧ chain' = front ++ [{ newest with deleter := some txn }] := by
  constructor
  · intro h
    rcases List.eq_nil_or_concat chain with rfl | ⟨front, newest, rfl⟩
    · cases h
    · rw [List.concat_eq_append] at h ⊢
      rw [delete_append_singleton] at h
      cases writable : checkWritable stamps view row newest with
      | error fault =>
        rw [writable] at h
        cases h
      | ok own =>
        rw [writable] at h
        obtain ⟨seen, free, -⟩ := checkWritable_eq_ok.1 writable
        cases h
        exact ⟨front, newest, rfl, seen, free, rfl⟩
  · rintro ⟨front, newest, rfl, seen, free, rfl⟩
    rw [delete_append_singleton, checkWritable_eq_ok.2 ⟨seen, free, rfl⟩]
    rfl

/-- A replacement overwrites the newest version if it is the view's own, and otherwise marks it and
adds one. The view sees the newest version and nobody has deleted it. -/
theorem replace_eq_ok {chain chain' : Chain} :
    chain.replace stamps view txn row data = .ok chain' ↔
      ∃ front newest, chain = front ++ [newest] ∧ view.sees stamps newest.creator = true ∧
        newest.deleter = none ∧ chain' = front ++
          if view.isOwn newest.creator then [{ newest with data := data }]
          else [{ newest with deleter := some txn }, { data := data, creator := txn }] := by
  constructor
  · intro h
    rcases List.eq_nil_or_concat chain with rfl | ⟨front, newest, rfl⟩
    · cases h
    · rw [List.concat_eq_append] at h ⊢
      rw [replace_append_singleton] at h
      cases writable : checkWritable stamps view row newest with
      | error fault =>
        rw [writable] at h
        cases h
      | ok own =>
        rw [writable] at h
        obtain ⟨seen, free, rfl⟩ := checkWritable_eq_ok.1 writable
        cases h
        exact ⟨front, newest, rfl, seen, free, rfl⟩
  · rintro ⟨front, newest, rfl, seen, free, rfl⟩
    rw [replace_append_singleton, checkWritable_eq_ok.2 ⟨seen, free, rfl⟩]
    rfl

end RowStore.Table.Chain
