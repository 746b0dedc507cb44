/- RowStore/Proofs/Run/Collection
   role: theorems
   digest: A commit leaves of the rows written what views of the horizon or later can read. -/

import RowStore.Proofs.Run.WriteOutcome
import RowStore.Proofs.Run.Linkage
import RowStore.Proofs.Table.Purge

set_option autoImplicit false
set_option relaxedAutoImplicit false

namespace RowStore

open RowStore.Table (Chain Version)
open RowStore.Table.Chain
open RowStore.Transaction (Registry Timestamp Touch TxnId)

namespace Run

variable {config : Config} {commits : Nat} {inserts : Nat → Nat} {state : State} {h : HandleId}
  {txn : TxnId} {t : Touch} {write : Write} {v : Version}

theorem step_commit (carries : (state.engine.handle h).txn = some txn) :
    state.step (.commit h) =
      { state with
        engine := Engine.purgeAll
          { state.engine.resetHandle h with registry := (state.engine.registry.commit txn).2.2 }
          (state.engine.registry.commit txn).2.2.horizon (state.engine.registry.touched txn)
        history := state.history ++ [.committed txn state.engine.registry.clock] } := by
  simp only [State.step, Engine.commit]
  rw [carries]
  rfl

theorem registry_commit (carries : (state.engine.handle h).txn = some txn) :
    (state.step (.commit h)).engine.registry = (state.engine.registry.commit txn).2.2 := by
  rw [step_commit carries]
  exact (Engine.sameBesides_purgeAll _ _ _).registry

namespace Sound

/-- A commit purges every row that its transaction wrote, as it noted all of them. -/
theorem purged_commit (s : Sound config commits inserts state)
    (carries : (state.engine.handle h).txn = some txn)
    (wrote : .wrote txn t write ∈ state.history) :
    Purged (settledIn (state.step (.commit h)).engine.registry)
      ((state.step (.commit h)).engine.chain t) := by
  have noted := s.noted txn (Engine.mem_running_of_carries carries) t write wrote
  rw [registry_commit carries, step_commit carries, Engine.chain_purgeAll, if_pos noted]
  exact purged_purge _ _ _

theorem unfinished_or_committed (s : Sound config commits inserts state)
    (mem : v ∈ state.engine.chain t) :
    v.creator ∈ state.unfinished ∨ ∃ time, state.history.commitTime? v.creator = some time := by
  obtain ⟨made, hm, same, -⟩ := (s.keeps t).exists_made mem
  have stands := (History.mem_standing.1 hm).2
  rw [same] at stands
  rcases s.dated.known v.creator ((s.keeps t).known mem) with runs | withdrawn | ⟨time, committed⟩
  · exact Or.inl runs
  · exact absurd withdrawn stands
  · exact Or.inr ⟨time, s.dated.commitTime?_eq_some.2 committed⟩

end Sound

/-- The transaction was committed before the horizon. -/
def State.isPast (state : State) (txn : TxnId) : Bool :=
  (state.history.commitTime? txn).any fun time => decide (time < state.engine.registry.horizon)

/-- The maker of the version is unfinished, or it was committed after that of the other one. -/
def State.IsNewer (state : State) (w v : Version) : Prop :=
  w.creator ∈ state.unfinished ∨ ∃ later earlier,
    state.history.commitTime? w.creator = some later ∧
      state.history.commitTime? v.creator = some earlier ∧ earlier < later

namespace Sound

theorem isPast_eq (s : Sound config commits inserts state)
    (known : txn < state.engine.registry.txns.size) :
    state.isPast txn = settledIn state.engine.registry txn := by
  rw [Bool.eq_iff_iff, settledIn, ← s.dated.mem_settledBefore_iff s.timely known,
    s.dated.mem_settledBefore, State.isPast, Option.any_eq_true]
  simp only [s.dated.commitTime?_eq_some, decide_eq_true_eq]

theorem isPast_of_mem (s : Sound config commits inserts state) (mem : v ∈ state.engine.chain t) :
    state.isPast v.creator = settledIn state.engine.registry v.creator :=
  s.isPast_eq ((s.keeps t).known mem)

/-- The later versions of a row are the newer ones. -/
theorem isNewer (s : Sound config commits inserts state) {front back : Chain}
    (stored : state.engine.chain t = front ++ v :: back) (past : state.isPast v.creator = true)
    {w : Version} (mem : w ∈ back) : state.IsNewer w v := by
  have occupied : state.engine.chain t ≠ [] := by simp [stored]
  have ordered := ((s.keeps t).linked s.timely.forward occupied).ordered
  rw [stored] at ordered
  have before := List.rel_of_pairwise_cons (List.pairwise_append.1 ordered).2.1 mem
  obtain ⟨earlier, committed, -⟩ := (Option.any_eq_true _ _).1 past
  have mem' : w ∈ state.engine.chain t := by
    rw [stored]
    exact List.mem_append_right _ (List.mem_cons_of_mem _ mem)
  rcases s.unfinished_or_committed mem' with runs | ⟨later, committed'⟩
  · exact Or.inl runs
  · obtain ⟨-, -, stamp, -⟩ := s.dated.committed _ _ (s.dated.commitTime?_eq_some.1 committed)
    obtain ⟨-, -, stamp', -⟩ := s.dated.committed _ _ (s.dated.commitTime?_eq_some.1 committed')
    rw [stamp, stamp'] at before
    exact Or.inr ⟨later, earlier, committed', committed, before⟩

end Sound

theorem Sound.getLast?_standing (s : Sound config commits inserts state)
    (runs : txn ∈ state.unfinished) (wrote : .wrote txn t write ∈ state.history) :
    ∃ last, (state.history.writes t txn).getLast? = some last ∧
      (state.history.standing t).getLast? = some (txn, last) := by
  have mem : (txn, write) ∈ state.history.standing t :=
    History.mem_standing.2 ⟨wrote, s.stands runs⟩
  have orderly := (s.keeps t).orderly
  rw [History.writes_eq (s.stands runs)]
  rcases List.eq_nil_or_concat (state.history.standing t) with none | ⟨front, ⟨maker, last⟩, eq⟩
  · rw [none] at mem
    cases mem
  · rw [List.concat_eq_append] at eq
    rw [eq] at mem orderly ⊢
    have own : txn = maker := by
      rcases List.mem_append.1 mem with before | final
      · exact (orderly.follows _ before).own_of_open (s.timely.openBit_lt_stamp runs)
      · exact congrArg Prod.fst (List.mem_singleton.1 final)
    subst own
    refine ⟨last, ?_, List.getLast?_concat⟩
    rw [List.filter_append, List.filter_singleton]
    simp

theorem Sound.settled_of_committed (s : Sound config commits inserts state)
    (idle : state.unfinished = []) (dropped : ∀ view ∈ state.viewsInUse, view.isPinned = false)
    {time : Timestamp} (committed : .committed txn time ∈ state.history) :
    settledIn state.engine.registry txn = true := by
  have horizon : state.engine.registry.horizon = state.engine.registry.clock := by
    have covers := s.covers
    rw [idle] at covers
    unfold Registry.horizon
    rw [covers.active_eq_nil dropped]
    rfl
  obtain ⟨known, -, -, past⟩ := s.dated.committed _ _ committed
  rw [← s.isPast_eq known, State.isPast, Option.any_eq_true, horizon]
  exact ⟨time, s.dated.commitTime?_eq_some.2 committed, decide_eq_true past⟩

theorem Sound.settled_of_idle (s : Sound config commits inserts state)
    (idle : state.unfinished = []) (dropped : ∀ view ∈ state.viewsInUse, view.isPinned = false)
    (mem : v ∈ state.engine.chain t) : settledIn state.engine.registry v.creator = true := by
  rcases s.unfinished_or_committed mem with runs | ⟨time, committed⟩
  · rw [idle] at runs
    cases runs
  · exact s.settled_of_committed idle dropped (s.dated.commitTime?_eq_some.1 committed)

/-- A purged chain whose makers are all settled holds just what the last write has left. -/
theorem Keeps.eq_of_settled {registry : Registry} {writes : List (TxnId × Write)} {chain : Chain}
    (keeps : Keeps registry writes chain) (purged : Purged (settledIn registry) chain)
    (made : ∀ v ∈ chain, settledIn registry v.creator = true)
    (last : writes.getLast? = some (txn, write)) (ended : settledIn registry txn = true) :
    chain = match write.left with
      | some data => [{ data := data, creator := txn }]
      | none => [] := by
  have single := purged.tail_eq_nil made
  cases chain with
  | nil =>
    cases write with
    | deleted => rfl
    | inserted data | replaced data =>
      obtain ⟨front, newest, eq, -⟩ := keeps.exists_newest_of_present last nofun
      simp at eq
  | cons v rest =>
    have alone : rest = [] := single
    subst alone
    obtain ⟨older, eq⟩ := (show Keeps registry writes ([] ++ [v]) from keeps).newest
    obtain ⟨front, newest, eq', -, kept⟩ := exists_newest keeps.orderly last
    obtain ⟨-, same⟩ := List.append_inj' (eq.symm.trans eq') rfl
    cases List.cons.inj same |>.1
    rcases kept with ⟨rfl, left, free⟩ | ⟨rfl, deleted⟩
    · rw [left, ← free]
    · -- A settled deletion of the only version would have taken it away.
      have gone := purged.present
      rw [isGone, made v List.mem_cons_self, deleted, Option.any_some, ended] at gone
      cases gone

/-- What a commit stores of a row that its transaction wrote. At most one version is that of a
transaction committed before the horizon; it is the oldest, and all others are newer. When no other
transaction is unfinished and no pinned view is left, there is one version, free and with the bytes
of the transaction's last write on the row, or none at all if that was a deletion. -/
theorem commit_collects (reach : Reachable config state)
    (carries : (state.engine.handle h).txn = some txn)
    (reach' : Reachable config (state.step (.commit h)))
    (wrote : .wrote txn t write ∈ state.history) :
    let after := state.step (.commit h)
    (after.engine.chain t).countP (fun v => after.isPast v.creator) ≤ 1 ∧
    (∀ front v back, after.engine.chain t = front ++ v :: back → after.isPast v.creator = true →
      front = [] ∧ ∀ w ∈ back, after.isPast w.creator = false ∧ after.IsNewer w v) ∧
    (after.unfinished = [] → (∀ view ∈ after.viewsInUse, view.isPinned = false) →
      ∃ last, (state.history.writes t txn).getLast? = some last ∧
        after.engine.chain t = match last.left with
          | some data => [{ data := data, creator := txn }]
          | none => []) := by
  intro after
  obtain ⟨commits, inserts, s⟩ := reach.sound
  obtain ⟨commits', inserts', s'⟩ := reach'.sound
  have runs : txn ∈ state.unfinished := Engine.mem_running_of_carries carries
  have purged : Purged (settledIn after.engine.registry) (after.engine.chain t) :=
    s.purged_commit carries wrote
  have history : after.history = state.history ++ [.committed txn state.engine.registry.clock] :=
    congrArg State.history (step_commit carries)
  refine ⟨?one, ?oldest, ?idle⟩
  case one =>
    have same : (after.engine.chain t).countP (fun v => after.isPast v.creator) =
        (after.engine.chain t).countP fun v => settledIn after.engine.registry v.creator :=
      List.countP_congr fun v mem => by rw [s'.isPast_of_mem mem]
    rw [same]
    exact purged.countP_le_one
  case oldest =>
    intro front v back stored past
    have stored' := stored ▸ purged
    have mem {w : Version} (part : w ∈ v :: back) : w ∈ after.engine.chain t :=
      stored ▸ List.mem_append_right front part
    obtain ⟨first, unsettled⟩ := stored'.oldest ((s'.isPast_of_mem (mem List.mem_cons_self)) ▸ past)
    refine ⟨first, fun w later => ⟨?_, s'.isNewer stored past later⟩⟩
    rw [s'.isPast_of_mem (mem (List.mem_cons_of_mem v later))]
    exact unsettled w later
  case idle =>
    intro idle dropped
    -- Nobody reads as of an earlier time, so the horizon is the clock and all makers are settled.
    obtain ⟨last, final, standing⟩ := s.getLast?_standing runs wrote
    have committed : .committed txn state.engine.registry.clock ∈ after.history := by
      rw [history]
      exact List.mem_append_right _ List.mem_cons_self
    have standing' : (after.history.standing t).getLast? = some (txn, last) := by
      rw [history, History.standing_append_committed]
      exact standing
    exact ⟨last, final, (s'.keeps t).eq_of_settled purged
      (fun v mem => s'.settled_of_idle idle dropped mem) standing'
      (s'.settled_of_committed idle dropped committed)⟩

/-- A row is inserted and committed. Another transaction replaces it twice, and inserts and deletes
a row of its own. -/
def rewritten : List Call :=
  [.createTable ⟨"t", [⟨"a", .int, 4⟩]⟩, .newHandle, .newHandle, .insert 0 1 [1, 0, 0, 0],
    .commit 0, .replace 1 1 ⟨0, 0⟩ [2, 0, 0, 0], .replace 1 1 ⟨0, 0⟩ [3, 0, 0, 0],
    .insert 1 1 [4, 0, 0, 0], .delete 1 1 ⟨0, 1⟩]

theorem commit_collects_rewritten :
    let after := ((initial {}).run rewritten).step (.commit 1)
    after.unfinished = [] ∧ after.viewsInUse = [] ∧
      after.engine.chain ⟨1, ⟨0, 0⟩⟩ = [{ data := [3, 0, 0, 0], creator := 1 }] ∧
      after.engine.chain ⟨1, ⟨0, 1⟩⟩ = [] := by
  intro after
  have reach : Reachable {} ((initial {}).run rewritten) :=
    ⟨rewritten, fits_of_length (by decide), by decide, rfl⟩
  have reach' : Reachable {} after :=
    ⟨rewritten ++ [Call.commit 1], fits_of_length (by decide), by decide,
      run_append_singleton (initial {}) rewritten (.commit 1)⟩
  have carries : (((initial {}).run rewritten).engine.handle 1).txn = some 1 := by decide
  have idle : after.unfinished = [] := by decide
  have dropped : after.viewsInUse = [] := by decide
  have none : ∀ view ∈ after.viewsInUse, view.isPinned = false := by
    rw [dropped]
    exact List.forall_mem_nil _
  have wrote :
      .wrote 1 ⟨1, ⟨0, 0⟩⟩ (.replaced [2, 0, 0, 0]) ∈ ((initial {}).run rewritten).history := by
    decide
  have wrote' :
      .wrote 1 ⟨1, ⟨0, 1⟩⟩ (.inserted [4, 0, 0, 0]) ∈ ((initial {}).run rewritten).history := by
    decide
  obtain ⟨-, -, replaced⟩ := commit_collects reach carries reach' wrote
  obtain ⟨-, -, deleted⟩ := commit_collects reach carries reach' wrote'
  obtain ⟨last, final, stored⟩ := replaced idle none
  obtain ⟨last', final', stored'⟩ := deleted idle none
  have last3 : some (Write.replaced [3, 0, 0, 0]) = some last := Eq.trans (by decide) final
  have lastDeleted : some Write.deleted = some last' := Eq.trans (by decide) final'
  cases last3
  cases lastDeleted
  exact ⟨idle, dropped, stored, stored'⟩

/-- As long as a reader is unfinished, the version that it reads is kept beside the new one. -/
example : (((initial {}).run [.createTable ⟨"t", [⟨"a", .int, 4⟩]⟩, .newHandle, .newHandle,
      .insert 0 1 [1, 0, 0, 0], .commit 0, .start 0, .replace 1 1 ⟨0, 0⟩ [2, 0, 0, 0]]).step
      (.commit 1)).engine.chain ⟨1, ⟨0, 0⟩⟩ =
    [⟨[1, 0, 0, 0], 0, some 2⟩, ⟨[2, 0, 0, 0], 2, none⟩] := by decide

end Run

end RowStore
