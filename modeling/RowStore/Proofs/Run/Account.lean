/- RowStore/Proofs/Run/Account
   role: theorems
   digest: What calls do to transactions and views, apart from rows, and what runs keep of it. -/

import RowStore.Proofs.Run.Steps

set_option autoImplicit false
set_option relaxedAutoImplicit false

namespace RowStore.Run

open RowStore.Row (RowId)
open RowStore.Schema (Layout)
open RowStore.Text (Bytes)
open RowStore.Transaction (LockMode Registry Touch TxnId View openBit tick tick_of_lt)
open RowStore.Transaction.Registry (Covers Extends Timely)

/-- The part of a state that concerns transactions and views. -/
structure Account where
  registry : Registry
  running : List TxnId
  views : List View
  history : History

def State.account (state : State) : Account :=
  ⟨state.engine.registry, state.unfinished, state.viewsInUse, state.history⟩

namespace Account

/-- Something done to transactions and views, other than a commit. -/
inductive Act : Account → Account → Prop
  | begin (a : Account) :
    Act a { a with
      registry := a.registry.start.2
      running := a.registry.txns.size :: a.running }
  | write {a : Account} {txn : TxnId} (runs : txn ∈ a.running) (t : Touch) (write : Write) :
    Act a { a with
      registry := a.registry.touch txn t
      history := a.history ++ [.wrote txn t write] }
  | rollback {a : Account} {txn : TxnId} {rest : List TxnId} (runs : a.running.Perm (txn :: rest)) :
    Act a { a with
      registry := (a.registry.rollback txn).2
      running := rest
      history := a.history ++ [.withdrawn txn] }
  | pin (a : Account) :
    Act a { a with registry := a.registry.pinNow.2, views := a.registry.pinNow.1 :: a.views }
  | look {a : Account} {view : View} (unpinned : view.pin = none) :
    Act a { a with views := view :: a.views }
  | copy {a : Account} {view : View} (used : view ∈ a.views) :
    Act a { a with registry := a.registry.hold view, views := view :: a.views }
  | drop {a : Account} {view : View} {rest : List View} (used : a.views.Perm (view :: rest)) :
    Act a { a with registry := a.registry.release view, views := rest }
  | arrange {a : Account} {running : List TxnId} {views : List View}
      (sameRunning : a.running.Perm running) (sameViews : a.views.Perm views) :
    Act a { a with running, views }

/-- The second account comes about from the first by acts with a number of commits among them. -/
inductive After : Nat → Account → Account → Prop
  | refl (a : Account) : After 0 a a
  | act {n : Nat} {a b c : Account} (before : After n a b) (act : Act b c) : After n a c
  | commit {n : Nat} {a b : Account} {txn : TxnId} {rest : List TxnId} (before : After n a b)
      (runs : b.running.Perm (txn :: rest)) :
    After (n + 1) a
      { b with
        registry := (b.registry.commit txn).2.2
        running := rest
        history := b.history ++ [.committed txn b.registry.clock] }

/-- The registry covers all transactions and views, the history is in step with it, and no more
than so many commits have advanced the clock. -/
structure Balanced (commits : Nat) (a : Account) : Prop where
  covers : a.registry.Covers a.running a.views
  timely : a.registry.Timely a.running
  dated : Dated a.registry a.running a.history
  clock : a.registry.clock ≤ commits + 1

variable {a b c : Account} {commits n m : Nat}

private theorem mem_active_of_pinNow (registry : Registry) :
    ∀ s ∈ registry.pinNow.2.active, s ∈ registry.active ∨ s = registry.clock := by
  intro s hs
  rcases List.mem_cons.1 hs with now | old
  · exact Or.inr now
  · exact Or.inl old

private theorem Balanced.look {registry : Registry} {views : List View} (h : Balanced commits a)
    (covers : registry.Covers a.running views) (clock : registry.clock = a.registry.clock)
    (txns : registry.txns = a.registry.txns)
    (old : ∀ s ∈ registry.active, s ∈ a.registry.active ∨ s = a.registry.clock) :
    Balanced commits { a with registry, views } ∧ a.registry.Extends registry := by
  have size : registry.txns.size = a.registry.txns.size := by rw [txns]
  have snapshot := Registry.snapshot_congr txns
  have stamp := Registry.stamp_congr txns
  have timely := h.timely.congr clock size snapshot stamp old
  have dated := h.dated.congr clock size stamp
  exact ⟨⟨covers, timely, dated, clock ▸ h.clock⟩,
    h.timely.congr_extends clock size snapshot stamp old⟩

theorem Act.balanced (act : Act a b) (h : Balanced commits a) :
    Balanced commits b ∧ a.registry.Extends b.registry := by
  cases act with
  | begin =>
    have known : ∀ t ∈ a.running, t < a.registry.txns.size := fun t ht => (h.timely.opened t ht).1
    exact ⟨⟨h.covers.start known, h.timely.start, h.dated.start, h.clock⟩, h.timely.start_extends⟩
  | @write txn runs t write =>
    have known := (h.timely.opened txn runs).1
    have dated : Dated (a.registry.touch txn t) a.running (a.history ++ [.wrote txn t write]) :=
      (h.dated.append_wrote t write known).congr rfl (Registry.size_touch a.registry txn t)
        fun u => Registry.stamp_touch a.registry txn u t
    have covers : (a.registry.touch txn t).Covers a.running a.views :=
      h.covers.congr rfl rfl fun u _ => Registry.snapshot_touch a.registry txn u t
    exact ⟨⟨covers, h.timely.touch t, dated, h.clock⟩, h.timely.touch_extends txn t⟩
  | rollback runs =>
    have timely := h.timely.perm runs
    have covers := h.covers.perm runs (List.Perm.refl _)
    exact ⟨⟨covers.rollback, timely.rollback, (h.dated.perm runs).rollback timely, h.clock⟩,
      timely.rollback_extends _⟩
  | pin => exact h.look h.covers.pinNow rfl rfl (mem_active_of_pinNow a.registry)
  | look unpinned =>
    exact h.look (h.covers.cons_unpinned unpinned) rfl rfl fun s hs => Or.inl hs
  | @copy view used =>
    refine h.look (h.covers.hold used) (Registry.clock_hold _ view) (Registry.txns_hold _ view) ?_
    intro s hs
    rw [Registry.active_hold] at hs
    exact Or.inl hs
  | @drop view rest used =>
    have covers := (h.covers.perm (List.Perm.refl _) used).release
    refine h.look covers (Registry.clock_release _ view) (Registry.txns_release _ view) ?_
    intro s hs
    exact Or.inl (Registry.mem_active_of_release hs)
  | arrange sameRunning sameViews =>
    exact ⟨⟨h.covers.perm sameRunning sameViews, h.timely.perm sameRunning,
      h.dated.perm sameRunning, h.clock⟩, Extends.refl _⟩

namespace After

theorem trans (h : After n a b) (h' : After m b c) : After (n + m) a c := by
  induction h' with
  | refl => exact h
  | act _ act ih => exact (ih h).act act
  | commit _ runs ih => exact (ih h).commit runs

theorem congr (h : After n a b) (registry : c.registry = b.registry)
    (running : b.running.Perm c.running) (views : b.views.Perm c.views)
    (history : c.history = b.history) : After n a c := by
  have arranged := h.act (Act.arrange running views)
  obtain ⟨registry', running', views', history'⟩ := c
  subst registry history
  exact arranged

/-- As long as the clock has not reached the open bit, what comes about is balanced, and its
registry extends the earlier one. -/
theorem balanced (h : After n a b) (balance : Balanced commits a)
    (room : commits + n + 1 < openBit) :
    Balanced (commits + n) b ∧ a.registry.Extends b.registry := by
  induction h with
  | refl => exact ⟨balance, Extends.refl _⟩
  | act _ act ih =>
    obtain ⟨before, extends'⟩ := ih balance room
    obtain ⟨after, extends''⟩ := act.balanced before
    exact ⟨after, extends'.trans extends''⟩
  | @commit n a b txn rest _ runs ih =>
    obtain ⟨before, extends'⟩ := ih balance (Nat.lt_of_succ_lt room)
    have timely := before.timely.perm runs
    have covers := before.covers.perm runs (List.Perm.refl _)
    have clock : b.registry.clock + 1 ≤ commits + (n + 1) + 1 := Nat.succ_le_succ before.clock
    refine ⟨⟨covers.commit, timely.commit (Nat.lt_of_le_of_lt clock room),
      (before.dated.perm runs).commit timely, ?_⟩, extends'.trans timely.commit_extends⟩
    change tick b.registry.clock ≤ commits + (n + 1) + 1
    rw [tick_of_lt timely.clock_lt]
    exact clock

end After

end Account

open Account (Act After Balanced)

variable {state : State} {h : HandleId} {txn : TxnId}

private theorem after_of_same {new : State} (registry : new.engine.registry = state.engine.registry)
    (running : new.unfinished = state.unfinished) (views : state.viewsInUse.Perm new.viewsInUse)
    (history : new.history = state.history) : After 0 state.account new.account :=
  (After.refl _).congr registry (List.Perm.of_eq running.symm) views history

private theorem after_ensureStarted (state : State) (known : h < state.engine.handles.size) :
    After 0 state.account { state with engine := (state.engine.ensureStarted h).2 }.account := by
  cases carried : (state.engine.handle h).txn with
  | some txn =>
    rw [Engine.ensureStarted_of_carries carried]
    exact After.refl _
  | none =>
    rw [Engine.ensureStarted_of_idle carried]
    have running := (Engine.running_begin known carried state.engine.registry.txns.size).symm
    exact ((After.refl _).act (Act.begin _)).congr rfl running (List.Perm.refl _) rfl

private theorem after_attempt {α : Type} {row : α → RowId} {layout : Layout}
    {outcome : Except Fault α × Engine} (known : h < state.engine.handles.size)
    (attempted : Engine.Attempted state.engine h layout row outcome) (write : Write) :
    After 0 state.account (state.attempt (state.engine.ensureStarted h).1 outcome
      (fun a => ⟨layout.id, row a⟩) write).account := by
  have begun := after_ensureStarted state known
  cases attempted with
  | failed fault left catalog registry handles =>
    have running : left.running = (state.engine.ensureStarted h).2.running :=
      Engine.running_congr handles
    exact begun.congr registry (List.Perm.of_eq running.symm) (List.Perm.refl _) rfl
  | noted a left catalog registry handles =>
    have runs := Engine.runs_ensureStarted known
    have running : (left.noteWrite h (state.engine.ensureStarted h).1 layout (row a)).running =
        (state.engine.ensureStarted h).2.running :=
      (Engine.running_recordLock _ h (row a).page .readWrite).trans (Engine.running_congr handles)
    refine (begun.act (Act.write runs ⟨layout.id, row a⟩ write)).congr ?_
      (List.Perm.of_eq running.symm) (List.Perm.refl _) rfl
    exact congrArg (fun registry : Registry => registry.touch _ _) registry

private theorem after_commit (state : State) (h : HandleId) :
    ∃ n ≤ 1, After n state.account (state.step (.commit h)).account := by
  simp only [State.step, Engine.commit]
  cases carried : (state.engine.handle h).txn with
  | none =>
    exact ⟨0, Nat.zero_le 1, after_of_same rfl (Engine.running_resetHandle_of_idle carried)
      (List.Perm.refl _) (List.append_nil _)⟩
  | some txn =>
    dsimp only
    rw [Engine.commitTxn_eq]
    have same := Engine.sameBesides_purgeAll
      { state.engine.resetHandle h with registry := (state.engine.registry.commit txn).2.2 }
      (state.engine.registry.commit txn).2.2.horizon (state.engine.registry.touched txn)
    have running := Engine.running_resetHandle carried
    exact ⟨1, Nat.le_refl 1, ((After.refl _).commit running).congr same.registry
      (List.Perm.of_eq (Engine.running_congr same.handles).symm) (List.Perm.refl _) rfl⟩

private theorem after_rollback (state : State) (h : HandleId) :
    After 0 state.account (state.step (.rollback h)).account := by
  simp only [State.step, Engine.rollback]
  cases carried : (state.engine.handle h).txn with
  | none =>
    exact after_of_same rfl (Engine.running_resetHandle_of_idle carried) (List.Perm.refl _)
      (List.append_nil _)
  | some txn =>
    dsimp only
    rw [Engine.rollbackTxn_eq]
    have same := Engine.sameBesides_withdrawAll
      { state.engine.resetHandle h with registry := (state.engine.registry.rollback txn).2 }
      txn (state.engine.registry.touched txn)
    have running := Engine.running_resetHandle carried
    exact ((After.refl _).act (Act.rollback running)).congr same.registry
      (List.Perm.of_eq (Engine.running_congr same.handles).symm) (List.Perm.refl _) rfl

private theorem after_readView (state : State) (h : HandleId) {new : State}
    (engine : new.engine = (state.engine.readView h).2)
    (views : ((state.engine.readView h).1 :: state.viewsInUse).Perm new.viewsInUse)
    (history : new.history = state.history) : After 0 state.account new.account := by
  have unfinished : new.unfinished = (state.engine.readView h).2.running := by
    unfold State.unfinished
    rw [engine]
    rfl
  unfold Engine.readView at engine views unfinished
  cases carried : (state.engine.handle h).txn with
  | some txn =>
    rw [carried] at engine views unfinished
    refine ((After.refl _).act (Act.look rfl)).congr ?_ (List.Perm.of_eq unfinished.symm) views
      history
    exact congrArg Engine.registry engine
  | none =>
    rw [carried] at engine views unfinished
    refine ((After.refl _).act (Act.pin _)).congr ?_ (List.Perm.of_eq unfinished.symm) views
      history
    exact congrArg Engine.registry engine

private theorem after_openScan (state : State) (h : HandleId) (table : Nat) (mode : LockMode) :
    After 0 state.account (state.step (.openScan h table mode)).account := by
  apply onTable_cases (P := fun new => After 0 state.account new.account) (After.refl _)
  intro known layout _ _
  cases mode with
  | readOnly =>
    exact after_readView state h rfl (viewsInUse_push_scan state _ _ rfl) rfl
  | readWrite =>
    exact (after_ensureStarted state known).trans
      (after_readView { state with engine := (state.engine.ensureStarted h).2 } h rfl
        (viewsInUse_push_scan _ _ _ rfl) rfl)

private theorem after_closeScan (state : State) (i : Nat) :
    After 0 state.account (state.step (.closeScan i)).account := by
  simp only [State.step]
  split
  case h_1 => exact After.refl _
  case h_2 scan found =>
    unfold Scanner.close Scanner.releaseView
    cases opened : scan.scanner.view with
    | none =>
      exact after_of_same rfl rfl (viewsInUse_modify_scan _ found opened.symm) rfl
    | some view =>
      have closed := @viewsInUse_close_scan state i scan
        ⟨{ scan.scanner with view := none }, scan.returned⟩ view
        (state.engine.dropView view) found opened rfl
      exact ((After.refl _).act (Act.drop closed)).congr rfl (List.Perm.refl _)
        (List.Perm.refl _) rfl

/-- Every call changes the account by acts, and only a commit counts as one. -/
theorem account_step (state : State) (call : Call) :
    ∃ n ≤ if call.isCommit then 1 else 0, After n state.account (state.step call).account := by
  have acts {new : State} (after : After 0 state.account new.account) :
      ∃ n ≤ if call.isCommit then 1 else 0, After n state.account new.account :=
    ⟨0, Nat.zero_le _, after⟩
  cases call with
  | createTable spec =>
    apply acts
    simp only [State.step]
    split
    case h_1 done =>
      obtain ⟨-, -, -, -, rfl⟩ := Engine.createTable_eq_ok.1 done
      exact After.refl _
    case h_2 => exact After.refl _
  | newHandle =>
    exact acts (after_of_same rfl (Engine.running_newHandle state.engine) (List.Perm.refl _) rfl)
  | start h =>
    apply acts
    simp only [State.step]
    split
    case isTrue known => exact after_ensureStarted state (of_decide_eq_true known)
    case isFalse => exact After.refl _
  | insert h table data =>
    apply acts
    apply onTable_cases (P := fun new => After 0 state.account new.account) (After.refl _)
    rintro known layout _ rfl
    exact after_attempt known (Engine.attempted_insert _ h layout data) (.inserted data)
  | replace h table row data =>
    apply acts
    apply onTable_cases (P := fun new => After 0 state.account new.account) (After.refl _)
    rintro known layout _ rfl
    exact after_attempt known (Engine.attempted_replace _ h layout row data) (.replaced data)
  | delete h table row =>
    apply acts
    apply onTable_cases (P := fun new => After 0 state.account new.account) (After.refl _)
    rintro known layout _ rfl
    exact after_attempt known (Engine.attempted_delete _ h layout row) .deleted
  | commit h => exact after_commit state h
  | rollback h => exact acts (after_rollback state h)
  | viewOf h =>
    apply acts
    simp only [State.step]
    split
    · exact after_readView state h rfl (viewsInUse_push_view state _ _) rfl
    · exact After.refl _
  | viewNow =>
    apply acts
    exact ((After.refl _).act (Act.pin _)).congr rfl (List.Perm.refl _)
      (viewsInUse_push_view state _ _) rfl
  | copyView i =>
    apply acts
    simp only [State.step]
    split
    case h_1 view held =>
      have used : view ∈ state.viewsInUse :=
        (viewsInUse_drop state.engine held).mem_iff.2 List.mem_cons_self
      exact ((After.refl _).act (Act.copy used)).congr rfl (List.Perm.refl _)
        (viewsInUse_push_view state _ view) rfl
    case h_2 => exact After.refl _
  | dropView i =>
    apply acts
    simp only [State.step]
    split
    case h_1 view held =>
      have used := viewsInUse_drop (state.engine.dropView view) held
      exact ((After.refl _).act (Act.drop used)).congr rfl (List.Perm.refl _) (List.Perm.refl _) rfl
    case h_2 => exact After.refl _
  | openScan h table mode => exact acts (after_openScan state h table mode)
  | advance i =>
    apply acts
    simp only [State.step]
    split
    case h_1 => exact After.refl _
    case h_2 scan found =>
      obtain ⟨kept, registry, q⟩ := @Sound.next_quiet state.views state.scans state scan.scanner
      exact after_of_same registry q.unfinished (viewsInUse_modify_scan _ found kept) rfl
  | closeScan i => exact acts (after_closeScan state i)
  | checkLock h page mode =>
    apply acts
    simp only [State.step]
    split
    case h_1 locked =>
      obtain ⟨locks, rfl⟩ := Engine.checkLock_eq_ok locked
      exact after_of_same rfl (Engine.running_modifyHandle _ h (by intro _; rfl))
        (List.Perm.refl _) rfl
    case h_2 => exact After.refl _
  | recordLock h page mode =>
    exact acts (after_of_same rfl (Engine.running_recordLock _ h page mode) (List.Perm.refl _) rfl)

theorem account_run (state : State) (calls : List Call) :
    ∃ n ≤ calls.countP Call.isCommit, After n state.account (state.run calls).account := by
  induction calls using List.reverseRecOn with
  | nil => exact ⟨0, Nat.zero_le _, After.refl _⟩
  | append_singleton calls call ih =>
    obtain ⟨n, before, after⟩ := ih
    obtain ⟨m, one, after'⟩ := account_step (state.run calls) call
    refine ⟨n + m, ?_, ?_⟩
    · rw [List.countP_append, List.countP_singleton]
      exact Nat.add_le_add before one
    · rw [run_append_singleton]
      exact after.trans after'

/-- As long as the commits do not use up the clock, every run keeps its account balanced. -/
theorem balanced_run (config : Config) {calls : List Call}
    (few : calls.countP Call.isCommit < 0x7fffffffffffffff) :
    ∃ commits ≤ calls.countP Call.isCommit,
      Balanced commits ((initial config).run calls).account := by
  have s := Sound.initial config
  obtain ⟨n, le, after⟩ := account_run (initial config) calls
  have room : 0 + n + 1 < openBit := by
    unfold openBit Transaction.Timestamp
    omega
  have balance := (after.balanced ⟨s.covers, s.timely, s.dated, s.clock⟩ room).1
  rw [Nat.zero_add] at balance
  exact ⟨n, le, balance⟩

theorem extends_run (config : Config) {past later : List Call}
    (few : (past ++ later).countP Call.isCommit < 0x7fffffffffffffff) :
    ((initial config).run past).engine.registry.Extends
      ((initial config).run (past ++ later)).engine.registry := by
  rw [List.countP_append] at few
  obtain ⟨commits, le, balance⟩ := @balanced_run config past (by omega)
  obtain ⟨n, le', after⟩ := account_run ((initial config).run past) later
  have room : commits + n + 1 < openBit := by
    unfold openBit Transaction.Timestamp
    omega
  rw [run_append]
  exact (after.balanced balance room).2

end RowStore.Run
