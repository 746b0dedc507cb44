/- RowStore/Proofs/Run/Events
   role: theorems
   digest: What one call adds to the history and to the catalog, and how long stored rows are. -/

import RowStore.Proofs.Run.Steps

set_option autoImplicit false
set_option relaxedAutoImplicit false

namespace RowStore.Run

open RowStore.Row (RowId)
open RowStore.Schema (Layout)
open RowStore.Text (Bytes)
open RowStore.Transaction (Touch TxnId View)

variable {config : Config} {commits : Nat} {inserts : Nat → Nat} {state : State}

def Call.writer? : Call → Option HandleId
  | .insert h _ _ => some h
  | .replace h _ _ _ => some h
  | .delete h _ _ => some h
  | _ => none

/-- What a call adds to the history: a write of the transaction of its handle, with bytes as long as
the rows of the table, or the end of such a transaction. -/
inductive Adds (state : State) (call : Call) : History → Prop
  | nothing : Adds state call []
  | wrote (h : HandleId) (t : Touch) (write : Write) (writer : call.writer? = some h)
      (known : h < state.engine.handles.size) (layout : Layout)
      (listed : layout ∈ state.engine.catalog.layouts) (id : layout.id = t.table)
      (fits : ∀ data, write.left = some data → data.length = layout.recordSize) :
      Adds state call [.wrote (state.engine.ensureStarted h).1 t write]
  | committed (h : HandleId) (txn : TxnId) (carries : (state.engine.handle h).txn = some txn) :
      Adds state call [.committed txn state.engine.registry.clock]
  | withdrawn (h : HandleId) (txn : TxnId) (carries : (state.engine.handle h).txn = some txn) :
      Adds state call [.withdrawn txn]

private theorem attempt_adds {α : Type} {call : Call} {h : HandleId} {layout : Layout}
    (writer : call.writer? = some h) (known : h < state.engine.handles.size)
    (listed : layout ∈ state.engine.catalog.layouts) (outcome : Except Fault α × Engine)
    (row : α → Touch) (id : ∀ a, layout.id = (row a).table) (write : Write)
    (fits : ∀ a, outcome.1 = .ok a → ∀ data, write.left = some data →
      data.length = layout.recordSize) :
    ∃ added, (state.attempt (state.engine.ensureStarted h).1 outcome row write).history =
      state.history ++ added ∧ Adds state call added := by
  obtain ⟨result, engine⟩ := outcome
  cases result with
  | error fault => exact ⟨[], (List.append_nil _).symm, .nothing⟩
  | ok a => exact ⟨_, rfl, .wrote h (row a) write writer known layout listed (id a) (fits a rfl)⟩

private theorem length_of_insert {engine : Engine} {h : HandleId} {layout : Layout} {data : Bytes}
    {row : RowId} (done : (engine.insert h layout data).1 = .ok row) :
    data.length = layout.recordSize := by
  simp only [Engine.insert] at done
  cases result : (engine.ensureStarted h).2.insertRow (engine.ensureStarted h).1 layout data with
  | mk outcome engine' =>
    rw [result] at done
    cases outcome with
    | error fault => cases done
    | ok row => exact (Engine.insertRow_eq_ok result).1

private theorem length_of_replace {engine : Engine} {h : HandleId} {layout : Layout} {data : Bytes}
    {row : RowId} (done : (engine.replace h layout row data).1 = .ok ()) :
    data.length = layout.recordSize := by
  simp only [Engine.replace] at done
  cases result : (engine.ensureStarted h).2.replaceRow (engine.ensureStarted h).1 layout row
      data with
  | error fault =>
    rw [result] at done
    cases done
  | ok engine' => exact (Engine.replaceRow_eq_ok result).1

theorem exists_adds (state : State) (call : Call) :
    ∃ added, (state.step call).history = state.history ++ added ∧ Adds state call added := by
  have nothing : ∃ added, state.history = state.history ++ added ∧ Adds state call added :=
    ⟨[], (List.append_nil _).symm, .nothing⟩
  have tabled (h : HandleId) (table : Nat) (act : Layout → State)
      (acts : h < state.engine.handles.size → ∀ layout ∈ state.engine.catalog.layouts,
        layout.id = table →
          ∃ added, (act layout).history = state.history ++ added ∧ Adds state call added) :
      ∃ added, (state.onTable h table act).history = state.history ++ added ∧
        Adds state call added :=
    onTable_cases (P := fun new => ∃ added, new.history = state.history ++ added ∧
      Adds state call added) nothing acts
  cases call with
  | newHandle | viewNow | recordLock => exact nothing
  | createTable | start | viewOf | copyView | dropView | advance | closeScan | checkLock =>
    simp only [State.step]
    split <;> exact nothing
  | insert h table data =>
    apply tabled h table
    intro known layout listed id
    apply attempt_adds rfl known listed _ _ (fun _ => id) _
    intro row done written same
    exact Option.some.inj same ▸ length_of_insert done
  | replace h table row data =>
    apply tabled h table
    intro known layout listed id
    apply attempt_adds rfl known listed _ _ (fun _ => id) _
    intro _ done written same
    exact Option.some.inj same ▸ length_of_replace done
  | delete h table row =>
    apply tabled h table
    intro known layout listed id
    apply attempt_adds rfl known listed _ _ (fun _ => id) _
    intro _ _ written none
    cases none
  | openScan h table mode => exact tabled h table _ fun _ _ _ _ => nothing
  | commit h =>
    simp only [State.step]
    cases carried : (state.engine.handle h).txn with
    | none => exact ⟨[], rfl, .nothing⟩
    | some txn => exact ⟨_, rfl, .committed h txn carried⟩
  | rollback h =>
    simp only [State.step]
    cases carried : (state.engine.handle h).txn with
    | none => exact ⟨[], rfl, .nothing⟩
    | some txn => exact ⟨_, rfl, .withdrawn h txn carried⟩

theorem history_run (state : State) (calls : List Call) :
    state.history <+: (state.run calls).history := by
  induction calls using List.reverseRecOn with
  | nil => exact List.prefix_refl _
  | append_singleton calls call ih =>
    obtain ⟨added, eq, -⟩ := exists_adds (state.run calls) call
    rw [run_append_singleton, eq]
    exact ih.trans (List.prefix_append _ added)

theorem Sound.catalog_step (s : Sound config commits inserts state) (call : Call)
    (other : ∀ spec, call ≠ .createTable spec) :
    (state.step call).engine.catalog = state.engine.catalog := by
  cases call with
  | createTable spec => exact absurd rfl (other spec)
  | newHandle => exact s.newHandle.catalog
  | start h =>
    simp only [State.step]
    split
    · exact Engine.catalog_ensureStarted _ h
    · rfl
  | insert h table data =>
    apply onTable_cases (P := fun new => new.engine.catalog = _) rfl
    intro _ layout _ _
    rw [engine_attempt]
    exact (Engine.attempted_insert _ h layout data).catalog
  | replace h table row data =>
    apply onTable_cases (P := fun new => new.engine.catalog = _) rfl
    intro _ layout _ _
    rw [engine_attempt]
    exact (Engine.attempted_replace _ h layout row data).catalog
  | delete h table row =>
    apply onTable_cases (P := fun new => new.engine.catalog = _) rfl
    intro _ layout _ _
    rw [engine_attempt]
    exact (Engine.attempted_delete _ h layout row).catalog
  | commit h => exact Engine.catalog_commit _ h
  | rollback h => exact Engine.catalog_rollback _ h
  | viewOf h => exact (s.viewOf h).catalog
  | viewNow => exact s.viewNow.catalog
  | copyView i => exact (s.copyView i).catalog
  | dropView i => exact (s.giveUpView i).catalog
  | openScan h table mode =>
    cases mode with
    | readOnly => exact (s.openScan h table).catalog
    | readWrite =>
      apply onTable_cases (P := fun new => new.engine.catalog = _) rfl
      intro known layout _ _
      obtain ⟨q, -⟩ := @Sound.readView _ _ _ _ state.views state.scans (s.ensureStarted known) h
      exact q.catalog.trans (Engine.catalog_ensureStarted _ h)
  | advance i => exact (s.advance i).catalog
  | closeScan i => exact (s.closeScan i).catalog
  | checkLock h page mode => exact (s.checkLock h page mode).catalog
  | recordLock h page mode => exact (s.recordLock h page mode).catalog

theorem Sound.layouts_step (s : Sound config commits inserts state) (call : Call) :
    state.engine.catalog.layouts ⊆ (state.step call).engine.catalog.layouts := by
  by_cases creates : ∃ spec, call = .createTable spec
  · obtain ⟨spec, rfl⟩ := creates
    simp only [State.step]
    split
    case h_1 done =>
      obtain ⟨-, -, -, -, rfl⟩ := Engine.createTable_eq_ok.1 done
      exact List.subset_append_left _ _
    case h_2 => exact List.Subset.refl _
  · rw [s.catalog_step call fun spec same => creates ⟨spec, same⟩]
    exact List.Subset.refl _

theorem layouts_run (config : Config) {past later : List Call} (fits : Fits (past ++ later)) :
    ((initial config).run past).engine.catalog.layouts ⊆
      ((initial config).run (past ++ later)).engine.catalog.layouts := by
  induction later using List.reverseRecOn with
  | nil =>
    rw [List.append_nil]
    exact List.Subset.refl _
  | append_singleton later call ih =>
    rw [← List.append_assoc] at fits ⊢
    rw [run_append_singleton]
    exact List.Subset.trans (ih fits.of_append)
      ((Sound.run config _ fits.of_append).layouts_step call)

def Declared (state : State) : Prop :=
  ∀ layout ∈ state.engine.catalog.layouts,
    ∃ spec : Schema.TableSpec, spec.Accepted ∧ layout = spec.layout layout.id

theorem Declared.step (declared : Declared state) (s : Sound config commits inserts state)
    (call : Call) : Declared (state.step call) := by
  by_cases creates : ∃ spec, call = .createTable spec
  · obtain ⟨spec, rfl⟩ := creates
    simp only [State.step]
    split
    case h_1 layout engine done =>
      obtain ⟨-, -, accepted, same, rfl⟩ := Engine.createTable_eq_ok.1 done
      intro other mem
      rcases List.mem_append.1 mem with old | new
      · exact declared other old
      · cases List.mem_singleton.1 new
        exact ⟨spec, accepted, by rw [same]; rfl⟩
    case h_2 => exact declared
  · unfold Declared
    rw [s.catalog_step call fun spec same => creates ⟨spec, same⟩]
    exact declared

theorem declared_run (config : Config) (calls : List Call) (fits : Fits calls) :
    Declared ((initial config).run calls) := by
  induction calls using List.reverseRecOn with
  | nil =>
    intro layout mem
    cases mem
  | append_singleton calls call ih =>
    rw [run_append_singleton]
    exact (ih fits.of_append).step (Sound.run config calls fits.of_append) call

theorem Declared.fits (declared : Declared state) {layout : Layout}
    (listed : layout ∈ state.engine.catalog.layouts) :
    ∀ f ∈ layout.fields, f.Fits layout.recordSize := by
  obtain ⟨spec, accepted, same⟩ := declared layout listed
  rw [same]
  exact fun f mem => accepted.fits mem

/-- All bytes ever written are as long as the rows of their table. -/
def Fitted (state : State) : Prop :=
  ∀ txn t write, .wrote txn t write ∈ state.history → ∃ layout ∈ state.engine.catalog.layouts,
    layout.id = t.table ∧ ∀ data, write.left = some data → data.length = layout.recordSize

theorem Fitted.step (fitted : Fitted state) (s : Sound config commits inserts state) (call : Call) :
    Fitted (state.step call) := by
  intro txn t write wrote
  have kept := s.layouts_step call
  obtain ⟨added, eq, adds⟩ := exists_adds state call
  rw [eq] at wrote
  rcases List.mem_append.1 wrote with before | now
  · obtain ⟨layout, listed, id, fits⟩ := fitted txn t write before
    exact ⟨layout, kept listed, id, fits⟩
  · cases adds with
    | nothing => cases now
    | wrote h t' write' writer known layout listed id fits =>
      cases List.mem_singleton.1 now
      exact ⟨layout, kept listed, id, fits⟩
    | committed h txn' carries => cases List.mem_singleton.1 now
    | withdrawn h txn' carries => cases List.mem_singleton.1 now

theorem fitted_run (config : Config) (calls : List Call) (fits : Fits calls) :
    Fitted ((initial config).run calls) := by
  induction calls using List.reverseRecOn with
  | nil =>
    intro txn t write wrote
    cases wrote
  | append_singleton calls call ih =>
    rw [run_append_singleton]
    exact (ih fits.of_append).step (Sound.run config calls fits.of_append) call

theorem exists_of_replay_eq_some {writes : List Write} {data : Bytes}
    (left : Write.replay writes = some data) : ∃ write ∈ writes, write.left = some data := by
  rcases List.eq_nil_or_concat writes with rfl | ⟨before, last, rfl⟩
  · cases left
  · rw [List.concat_eq_append, replay_append_singleton] at left
    exact ⟨last, by simp, left⟩

/-- What a view reads by the history is as long as the rows of the table. -/
theorem Fitted.length_read (fitted : Fitted state) (s : Sound config commits inserts state)
    {layout : Layout} (listed : layout ∈ state.engine.catalog.layouts) {row : RowId} {view : View}
    {data : Bytes} (found : state.history.read ⟨layout.id, row⟩ view = some data) :
    data.length = layout.recordSize := by
  obtain ⟨write, mem, left⟩ := exists_of_replay_eq_some found
  obtain ⟨txn, -, made⟩ := List.mem_flatMap.1 mem
  obtain ⟨layout', listed', id, fits⟩ := fitted txn _ write (History.mem_writes.1 made)
  have same := s.eq_of_id_eq listed' listed id
  exact same ▸ fits data left

end RowStore.Run
