/- RowStore/Proofs/Run/Operators
   role: theorems
   digest: What scanners and single changes keep is kept by operators and statements. -/

import RowStore.Run.Operation

set_option autoImplicit false
set_option relaxedAutoImplicit false

namespace RowStore

open RowStore.Row (Record RowFilter)
open RowStore.Schema (Layout RowField)

variable {h : HandleId} {engine : Engine} {filter : RowFilter} {child operator : Operator}

/-- What every step of the child keeps is kept while a row is sought. -/
theorem seek_keeps {kept : Operator → Engine → Prop}
    {advance : Operator → Engine → Except Fault Bool × Operator × Engine}
    (steps : ∀ child engine, kept child engine →
      kept (advance child engine).2.1 (advance child engine).2.2)
    (row? : Operator → Option Record) (times : Nat) (holds : kept child engine) :
    kept (seek filter advance row? times child engine).2.1
      (seek filter advance row? times child engine).2.2 := by
  induction times generalizing child engine with
  | zero => exact holds
  | succ times ih =>
    have next := steps child engine holds
    unfold seek
    split
    case h_1 child' engine' advanced =>
      rw [advanced] at next
      split
      · exact next
      · split
        · exact next
        · exact next
        · exact ih next
    case h_2 => exact next

theorem applyAll_keeps {kept : Operator → Engine → Prop}
    {advance : Operator → Engine → Except Fault Bool × Operator × Engine}
    {act : Record → Engine → Except Fault Unit × Engine}
    (steps : ∀ child engine, kept child engine →
      kept (advance child engine).2.1 (advance child engine).2.2)
    (acts : ∀ row child engine, kept child engine → kept child (act row engine).2)
    (consumer : Consumer) (row? : Operator → Option Record) (times affected : Nat)
    (holds : kept child engine) :
    kept (applyAll act consumer advance row? times affected child engine).2.2.1
      (applyAll act consumer advance row? times affected child engine).2.2.2 := by
  induction times generalizing affected child engine with
  | zero => exact holds
  | succ times ih =>
    have next := steps child engine holds
    unfold applyAll
    split
    case h_1 child' engine' advanced =>
      rw [advanced] at next
      split
      · exact next
      · rename_i row _
        have acted := acts row child' engine' next
        split
        case h_1 failed =>
          rw [failed] at acted
          exact acted
        case h_2 done =>
          rw [done] at acted
          exact ih _ acted
    case h_2 advanced =>
      rw [advanced] at next
      exact next

/-- Scanners and changes of rows keep the property of the store, the ones that look at pages or write as
long as they act for certain handles. -/
structure Engine.Stable (kept : Engine → Prop) (acts : HandleId → Prop) : Prop where
  start : ∀ (scanner : Scanner) engine, kept engine → kept (scanner.start engine).2
  release : ∀ (scanner : Scanner) engine, kept engine → kept (scanner.releaseView engine)
  next : ∀ (scanner : Scanner) engine, acts scanner.handle → kept engine →
    kept (scanner.next engine).2.2
  apply : ∀ (change : Change) (table : Layout) (fields : List RowField) h row engine, acts h →
    kept engine → kept (change.apply table fields h row engine).2

variable {kept : Engine → Prop} {acts : HandleId → Prop}

theorem Scanner.handle_next (scanner : Scanner) (engine : Engine) :
    (scanner.next engine).2.1.handle = scanner.handle := by
  unfold next
  split
  · rfl
  · split
    · rfl
    · dsimp only
      split
      · rfl
      · split <;> rfl

namespace Operator

theorem start_keeps (stable : Engine.Stable kept acts) :
    ∀ (operator : Operator) (engine : Engine), kept engine → kept (operator.start h engine).2.2
  | .scan table mode old row, engine, holds => by
    have started := stable.start { layout := table, handle := h, mode } engine holds
    cases old with
    | none => exact started
    | some scanner => exact stable.release scanner _ started
  | .predicate _ child, engine, holds => start_keeps stable child engine holds
  | .alter _ _ _ [], _, holds => holds
  | .alter _ _ _ (_ :: _ :: _), _, holds => holds
  | .alter table change run [child], engine, holds => by
    have started := start_keeps stable child engine holds
    simp only [start]
    split
    · exact holds
    · split
      case h_1 failed =>
        rw [failed] at started
        exact started
      case h_2 done =>
        rw [done] at started
        exact started

theorem close_keeps (stable : Engine.Stable kept acts) :
    ∀ (operator : Operator) (engine : Engine), kept engine → kept (operator.close engine).2
  | .scan _ _ none _, _, holds => holds
  | .scan _ _ (some scanner) _, engine, holds => stable.release scanner engine holds
  | .predicate _ child, engine, holds => close_keeps stable child engine holds
  | .alter _ _ _ [], _, holds => holds
  | .alter _ _ _ (child :: _), engine, holds => close_keeps stable child engine holds

/-- Once opened for a handle, an operator acts for this one at most beside those before. -/
theorem mem_handles_start : ∀ (operator : Operator) (engine : Engine) (other : HandleId),
    other ∈ (operator.start h engine).2.1.handles → other = h ∨ other ∈ operator.handles
  | .scan table mode old row, engine, other, mem => by
    simp only [start, handles, Option.map_some, Option.toList_some, List.mem_singleton] at mem
    exact .inl mem
  | .predicate _ child, engine, other, mem => mem_handles_start child engine other mem
  | .alter _ _ _ [], _, _, mem => .inr mem
  | .alter _ _ _ (_ :: _ :: _), _, _, mem => .inr mem
  | .alter table change run [child], engine, other, mem => by
    have started := mem_handles_start child engine other
    simp only [start] at mem
    split at mem
    · exact .inr mem
    · split at mem
      case h_1 failed =>
        rw [failed] at started
        simp only [handles, handlesOfAll, List.append_nil, List.mem_append] at mem ⊢
        exact mem.elim (fun own => .inr (.inl own)) fun below => (started below).imp_right .inr
      case h_2 done =>
        rw [done] at started
        simp only [handles, handlesOfAll, List.append_nil, List.mem_append, Option.toList_some,
          List.mem_singleton] at mem ⊢
        exact mem.elim .inl fun below => (started below).imp_right .inr

/-- The store has the property, and the operator acts only for the handles in question. -/
structure Works (kept : Engine → Prop) (acts : HandleId → Prop) (operator : Operator)
    (engine : Engine) : Prop where
  holds : kept engine
  acting : ∀ h ∈ operator.handles, acts h

theorem nextWithin_works (stable : Engine.Stable kept acts) (steps : Nat)
    (works : Works kept acts operator engine) :
    Works kept acts (nextWithin steps operator engine).2.1 (nextWithin steps operator engine).2.2 := by
  induction steps generalizing operator engine with
  | zero => exact works
  | succ steps ih =>
    obtain ⟨holds, acting⟩ := works
    have child' (child : Operator) (engine : Engine) (inner : Works kept acts child engine) :
        Works kept acts (nextWithin steps child engine).2.1 (nextWithin steps child engine).2.2 :=
      ih inner
    cases operator with
    | scan table mode scanner row =>
      cases scanner with
      | none => exact ⟨holds, acting⟩
      | some scanner =>
        have own : acts scanner.handle := acting scanner.handle (List.mem_singleton_self _)
        have moved := stable.next scanner engine own holds
        have same := scanner.handle_next engine
        have still : ∀ h ∈ [(scanner.next engine).2.1.handle], acts h := by
          rw [same]
          exact acting
        simp only [nextWithin]
        split
        case h_1 stopped =>
          rw [stopped] at moved still
          exact ⟨moved, still⟩
        case h_2 stepped =>
          rw [stepped] at moved still
          exact ⟨moved, still⟩
    | predicate filter child =>
      have inner : Works kept acts child engine := ⟨holds, acting⟩
      obtain ⟨holds', acting'⟩ := seek_keeps child' record? (engine.rowCount + 1) inner
      exact ⟨holds', acting'⟩
    | alter table change run children =>
      simp only [nextWithin]
      split
      · exact ⟨holds, acting⟩
      · exact ⟨holds, acting⟩
      case h_3 bound child others started =>
        obtain ⟨mine, below⟩ := List.forall_mem_append.1 acting
        obtain ⟨first, rest⟩ := List.forall_mem_append.1 below
        have own : acts bound := mine bound (by simp [started])
        have changes (row : Record) (child : Operator) (engine : Engine)
            (inner : Works kept acts child engine) :
            Works kept acts child (change.apply table run.fields bound row engine).2 :=
          ⟨stable.apply change table run.fields bound row engine own inner.holds, inner.acting⟩
        have inner : Works kept acts child engine := ⟨holds, first⟩
        obtain ⟨holds', first'⟩ := applyAll_keeps child' changes change.consumer record?
          (engine.rowCount + 1) run.affected inner
        exact ⟨holds', List.forall_mem_append.2 ⟨mine, List.forall_mem_append.2 ⟨first', rest⟩⟩⟩

theorem next_keeps (stable : Engine.Stable kept acts) (acting : ∀ h ∈ operator.handles, acts h)
    (holds : kept engine) : kept (operator.next engine).2.2 :=
  (nextWithin_works stable operator.height ⟨holds, acting⟩).holds

mutual

theorem handles_ofPlan : ∀ plan : Plan, (ofPlan plan).handles = []
  | .scan _ _ => rfl
  | .predicate _ child => handles_ofPlan child
  | .alter _ _ children => handlesOfAll_ofPlans children

theorem handlesOfAll_ofPlans : ∀ plans : List Plan, handlesOfAll (ofPlans plans) = []
  | [] => rfl
  | plan :: rest => by
    rw [ofPlans, handlesOfAll, handles_ofPlan plan, handlesOfAll_ofPlans rest]
    rfl

end

end Operator

namespace Engine

theorem drain_keeps (stable : Stable kept acts) (own : acts h) (fresh : operator.handles = [])
    (holds : kept engine) : kept (engine.drain h operator).2.2 := by
  have started : kept (operator.start h engine).2.2 := operator.start_keeps stable engine holds
  have acting : ∀ other ∈ (operator.start h engine).2.1.handles, acts other := by
    intro other mem
    rcases operator.mem_handles_start engine other mem with rfl | before
    · exact own
    · rw [fresh] at before
      cases before
  unfold drain
  split
  case h_1 failed =>
    rw [failed] at started
    exact started
  case h_2 operator' engine' done =>
    rw [done] at started acting
    have advanced := Operator.next_keeps stable acting started
    split
    case h_1 failed =>
      rw [failed] at advanced
      exact advanced
    case h_2 stepped =>
      rw [stepped] at advanced
      exact advanced

/-- A statement keeps it that is run through one of these handles. -/
theorem execute_keeps (stable : Stable kept acts) (own : acts h) (statement : Statement)
    (holds : kept engine) : kept (engine.execute h statement).2 := by
  unfold execute
  split
  · exact holds
  case h_2 plan planned =>
    exact Operator.close_keeps stable _ _
      (drain_keeps stable own (Operator.handles_ofPlan plan) holds)

end Engine

end RowStore
