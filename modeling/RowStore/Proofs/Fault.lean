/- RowStore/Proofs/Fault
   role: theorems
   digest: Computations that may fail, taken apart into their steps. -/

import Mathlib.Data.List.Forall2
import RowStore.Fault

set_option autoImplicit false
set_option relaxedAutoImplicit false

namespace RowStore

variable {α β : Type} {fault : Fault}

theorem exists_of_bind_eq_ok {x : Except Fault α} {f : α → Except Fault β} {b : β}
    (done : x >>= f = .ok b) : ∃ a, x = .ok a ∧ f a = .ok b := by
  cases x with
  | error fault => cases done
  | ok a => exact ⟨a, rfl, done⟩

theorem eq_error_of_bind_eq_error {x : Except Fault α} {f : α → Except Fault β}
    (failed : x >>= f = .error fault) : x = .error fault ∨ ∃ a, x = .ok a ∧ f a = .error fault := by
  cases x with
  | error fault' =>
    cases failed
    exact Or.inl rfl
  | ok a => exact Or.inr ⟨a, rfl, failed⟩

theorem eq_error_of_map_eq_error {x : Except Fault α} {f : α → β}
    (failed : x.map f = .error fault) : x = .error fault := by
  cases x with
  | error fault' =>
    cases failed
    rfl
  | ok a => cases failed

theorem ofCell_eq_ok_iff {x : Except Cell.CellFault α} {a : α} :
    Fault.ofCell x = .ok a ↔ x = .ok a := by
  cases x with
  | error cause => exact ⟨nofun, nofun⟩
  | ok b => simp only [Fault.ofCell, Except.ok.injEq]

theorem ofCell_inj {x y : Except Cell.CellFault α} :
    Fault.ofCell x = Fault.ofCell y ↔ x = y := by
  cases x <;> cases y <;> simp [Fault.ofCell]

theorem exists_of_ofCell_eq_error {x : Except Cell.CellFault α}
    (failed : Fault.ofCell x = .error fault) : ∃ cause, x = .error cause ∧ fault = .cell cause := by
  cases x with
  | error cause =>
    cases failed
    exact ⟨cause, rfl, rfl⟩
  | ok a => cases failed

theorem forM_eq_ok_iff {f : α → Except Fault Unit} {as : List α} :
    as.forM f = .ok () ↔ ∀ a ∈ as, f a = .ok () := by
  induction as with
  | nil => exact ⟨fun _ => List.forall_mem_nil _, fun _ => rfl⟩
  | cons a rest ih =>
    change (f a >>= fun _ => rest.forM f) = .ok () ↔ _
    rw [List.forall_mem_cons, ← ih]
    constructor
    · intro done
      obtain ⟨⟨⟩, first, later⟩ := exists_of_bind_eq_ok done
      exact ⟨first, later⟩
    · rintro ⟨first, later⟩
      rw [first]
      exact later

theorem mapM_eq_ok_iff {f : α → Except Fault β} {as : List α} {bs : List β} :
    as.mapM f = .ok bs ↔ List.Forall₂ (fun a b => f a = .ok b) as bs := by
  induction as generalizing bs with
  | nil =>
    rw [List.mapM_nil, List.forall₂_nil_left_iff]
    exact ⟨fun done => (Except.ok.inj done).symm, fun none => by rw [none]; rfl⟩
  | cons a rest ih =>
    rw [List.mapM_cons, List.forall₂_cons_left_iff]
    constructor
    · intro done
      obtain ⟨b, first, done⟩ := exists_of_bind_eq_ok done
      obtain ⟨later, rest', done⟩ := exists_of_bind_eq_ok done
      exact ⟨b, later, first, ih.1 rest', (Except.ok.inj done).symm⟩
    · rintro ⟨b, later, first, rest', rfl⟩
      rw [first, ih.2 rest']
      rfl

theorem exists_mapM_iff {f : α → Except Fault β} {as : List α} :
    (∃ bs, as.mapM f = .ok bs) ↔ ∀ a ∈ as, ∃ b, f a = .ok b := by
  simp only [mapM_eq_ok_iff]
  induction as with
  | nil => exact iff_of_true ⟨[], .nil⟩ (List.forall_mem_nil _)
  | cons a rest ih =>
    rw [List.forall_mem_cons, ← ih]
    constructor
    · rintro ⟨-, first | ⟨first, later⟩⟩
      exact ⟨⟨_, first⟩, _, later⟩
    · rintro ⟨⟨b, first⟩, bs, later⟩
      exact ⟨b :: bs, .cons first later⟩

theorem mapM_eq_error_iff {f : α → Except Fault β} {as : List α} :
    as.mapM f = .error fault ↔
      ∃ before a after, as = before ++ a :: after ∧ (∀ b ∈ before, ∃ c, f b = .ok c) ∧
        f a = .error fault := by
  induction as with
  | nil =>
    rw [List.mapM_nil]
    refine iff_of_false nofun ?_
    rintro ⟨before, a, after, none, -⟩
    exact absurd none.symm (by simp)
  | cons a rest ih =>
    rw [List.mapM_cons]
    constructor
    · intro failed
      rcases eq_error_of_bind_eq_error failed with here | ⟨b, first, failed⟩
      · exact ⟨[], a, rest, rfl, List.forall_mem_nil _, here⟩
      · rcases eq_error_of_bind_eq_error failed with later | ⟨bs, -, done⟩
        · obtain ⟨before, a', after, rfl, passed, here⟩ := ih.1 later
          exact ⟨a :: before, a', after, rfl, List.forall_mem_cons.2 ⟨⟨b, first⟩, passed⟩, here⟩
        · cases done
    · rintro ⟨before, a', after, parts, passed, here⟩
      cases before with
      | nil =>
        cases parts
        rw [here]
        rfl
      | cons b before =>
        cases parts
        obtain ⟨⟨c, first⟩, passed⟩ := List.forall_mem_cons.1 passed
        have later : List.mapM f (before ++ a' :: after) = .error fault :=
          ih.2 ⟨before, a', after, rfl, passed, here⟩
        rw [first]
        change (List.mapM f (before ++ a' :: after) >>= _) = _
        rw [later]
        rfl

end RowStore
