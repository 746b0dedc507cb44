/- RowStore/Row/Id
   role: definitions
   digest: Row ids, their order, and the split of a sequence number into page and slot. -/

set_option autoImplicit false
set_option relaxedAutoImplicit false

namespace RowStore.Row

/-- The place of a row: a page and a slot in it. -/
structure RowId where
  page : UInt32
  slot : UInt32
  deriving DecidableEq, Repr, Inhabited

namespace RowId

/-- The rank of a row id in the order by page and then by slot; a slot number is below `2 ^ 32`. -/
def rank (id : RowId) : Nat := id.page.toNat * 0x100000000 + id.slot.toNat

instance : LT RowId := ⟨fun a b => a.rank < b.rank⟩

instance (a b : RowId) : Decidable (a < b) := inferInstanceAs (Decidable (a.rank < b.rank))

theorem eq_of_rank_eq {a b : RowId} (h : a.rank = b.rank) : a = b := by
  have ha := a.slot.toNat_lt
  have hb := b.slot.toNat_lt
  rcases a with ⟨p, s⟩
  rcases b with ⟨q, t⟩
  simp only [rank] at h ha hb
  simp only [RowId.mk.injEq]
  exact ⟨UInt32.toNat_inj.1 (by omega), UInt32.toNat_inj.1 (by omega)⟩

theorem lt_irrefl (a : RowId) : ¬ a < a := Nat.lt_irrefl a.rank

theorem lt_trans {a b c : RowId} (h : a < b) (h' : b < c) : a < c := Nat.lt_trans h h'

theorem eq_of_not_lt {a b : RowId} (h : ¬ a < b) (h' : ¬ b < a) : a = b :=
  eq_of_rank_eq (Nat.le_antisymm (Nat.le_of_not_lt h') (Nat.le_of_not_lt h))

def order (a b : RowId) : Ordering := compare a.rank b.rank

/-- The text of a row id: page, colon, slot. -/
def text (id : RowId) : String := toString id.page.toNat ++ ":" ++ toString id.slot.toNat

/-- The place of the row with a sequence number, pages being filled one after the other. There is
none when pages hold no rows or when page or slot number do not fit 32 bits. -/
def ofSequence (sequence rowsPerPage : Nat) : Option RowId :=
  let page := sequence / rowsPerPage
  let slot := sequence % rowsPerPage
  if 0 < rowsPerPage ∧ page < 0x100000000 ∧ slot < 0x100000000 then
    some ⟨UInt32.ofNat page, UInt32.ofNat slot⟩
  else none

end RowId

end RowStore.Row
