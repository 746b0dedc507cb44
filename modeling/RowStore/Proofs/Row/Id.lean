/- RowStore/Proofs/Row/Id
   role: theorems
   digest: Row ids grow with the sequence numbers that they stem from. -/

import RowStore.Row.Id

set_option autoImplicit false
set_option relaxedAutoImplicit false

namespace RowStore.Row.RowId

variable {sequence later rowsPerPage : Nat} {id other : RowId}

theorem ofSequence_eq_some :
    ofSequence sequence rowsPerPage = some id ↔
      0 < rowsPerPage ∧ id.page.toNat = sequence / rowsPerPage ∧
        id.slot.toNat = sequence % rowsPerPage := by
  unfold ofSequence
  dsimp only
  constructor
  · intro h
    split at h
    case isTrue fits =>
      cases h
      exact ⟨fits.1, UInt32.toNat_ofNat_of_lt' fits.2.1, UInt32.toNat_ofNat_of_lt' fits.2.2⟩
    case isFalse => cases h
  · rintro ⟨positive, page, slot⟩
    have pageFits := id.page.toNat_lt
    have slotFits := id.slot.toNat_lt
    rw [if_pos ⟨positive, by omega, by omega⟩, ← page, ← slot, UInt32.ofNat_toNat,
      UInt32.ofNat_toNat]

theorem lt_of_ofSequence (h : ofSequence sequence rowsPerPage = some id)
    (h' : ofSequence later rowsPerPage = some other) (lt : sequence < later) : id < other := by
  obtain ⟨positive, page, slot⟩ := ofSequence_eq_some.1 h
  obtain ⟨-, page', slot'⟩ := ofSequence_eq_some.1 h'
  have bound := id.slot.toNat_lt
  have samePage := Nat.div_add_mod sequence rowsPerPage
  have laterPage := Nat.div_add_mod later rowsPerPage
  change id.rank < other.rank
  unfold rank
  have le : sequence / rowsPerPage ≤ later / rowsPerPage := Nat.div_le_div_right (Nat.le_of_lt lt)
  rcases Nat.lt_or_eq_of_le le with below | same
  · omega
  · rw [same] at samePage
    omega

theorem ofSequence_injective (h : ofSequence sequence rowsPerPage = some id)
    (h' : ofSequence later rowsPerPage = some id) : sequence = later := by
  rcases Nat.lt_trichotomy sequence later with lt | same | gt
  · exact absurd (lt_of_ofSequence h h' lt) (lt_irrefl id)
  · exact same
  · exact absurd (lt_of_ofSequence h' h gt) (lt_irrefl id)

end RowStore.Row.RowId
