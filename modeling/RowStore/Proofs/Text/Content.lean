/- RowStore/Proofs/Text/Content
   role: theorems
   digest: The content of a byte string is its longest start without a zero byte. -/

import Mathlib.Data.List.TakeWhile
import RowStore.Text.Bytes

set_option autoImplicit false
set_option relaxedAutoImplicit false

namespace RowStore.Text.Bytes

variable {bytes : Bytes}

theorem zero_not_mem_content (bytes : Bytes) : 0 ∉ content bytes := by
  intro mem
  have nonzero := List.mem_takeWhile_imp mem
  exact absurd nonzero (by decide)

theorem content_eq_self_iff : content bytes = bytes ↔ 0 ∉ bytes := by
  unfold content
  rw [List.takeWhile_eq_self_iff]
  constructor
  · intro nonzero zero
    exact absurd (nonzero 0 zero) (by decide)
  · rintro nonzero b mem
    rw [bne_iff_ne]
    rintro rfl
    exact nonzero mem

theorem content_content (bytes : Bytes) : content (content bytes) = content bytes :=
  content_eq_self_iff.2 (zero_not_mem_content bytes)

/-- What stands behind the content: the first zero byte and all that follows it. -/
def rest (bytes : Bytes) : Bytes := bytes.dropWhile (· != 0)

theorem content_append_rest (bytes : Bytes) : content bytes ++ rest bytes = bytes :=
  List.takeWhile_append_dropWhile

theorem rest_eq_nil_iff : rest bytes = [] ↔ 0 ∉ bytes := by
  rw [← content_eq_self_iff]
  have whole := content_append_rest bytes
  constructor
  · intro nothing
    rw [nothing, List.append_nil] at whole
    exact whole
  · intro all
    rw [all] at whole
    exact List.append_cancel_left (whole.trans (List.append_nil bytes).symm)

theorem rest_append_zeros (bytes : Bytes) (zeros : Nat) :
    rest (bytes ++ List.replicate zeros 0) = rest bytes ++ List.replicate zeros 0 := by
  have padding : rest (List.replicate zeros 0) = List.replicate zeros 0 := by
    cases zeros <;> rfl
  unfold rest at padding ⊢
  rw [List.dropWhile_append]
  split
  case isTrue nothing => rw [List.isEmpty_iff.1 nothing, padding, List.nil_append]
  case isFalse => rfl

theorem content_append_of_not_mem {front : Bytes} (nonzero : 0 ∉ front) (bytes : Bytes) :
    content (front ++ bytes) = front ++ content bytes := by
  unfold content
  apply List.takeWhile_append_of_pos
  intro b mem
  rw [bne_iff_ne]
  rintro rfl
  exact nonzero mem

theorem content_replicate_zero (zeros : Nat) : content (List.replicate zeros 0) = [] := by
  cases zeros <;> rfl

end RowStore.Text.Bytes
