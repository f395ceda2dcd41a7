import Mathlib.Data.List.Infix

/-!
# How far apart the stops of a list are

Strings that lie one after the other in a buffer are told apart by a stop element. A reader that
takes a piece of the buffer and goes on to the first stop stays inside its piece when no block of
the list without a stop is as long as the piece: `GapsAtMost stop limit list`. Blocks at the end of
the list, which more elements may yet extend, have a bound of their own (`EndsWithin`).

Taking elements from the front keeps both (`GapsAtMost.drop`, `EndsWithin.drop`), and
`GapsAtMost.append` says what putting elements at the end does.
-/

set_option autoImplicit false
set_option relaxedAutoImplicit false

namespace KernelExperiments.Foundation

variable {α : Type*} {stop : α} {limit bound : ℕ} {list added : List α}

/-- A block of the list without a stop has at most `limit` elements. -/
def GapsAtMost (stop : α) (limit : ℕ) (list : List α) : Prop :=
  ∀ block, block <:+: list → stop ∉ block → block.length ≤ limit

/-- A block without a stop at the end of the list has at most `bound` elements. -/
def EndsWithin (stop : α) (bound : ℕ) (list : List α) : Prop :=
  ∀ block, block <:+ list → stop ∉ block → block.length ≤ bound

theorem GapsAtMost.mono {larger : ℕ} (hgaps : GapsAtMost stop limit list) (hle : limit ≤ larger) :
    GapsAtMost stop larger list :=
  fun block hblock hstop ↦ Nat.le_trans (hgaps block hblock hstop) hle

theorem EndsWithin.mono {larger : ℕ} (hends : EndsWithin stop bound list) (hle : bound ≤ larger) :
    EndsWithin stop larger list :=
  fun block hblock hstop ↦ Nat.le_trans (hends block hblock hstop) hle

/-- Without its first elements the list has no longer blocks. -/
theorem GapsAtMost.drop (hgaps : GapsAtMost stop limit list) (count : ℕ) :
    GapsAtMost stop limit (list.drop count) :=
  fun block hblock hstop ↦ hgaps block (hblock.trans (List.drop_suffix count list).isInfix) hstop

/-- Without its first elements the list has no longer blocks at its end. -/
theorem EndsWithin.drop (hends : EndsWithin stop bound list) (count : ℕ) :
    EndsWithin stop bound (list.drop count) :=
  fun block hblock hstop ↦ hends block (hblock.trans (List.drop_suffix count list)) hstop

/-- The blocks of a list after elements are put at its end: those of either part, and those that
cross the seam. -/
theorem GapsAtMost.append (hgaps : GapsAtMost stop limit list) (hends : EndsWithin stop bound list)
    (hadded : GapsAtMost stop limit added)
    (hseam : ∀ block, block <+: added → stop ∉ block → bound + block.length ≤ limit) :
    GapsAtMost stop limit (list ++ added) := by
  intro block hblock hstop
  rcases List.infix_append_iff.mp hblock with hold | hnew | ⟨front, back, rfl, hfront, hback⟩
  · exact hgaps block hold hstop
  · exact hadded block hnew hstop
  · obtain ⟨hstopFront, hstopBack⟩ := not_or.mp (List.mem_append.not.mp hstop)
    have hlow := hends front hfront hstopFront
    have hhigh := hseam back hback hstopBack
    rw [List.length_append]
    omega

/-- The end of what is put at the end is the end of the list, if there is a stop in it. -/
theorem EndsWithin.append_of_mem (hadded : EndsWithin stop bound added) (hmem : stop ∈ added) :
    EndsWithin stop bound (list ++ added) := by
  intro block hblock hstop
  rcases List.suffix_or_suffix_of_suffix hblock (List.suffix_append list added) with hend | hwhole
  · exact hadded block hend hstop
  · exact absurd (hwhole.subset hmem) hstop

/-- Elements put at the end make the block there longer by as many at most. -/
theorem EndsWithin.append (hends : EndsWithin stop bound list) (added : List α) :
    EndsWithin stop (bound + added.length) (list ++ added) := by
  intro block hblock hstop
  rcases List.suffix_or_suffix_of_suffix hblock (List.suffix_append list added) with hend | hwhole
  · exact Nat.le_trans hend.length_le (Nat.le_add_left _ _)
  · obtain ⟨front, rfl⟩ := hwhole
    have hfront := hends front (List.suffix_append_self_iff.mp hblock)
      fun hmem ↦ hstop (List.mem_append_left added hmem)
    rw [List.length_append]
    omega

/-- In a text without a stop, followed by one, the first block is the text and the last is empty. -/
theorem endsWithin_text (text : List α) (stop : α) : EndsWithin stop 0 (text ++ [stop]) := by
  intro block hblock hstop
  rcases List.suffix_concat_iff.mp hblock with rfl | ⟨front, rfl, -⟩
  · exact Nat.le_refl 0
  · exact absurd (List.mem_append_right front (List.mem_singleton.mpr rfl)) hstop

/-- A piece from the front of such a text that does not reach the stop is at most the text. -/
theorem length_le_of_prefix_text {text block : List α} (hblock : block <+: text ++ [stop])
    (hstop : stop ∉ block) : block.length ≤ text.length := by
  rcases List.prefix_concat_iff.mp hblock with rfl | hinside
  · exact absurd (List.mem_append_right text (List.mem_singleton.mpr rfl)) hstop
  · exact hinside.length_le

/-- The blocks of such a text are at most the text. -/
theorem gapsAtMost_text (text : List α) (stop : α) :
    GapsAtMost stop text.length (text ++ [stop]) := by
  intro block hblock hstop
  rcases List.infix_concat_iff.mp hblock with hend | hinside
  · exact Nat.le_trans (endsWithin_text text stop block hend hstop) (Nat.zero_le _)
  · exact hinside.length_le

end KernelExperiments.Foundation
