import Mathlib.Data.Nat.Notation
import Mathlib.Data.Nat.Init
import Mathlib.Tactic.SplitIfs

/-!
# Copies between kernel and user memory

A copy between kernel and user memory goes byte by byte and may fault at a byte of the user buffer.
A fault is given by the number of bytes in front of it: `copied count fault` is how many bytes of a
copy of `count` bytes are moved, and the copy faults when it moves less than it was asked to. A
fault behind the end of the copy is no fault.

A copy into the kernel that faults may fill the rest of the destination with zeros. `copiedCell` is
one cell of the destination after the copy, and `copiedCell_eq_old_iff` says when it is what it was.
-/

set_option autoImplicit false
set_option relaxedAutoImplicit false

namespace KernelExperiments.Foundation

/-- The number of bytes that a copy of `count` bytes moves. -/
def copied (count : ℕ) : Option ℕ → ℕ
  | none => count
  | some fault => min fault count

/-- The copy stops before its last byte. -/
def Faults (count : ℕ) (fault : Option ℕ) : Prop := copied count fault < count

instance decidableFaults (count : ℕ) (fault : Option ℕ) : Decidable (Faults count fault) :=
  inferInstanceAs (Decidable (_ < _))

/-- The cell at `index` of the destination of a copy into the kernel, which held `old`: moved,
filled with `zero`, or left alone. -/
def copiedCell {Cell : Type*} (zero : Cell) (source : ℕ → Cell) (count : ℕ) (fault : Option ℕ)
    (zeroFill : Bool) (index : ℕ) (old : Cell) : Cell :=
  if index < copied count fault then source index
  else if zeroFill ∧ index < count then zero
  else old

theorem copied_le (count : ℕ) (fault : Option ℕ) : copied count fault ≤ count := by
  cases fault with
  | none => exact Nat.le_refl count
  | some fault => exact Nat.min_le_right fault count

/-- A copy that does not fault moves all its bytes. -/
theorem copied_eq_of_not_faults {count : ℕ} {fault : Option ℕ} (hfault : ¬ Faults count fault) :
    copied count fault = count :=
  Nat.le_antisymm (copied_le count fault) (Nat.not_lt.mp hfault)

/-- A copy of nothing does not fault. -/
theorem not_faults_zero (fault : Option ℕ) : ¬ Faults 0 fault := Nat.not_lt_zero _

variable {Cell : Type*} {zero old : Cell} {source : ℕ → Cell} {count index : ℕ} {fault : Option ℕ}
  {zeroFill : Bool}

/-- A copy that does not fault leaves the cells of the source. -/
theorem copiedCell_of_not_faults (hfault : ¬ Faults count fault) (hindex : index < count) :
    copiedCell zero source count fault zeroFill index old = source index := by
  unfold copiedCell
  rw [copied_eq_of_not_faults hfault, if_pos hindex]

/-- A copy leaves the cells behind its end alone. -/
theorem copiedCell_of_le (hindex : count ≤ index) :
    copiedCell zero source count fault zeroFill index old = old := by
  have hcopied := copied_le count fault
  unfold copiedCell
  rw [if_neg (by omega), if_neg fun hfilled ↦ absurd hfilled.2 (Nat.not_lt.mpr hindex)]

/-- A copy does not change a cell exactly when it moves the same contents there, or fills with zero
what is zero, or does neither. -/
theorem copiedCell_eq_old_iff :
    copiedCell zero source count fault zeroFill index old = old ↔
      (index < copied count fault → source index = old) ∧
        (copied count fault ≤ index → index < count → zeroFill = true → old = zero) := by
  unfold copiedCell
  split_ifs with hmoved hfilled
  · rw [and_iff_left fun hle ↦ absurd hmoved (Nat.not_lt.mpr hle)]
    exact ⟨fun heq _ ↦ heq, fun heq ↦ heq hmoved⟩
  · rw [and_iff_right fun hlt ↦ absurd hlt hmoved]
    exact ⟨fun heq _ _ _ ↦ heq.symm,
      fun heq ↦ (heq (Nat.not_lt.mp hmoved) hfilled.2 hfilled.1).symm⟩
  · refine iff_of_true rfl ⟨fun hlt ↦ absurd hlt hmoved, fun _ hlt hzero ↦ ?_⟩
    exact absurd ⟨hzero, hlt⟩ hfilled

end KernelExperiments.Foundation
