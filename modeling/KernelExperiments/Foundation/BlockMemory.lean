import Mathlib.Data.Nat.Basic
import Mathlib.Data.List.Basic

/-!
# Byte memories read as arrays of blocks

A memory is a function from addresses to contents, and `memcpy` copies a range of one memory into
another. `blocks size memory` reads a memory as an array of blocks of `size` cells each. The two
commute: a copy whose offsets and length are whole numbers of blocks is the copy of those blocks
(`blocks_memcpy`), which is what carries a driver addressed in bytes to a store addressed in
blocks.

`BlockOp` is the interface of such a store, a last-write-wins array: `applyBlockOp` writes the
payload over a range of blocks, and `blockResult` is what a read hands out.
-/

set_option autoImplicit false
set_option relaxedAutoImplicit false

namespace KernelExperiments.Foundation

variable {Cell Block : Type*}

/-! ### Copies -/

/-- The target memory after `length` cells of the source, from `sourceOffset` on, were copied to
`targetOffset` and following. -/
def memcpy (target : ℕ → Cell) (targetOffset : ℕ) (source : ℕ → Cell)
    (sourceOffset length : ℕ) : ℕ → Cell := fun address ↦
  if targetOffset ≤ address ∧ address < targetOffset + length then
    source (sourceOffset + (address - targetOffset))
  else target address

theorem memcpy_of_mem {target source : ℕ → Cell} {targetOffset sourceOffset length address : ℕ}
    (hlow : targetOffset ≤ address) (hhigh : address < targetOffset + length) :
    memcpy target targetOffset source sourceOffset length address =
      source (sourceOffset + (address - targetOffset)) := if_pos ⟨hlow, hhigh⟩

/-! ### The block view -/

/-- A memory read as an array of blocks of `size` cells. -/
def blocks (size : ℕ) (memory : ℕ → Cell) : ℕ → Fin size → Cell := fun index position ↦
  memory (size * index + position)

theorem mul_le_mul_add_iff (first index : ℕ) {size position : ℕ} (hposition : position < size) :
    size * first ≤ size * index + position ↔ first ≤ index := by
  constructor
  · intro hle
    by_contra hlt
    have hsucc : size * (index + 1) ≤ size * first := Nat.mul_le_mul_left size (by omega)
    rw [Nat.mul_succ] at hsucc
    omega
  · intro hle
    have hmul := Nat.mul_le_mul_left size hle
    omega

theorem mul_add_lt_mul_iff (index last : ℕ) {size position : ℕ} (hposition : position < size) :
    size * index + position < size * last ↔ index < last := by
  rw [← not_le, ← not_le, mul_le_mul_add_iff last index hposition]

/-- A copy of a whole number of blocks, from one block boundary to another, is the copy of the
blocks. -/
theorem blocks_memcpy (size : ℕ) (target source : ℕ → Cell) (first sourceFirst count : ℕ) :
    blocks size (memcpy target (size * first) source (size * sourceFirst) (size * count)) =
      memcpy (blocks size target) first (blocks size source) sourceFirst count := by
  funext index position
  have hlow := mul_le_mul_add_iff first index position.isLt
  have hhigh := mul_add_lt_mul_iff index (first + count) position.isLt
  rw [Nat.mul_add] at hhigh
  unfold blocks memcpy
  simp only [hlow, hhigh]
  split_ifs with hmem
  · congr 1
    rw [Nat.mul_add, Nat.mul_sub]
    have hmul := Nat.mul_le_mul_left size hmem.1
    omega
  · rfl

/-! ### The last-write-wins array -/

/-- An operation on an array of blocks. -/
inductive BlockOp (Block : Type*)
  | read (first count : ℕ)
  | write (first count : ℕ) (payload : ℕ → Block)

/-- The array after an operation. -/
def applyBlockOp (array : ℕ → Block) : BlockOp Block → ℕ → Block
  | .read _ _ => array
  | .write first count payload => memcpy array first payload 0 count

/-- What an operation hands out: the blocks of a read, in order. -/
def blockResult (array : ℕ → Block) : BlockOp Block → List Block
  | .read first count => (List.range count).map fun index ↦ array (first + index)
  | .write _ _ _ => []

end KernelExperiments.Foundation
