import KernelExperiments.Foundation.BlockMemory
import KernelExperiments.Foundation.Runs
import Mathlib.Data.List.Induction

/-!
# What a sequence of overlapping writes leaves

A write replaces an interval of a memory by the cells of its source. After a sequence of writes each
address holds what the last write that covers it put there, or what it held at first:
`lastWritten` looks for that write, and `run_applyWrite` shows that running the writes one after the
other gives the same. Writes may overlap in any way and may be empty.
-/

set_option autoImplicit false
set_option relaxedAutoImplicit false

namespace KernelExperiments.Foundation

variable {Cell : Type*}

/-- A write of `length` cells to the addresses from `offset` on. -/
structure Write (Cell : Type*) where
  offset : ℕ
  length : ℕ
  source : ℕ → Cell

/-- The write reaches the address. -/
def Write.Covers (write : Write Cell) (address : ℕ) : Prop :=
  write.offset ≤ address ∧ address < write.offset + write.length

instance decidableCovers (write : Write Cell) (address : ℕ) : Decidable (write.Covers address) :=
  inferInstanceAs (Decidable (_ ∧ _))

/-- The memory after a write. -/
def applyWrite (memory : ℕ → Cell) (write : Write Cell) : ℕ → Cell :=
  memcpy memory write.offset write.source 0 write.length

/-- What the last of the writes that reaches the address put there, or the initial contents when
none does. -/
def lastWritten (initial : ℕ → Cell) (writes : List (Write Cell)) (address : ℕ) : Cell :=
  match writes.reverse.find? fun write ↦ decide (write.Covers address) with
  | some write => write.source (address - write.offset)
  | none => initial address

theorem applyWrite_of_covers (memory : ℕ → Cell) {write : Write Cell} {address : ℕ}
    (hcovers : write.Covers address) :
    applyWrite memory write address = write.source (address - write.offset) := by
  unfold applyWrite
  rw [memcpy_of_mem hcovers.1 hcovers.2, Nat.zero_add]

theorem applyWrite_of_not_covers (memory : ℕ → Cell) {write : Write Cell} {address : ℕ}
    (hcovers : ¬ write.Covers address) : applyWrite memory write address = memory address :=
  if_neg hcovers

/-- The last of the writes decides where it reaches, and nowhere else. -/
theorem lastWritten_concat (initial : ℕ → Cell) (writes : List (Write Cell)) (write : Write Cell)
    (address : ℕ) :
    lastWritten initial (writes ++ [write]) address =
      if write.Covers address then write.source (address - write.offset)
      else lastWritten initial writes address := by
  unfold lastWritten
  rw [List.reverse_append, List.reverse_singleton, List.singleton_append, List.find?_cons]
  by_cases hcovers : write.Covers address
  · rw [if_pos hcovers, decide_eq_true hcovers]
  · rw [if_neg hcovers, decide_eq_false hcovers]

/-- After a sequence of writes each address holds what was last written there. -/
theorem run_applyWrite (initial : ℕ → Cell) (writes : List (Write Cell)) :
    run applyWrite initial writes = lastWritten initial writes := by
  funext address
  induction writes using List.reverseRecOn with
  | nil => rfl
  | append_singleton writes write ih =>
    rw [run_append, run_cons, run_nil, lastWritten_concat]
    split_ifs with hcovers
    · exact applyWrite_of_covers _ hcovers
    · rw [applyWrite_of_not_covers _ hcovers, ih]

end KernelExperiments.Foundation
