import KernelExperiments.SharedMapping.MmapContract
import Mathlib.Algebra.Ring.Nat

/-!
# Mappings that move and grow

`mremap` moves a part of a vma to another place, with the same length or another one, or lets a vma
grow where it is. The driver does not set `VM_DONTEXPAND`, so both are allowed, and `vm_pgoff` stays
the page index of `vm_start` in the mapped object. Together with the cuts of `munmap` and `mprotect`
these are the steps a mapping takes after `mmap` (`remapStep`).

A vma is within the area when all its pages are among the ten of the area (`VmArea.Within`). Every
accepted mapping is, cuts keep it so, and what `mremap` lays out (`RemapOp.laidOut`) decides whether
it stays so (`within_remapStep_iff`).

## Scope

Where `mremap` first unmaps what lies at the target of a move, that is a call of its own here. The
kernel moves and grows a vma only into addresses that are free then; the steps do not ask for it, so
the runs are more than the kernel's.
-/

set_option autoImplicit false
set_option relaxedAutoImplicit false

namespace KernelExperiments.SharedMapping

open Foundation

variable {w : ℕ}

/-! ### The system calls -/

/-- A system call on the vmas of a mapping: a cut, a growth in place of the vma that ends at
`oldEnd`, or a move of the range `[start, finish)` to `[target, targetEnd)`. -/
inductive RemapOp (w : ℕ)
  | cut (op : MapOp w)
  | expand (oldEnd newEnd : BitVec w)
  | move (start finish target targetEnd : BitVec w)

/-- The range `[start, finish)` is a part of the vma, and the target of a move is valid. -/
def VmArea.Moves (vma : VmArea w) (start finish target targetEnd : BitVec w) : Prop :=
  ValidRange start finish ∧ ValidRange target targetEnd ∧
    vma.vmStart ≤ start ∧ finish ≤ vma.vmEnd

instance decidableMoves (vma : VmArea w) (start finish target targetEnd : BitVec w) :
    Decidable (vma.Moves start finish target targetEnd) :=
  inferInstanceAs (Decidable (_ ∧ _ ∧ _ ∧ _))

/-- The vma ends at `oldEnd` and can grow to `newEnd`. -/
def VmArea.Expands (vma : VmArea w) (oldEnd newEnd : BitVec w) : Prop :=
  vma.vmEnd = oldEnd ∧ ValidRange oldEnd newEnd

instance decidableExpands (vma : VmArea w) (oldEnd newEnd : BitVec w) :
    Decidable (vma.Expands oldEnd newEnd) :=
  inferInstanceAs (Decidable (_ ∧ _))

/-- The vma that `mremap` lays out in place of a vma or of a part of it, if the call is about
this vma. -/
def RemapOp.laidOut (vma : VmArea w) : RemapOp w → Option (VmArea w)
  | .cut _ => none
  | .expand oldEnd newEnd =>
    if vma.Expands oldEnd newEnd then some { vma with vmEnd := newEnd } else none
  | .move start finish target targetEnd =>
    if vma.Moves start finish target targetEnd then
      some { vma.piece start finish with vmStart := target, vmEnd := targetEnd }
    else none

/-- What is left of a vma where it was. -/
def RemapOp.remaining (vma : VmArea w) : RemapOp w → List (VmArea w)
  | .cut op => op.apply vma
  | .expand oldEnd newEnd => if vma.Expands oldEnd newEnd then [] else [vma]
  | .move start finish target targetEnd =>
    if vma.Moves start finish target targetEnd then (MapOp.munmap start finish).apply vma
    else [vma]

/-- The vmas of a mapping after a call. -/
def remapStep (vmas : List (VmArea w)) (op : RemapOp w) : List (VmArea w) :=
  vmas.flatMap fun vma ↦ op.remaining vma ++ (op.laidOut vma).toList

/-! ### Whole pages within the area -/

/-- All pages of the vma are among the ten of the area: the place of its first page, as the shift of
`vm_pgoff` gives it, and its length. -/
def VmArea.Within (vma : VmArea w) : Prop :=
  (vma.vmPgoff <<< pageShift).toNat + (vma.vmEnd.toNat - vma.vmStart.toNat) ≤ 4096 * 10

instance decidableWithin (vma : VmArea w) : Decidable vma.Within :=
  inferInstanceAs (Decidable (_ ≤ _))

/-- The place in the object of the page at a distance from `vm_start`. -/
theorem toNat_pgoff_add_shiftLeft (pgoff distance : BitVec w) :
    ((pgoff + distance >>> pageShift) <<< pageShift).toNat =
      ((pgoff <<< pageShift).toNat + 4096 * (distance.toNat / 4096)) % 2 ^ w := by
  have hdistance := distance.isLt
  have hpage : ((distance >>> pageShift) <<< pageShift).toNat = 4096 * (distance.toNat / 4096) := by
    rw [BitVec.toNat_shiftLeft, BitVec.toNat_ushiftRight, Nat.shiftRight_eq_div_pow,
      Nat.shiftLeft_eq]
    change distance.toNat / 4096 * 4096 % 2 ^ w = _
    rw [Nat.mod_eq_of_lt (by omega), Nat.mul_comm]
  rw [BitVec.shiftLeft_add_distrib, BitVec.toNat_add, hpage]

/-- A part of a vma within the area is within it. -/
theorem VmArea.Within.piece {vma : VmArea w} (hwithin : vma.Within) {start finish : BitVec w}
    (hstart : vma.vmStart.toNat ≤ start.toNat) (hlt : start.toNat < finish.toNat)
    (hfinish : finish.toNat ≤ vma.vmEnd.toNat) : (vma.piece start finish).Within := by
  have hdistance : (start - vma.vmStart).toNat = start.toNat - vma.vmStart.toNat :=
    BitVec.toNat_sub_of_le (BitVec.le_def.mpr hstart)
  have hplace := toNat_pgoff_add_shiftLeft vma.vmPgoff (start - vma.vmStart)
  have hmod := Nat.mod_le ((vma.vmPgoff <<< pageShift).toNat +
    4096 * ((start - vma.vmStart).toNat / 4096)) (2 ^ w)
  rw [← hplace, hdistance] at hmod
  unfold VmArea.Within at hwithin ⊢
  dsimp only [VmArea.piece]
  omega

/-- An accepted mapping is within the area. -/
theorem within_of_accepted (hw : 32 ≤ w) {vma : VmArea w} (hlt : vma.vmStart < vma.vmEnd)
    (haccepted : (mapdrvMmap vma).1 = 0) : (mapdrvMmap vma).2.Within := by
  obtain ⟨hsize, -, hoffset, hresult⟩ := mapdrvMmap_of_accepted haccepted
  rw [maplen_lt_iff hw hlt, Nat.not_lt] at hsize
  rw [hresult]
  dsimp only [VmArea.Within, VmArea.locked]
  rw [hoffset, show (0 : BitVec w).toNat = 0 from BitVec.toNat_zero, Nat.zero_add]
  exact hsize

/-- The vma is whole pages, and within the area. -/
structure VmArea.Placed (vma : VmArea w) : Prop where
  valid : ValidRange vma.vmStart vma.vmEnd
  within : vma.Within

/-! ### What a call leaves and lays out -/

/-- What a call leaves of a vma within the area where it was is within the area. -/
theorem placed_of_mem_remaining {vma : VmArea w} (hplaced : vma.Placed) (op : RemapOp w) :
    ∀ piece ∈ op.remaining vma, piece.Placed := by
  obtain ⟨-, hstart, hend⟩ := hplaced.valid
  have hcut : ∀ op : MapOp w, ∀ piece ∈ op.apply vma, piece.Placed := by
    refine forall_mem_apply hstart hend hplaced ?_ ?_
    · intro start finish hle hlt hfinish hstartAligned hfinishAligned
      exact ⟨⟨BitVec.lt_def.mpr hlt, hstartAligned, hfinishAligned⟩,
        hplaced.within.piece hle hlt hfinish⟩
    · exact fun piece flags hpiece ↦ ⟨hpiece.valid, hpiece.within⟩
  intro piece hmem
  cases op with
  | cut op => exact hcut op piece hmem
  | expand oldEnd newEnd =>
    simp only [RemapOp.remaining] at hmem
    split_ifs at hmem
    · cases hmem
    · rwa [List.mem_singleton.mp hmem]
  | move start finish target targetEnd =>
    simp only [RemapOp.remaining] at hmem
    split_ifs at hmem
    · exact hcut _ piece hmem
    · rwa [List.mem_singleton.mp hmem]

/-- What `mremap` lays out is whole pages. -/
theorem valid_of_laidOut {vma laid : VmArea w} (hvalid : ValidRange vma.vmStart vma.vmEnd)
    {op : RemapOp w} (hlaid : op.laidOut vma = some laid) :
    ValidRange laid.vmStart laid.vmEnd := by
  cases op with
  | cut op => cases hlaid
  | expand oldEnd newEnd =>
    simp only [RemapOp.laidOut] at hlaid
    split_ifs at hlaid with hexpands
    · cases hlaid
      obtain ⟨rfl, hgrowth⟩ := hexpands
      exact ⟨BitVec.lt_trans hvalid.1 hgrowth.1, hvalid.2.1, hgrowth.2.2⟩
  | move start finish target targetEnd =>
    simp only [RemapOp.laidOut] at hlaid
    split_ifs at hlaid with hmoves
    · cases hlaid
      exact hmoves.2.1

/-- Every vma that the call lays out is within the area. -/
def RemapOp.KeepsWithin (vmas : List (VmArea w)) (op : RemapOp w) : Prop :=
  ∀ vma ∈ vmas, ∀ laid ∈ op.laidOut vma, laid.Within

instance decidableKeepsWithin (vmas : List (VmArea w)) (op : RemapOp w) :
    Decidable (op.KeepsWithin vmas) :=
  inferInstanceAs (Decidable (∀ vma ∈ vmas, ∀ laid ∈ op.laidOut vma, laid.Within))

/-- From vmas within the area, all vmas after a call are whole pages, and they are within the area
exactly when those are that the call lays out. -/
theorem within_remapStep_iff {vmas : List (VmArea w)} (hplaced : ∀ vma ∈ vmas, vma.Placed)
    (op : RemapOp w) :
    (∀ vma ∈ remapStep vmas op, ValidRange vma.vmStart vma.vmEnd) ∧
      ((∀ vma ∈ remapStep vmas op, vma.Within) ↔ op.KeepsWithin vmas) := by
  refine ⟨?_, ?_, ?_⟩
  · intro after hafter
    obtain ⟨vma, hvma, hmem⟩ := List.mem_flatMap.mp hafter
    rcases List.mem_append.mp hmem with hrest | hlaid
    · exact (placed_of_mem_remaining (hplaced vma hvma) op after hrest).valid
    · exact valid_of_laidOut (hplaced vma hvma).valid (Option.mem_toList.mp hlaid)
  · intro hwithin vma hvma laid hlaid
    refine hwithin laid (List.mem_flatMap.mpr ⟨vma, hvma, ?_⟩)
    exact List.mem_append_right _ (Option.mem_toList.mpr hlaid)
  · intro hkeeps after hafter
    obtain ⟨vma, hvma, hmem⟩ := List.mem_flatMap.mp hafter
    rcases List.mem_append.mp hmem with hrest | hlaid
    · exact (placed_of_mem_remaining (hplaced vma hvma) op after hrest).within
    · exact hkeeps vma hvma after (Option.mem_toList.mp hlaid)

/-- A call that makes nothing longer keeps vmas within the area within it: a cut, or a move to a
range that is no longer than the one moved. -/
theorem keepsWithin_of_not_longer {vmas : List (VmArea w)} (hplaced : ∀ vma ∈ vmas, vma.Placed)
    {op : RemapOp w}
    (hop : (∃ cut, op = .cut cut) ∨ ∃ start finish target targetEnd,
      op = .move start finish target targetEnd ∧
        targetEnd.toNat - target.toNat ≤ finish.toNat - start.toNat) : op.KeepsWithin vmas := by
  intro vma hvma laid hlaid
  rcases hop with ⟨cut, rfl⟩ | ⟨start, finish, target, targetEnd, rfl, hlength⟩
  · cases hlaid
  · simp only [RemapOp.laidOut] at hlaid
    split_ifs at hlaid with hmoves
    · cases hlaid
      obtain ⟨hsource, -, hstart, hfinish⟩ := hmoves
      have hpiece := (hplaced vma hvma).within.piece (BitVec.le_def.mp hstart)
        (BitVec.lt_def.mp hsource.1) (BitVec.le_def.mp hfinish)
      unfold VmArea.Within at hpiece ⊢
      dsimp only [VmArea.piece] at hpiece ⊢
      omega
    · cases hlaid

end KernelExperiments.SharedMapping
