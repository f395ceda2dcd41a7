import Mathlib.Data.Nat.Notation
import Mathlib.Data.Int.Notation
import Mathlib.Tactic.SplitIfs

/-!
# The driver that maps a kernel area into user space

`map_driver.c`: a character device whose `mmap` shares one vmalloc area of ten pages with every
process. `mapdrv_mmap` accepts or rejects a mapping and installs `map_vm_ops` (`mapdrvMmap_cases`);
`map_fault` is called on the first access to each page and names the kernel page to put there.

Addresses, page offsets and flags are words of `w` bits, an `unsigned long`, and their arithmetic
wraps. `vmalloc_to_page` is a parameter, from addresses to whatever identifies a page. The result of
`map_fault` also lists the addresses it handed to `vmalloc_to_pfn` and to `vmalloc_to_page`
(`FaultResult.translated`).

## Scope

`map_fault` reads `vmf->vma` before it tests it for `NULL`, so a fault without a vma does not reach
the test; a fault carries its vma here. The log messages, and `map_vopen` and `map_vclose`, which
only log, are left out.
-/

set_option autoImplicit false
set_option relaxedAutoImplicit false

namespace KernelExperiments.SharedMapping

variable {w : ℕ} {Page : Type*}

/-! ### Constants -/

/-- `PAGE_SHIFT`. -/
def pageShift : ℕ := 12

/-- `MAPLEN`, the ten pages of the area in bytes. -/
def maplen (w : ℕ) : BitVec w := BitVec.ofNat w (4096 * 10)

/-- `VM_WRITE`. -/
def vmWrite (w : ℕ) : BitVec w := BitVec.ofNat w 0x2

/-- `VM_SHARED`. -/
def vmShared (w : ℕ) : BitVec w := BitVec.ofNat w 0x8

/-- `VM_LOCKONFAULT`. -/
def vmLockonfault (w : ℕ) : BitVec w := BitVec.ofNat w 0x80000

/-- `-ENXIO`. -/
def enxio : ℤ := -6

/-- `-EINVAL`. -/
def einval : ℤ := -22

/-- `VM_FAULT_SIGBUS`. -/
def vmFaultSigbus : ℤ := 2

/-! ### Mapping the area -/

/-- The operations of a vma: none yet, or `map_vm_ops`, whose `fault` is `map_fault`. -/
inductive VmOps
  | unset
  | mapVmOps
  deriving DecidableEq

/-- `struct vm_area_struct`: the user addresses `[vm_start, vm_end)`. -/
structure VmArea (w : ℕ) where
  vmStart : BitVec w
  vmEnd : BitVec w
  vmPgoff : BitVec w
  vmFlags : BitVec w
  vmOps : VmOps
  deriving DecidableEq

/-- `mapdrv_mmap`: the return value and the vma as it leaves it. -/
def mapdrvMmap (vma : VmArea w) : ℤ × VmArea w :=
  let offset := vma.vmPgoff <<< pageShift
  let size := vma.vmEnd - vma.vmStart
  if maplen w < size then (enxio, vma)
  else if vma.vmFlags &&& vmWrite w ≠ 0 ∧ ¬ vma.vmFlags &&& vmShared w ≠ 0 then (einval, vma)
  else
    let vma := { vma with vmFlags := vma.vmFlags ||| vmLockonfault w }
    if offset = 0 then (0, { vma with vmOps := .mapVmOps })
    else (enxio, vma)

/-! ### The four ways through `mapdrv_mmap` -/

/-- The vma has one of the flags of a mask. -/
def VmArea.Has (vma : VmArea w) (mask : BitVec w) : Prop := vma.vmFlags &&& mask ≠ 0

instance decidableHas (vma : VmArea w) (mask : BitVec w) : Decidable (vma.Has mask) :=
  inferInstanceAs (Decidable (_ ≠ _))

/-- The vma with `VM_LOCKONFAULT` set. -/
def VmArea.locked (vma : VmArea w) : VmArea w :=
  { vma with vmFlags := vma.vmFlags ||| vmLockonfault w }

/-- A mapping is rejected for its length, or for being writable and private, or it is locked, and
then accepted or rejected for its offset. -/
theorem mapdrvMmap_cases (vma : VmArea w) :
    (maplen w < vma.vmEnd - vma.vmStart ∧ mapdrvMmap vma = (enxio, vma)) ∨
      (¬ maplen w < vma.vmEnd - vma.vmStart ∧
        (vma.Has (vmWrite w) ∧ ¬ vma.Has (vmShared w)) ∧ mapdrvMmap vma = (einval, vma)) ∨
      (¬ maplen w < vma.vmEnd - vma.vmStart ∧
        ¬ (vma.Has (vmWrite w) ∧ ¬ vma.Has (vmShared w)) ∧
        ((vma.vmPgoff <<< pageShift = 0 ∧
            mapdrvMmap vma = (0, { vma.locked with vmOps := .mapVmOps })) ∨
          vma.vmPgoff <<< pageShift ≠ 0 ∧ mapdrvMmap vma = (enxio, vma.locked))) := by
  unfold mapdrvMmap
  dsimp only
  split_ifs with hsize hprivate hoffset
  · exact Or.inl ⟨hsize, rfl⟩
  · exact Or.inr (Or.inl ⟨hsize, hprivate, rfl⟩)
  · exact Or.inr (Or.inr ⟨hsize, hprivate, Or.inl ⟨hoffset, rfl⟩⟩)
  · exact Or.inr (Or.inr ⟨hsize, hprivate, Or.inr ⟨hoffset, rfl⟩⟩)

/-- An accepted mapping is not too long, is shared if it is writable, and has an offset of zero; it
is locked and gets `map_vm_ops`. -/
theorem mapdrvMmap_of_accepted {vma : VmArea w} (haccepted : (mapdrvMmap vma).1 = 0) :
    ¬ maplen w < vma.vmEnd - vma.vmStart ∧ (vma.Has (vmWrite w) → vma.Has (vmShared w)) ∧
      vma.vmPgoff <<< pageShift = 0 ∧
      mapdrvMmap vma = (0, { vma.locked with vmOps := .mapVmOps }) := by
  rcases mapdrvMmap_cases vma with ⟨-, hresult⟩ | ⟨-, -, hresult⟩ |
    ⟨hsize, hprivate, ⟨hoffset, hresult⟩ | ⟨-, hresult⟩⟩
  · rw [hresult] at haccepted
    exact absurd haccepted (by decide : enxio ≠ 0)
  · rw [hresult] at haccepted
    exact absurd haccepted (by decide : einval ≠ 0)
  · exact ⟨hsize, Decidable.not_and_not_right.mp hprivate, hoffset, hresult⟩
  · rw [hresult] at haccepted
    exact absurd haccepted (by decide : enxio ≠ 0)

/-- A vma that is not empty is too long exactly when it is longer than the ten pages of the area. -/
theorem maplen_lt_iff (hw : 32 ≤ w) {vma : VmArea w} (hlt : vma.vmStart < vma.vmEnd) :
    maplen w < vma.vmEnd - vma.vmStart ↔ 4096 * 10 < vma.vmEnd.toNat - vma.vmStart.toNat := by
  have hpow : 2 ^ 32 ≤ 2 ^ w := Nat.pow_le_pow_right (by omega) hw
  have hle : vma.vmStart ≤ vma.vmEnd := BitVec.le_of_lt hlt
  rw [BitVec.lt_def, maplen, BitVec.toNat_ofNat, Nat.mod_eq_of_lt (by omega),
    BitVec.toNat_sub_of_le hle]

/-! ### The page fault handler -/

/-- `struct vm_fault`. -/
structure VmFault (w : ℕ) where
  vma : VmArea w
  address : BitVec w
  pgoff : BitVec w

/-- What `map_fault` returns, the page it puts into `vmf->page`, and the addresses it translated. -/
structure FaultResult (w : ℕ) (Page : Type*) where
  ret : ℤ
  page : Option Page
  translated : List (BitVec w)

/-- `map_fault`, with the global `vmalloc_area`. The page comes from `offset`, the distance of the
faulting address from `vm_start`; `virt_start`, computed from `pgoff`, is translated and logged. -/
def mapFault (vmallocArea : BitVec w) (vmallocToPage : BitVec w → Page) (vmf : VmFault w) :
    FaultResult w Page :=
  let offset := vmf.address - vmf.vma.vmStart
  let virtStart := vmallocArea + vmf.pgoff <<< pageShift
  if vmallocArea = 0 then ⟨vmFaultSigbus, none, [virtStart]⟩
  else if maplen w ≤ offset then ⟨vmFaultSigbus, none, [virtStart]⟩
  else
    let pagePtr := vmallocArea + offset
    ⟨0, some (vmallocToPage pagePtr), [virtStart, pagePtr]⟩

end KernelExperiments.SharedMapping
