import KernelExperiments.BlockDevice.RequestHandler
import KernelExperiments.Foundation.UserCopy
import Mathlib.Tactic.SplitIfs

/-!
# Reading pages and writing bytes of the multiqueue block device

`exp_4_2.c`: `device_read` copies sectors of the disk into a page, and `device_write` copies bytes
of a user buffer to an offset of the disk. The first one counts in sectors of 512 bytes, the second
one in bytes.

Offsets and lengths are words of 64 bits and wrap. `nsectors * 512` is a product of two unsigned
ints and is taken modulo `2 ^ 32` before it becomes a `size_t`. `freeSpace` is the difference of
`DISK_SIZE` and a signed offset, stored in a `size_t`; in 64 bits this is the difference of words.

## Scope

The log messages are left out. The page is the memory from the address on at which `kmap` maps it:
its first 4096 bytes are the page, and what is behind them is not.
-/

set_option autoImplicit false
set_option relaxedAutoImplicit false

namespace KernelExperiments.BlockDevice

open Foundation

/-- `-EIO`. -/
def eio : ℤ := -5

/-- `-EFAULT`. -/
def efault : ℤ := -14

theorem efault_neg : efault < 0 := by decide

/-! ### Reading -/

/-- The range of `diskContent` that the `memcpy` of `device_read` copies to the page. -/
structure PageCopy where
  offset : ℕ
  length : ℕ
  deriving DecidableEq

/-- What a call of `device_read` returns and leaves, and the copy it made, if any. -/
structure ReadResult where
  ret : ℤ
  diskContent : Memory
  page : Memory
  copy : Option PageCopy

/-- `device_read`. -/
def deviceRead (diskContent page : Memory) (sector : BitVec 64) (nsectors : BitVec 32) :
    ReadResult :=
  let offset := sector * 512
  let length := (nsectors * 512).setWidth 64
  if diskSize < offset + length then ⟨eio, diskContent, page, none⟩
  else
    ⟨(length.setWidth 32).toInt, diskContent,
      memcpy page 0 diskContent offset.toNat length.toNat, some ⟨offset.toNat, length.toNat⟩⟩

/-! ### Writing -/

/-- The disk and the position `*offset` of the open file that writes to it. -/
structure DeviceFile where
  diskContent : Memory
  offset : BitVec 64

/-- A call of `device_write`: the user buffer, the length, the fault of the copy, if any, and
whether the copy then fills the rest with zeros. -/
structure WriteCall where
  buffer : ℕ → UInt8
  length : BitVec 64
  fault : Option ℕ
  zeroFill : Bool

/-- `copy_from_user(diskContent + *offset, buffer, length)`. -/
def copyFromUser (file : DeviceFile) (call : WriteCall) : Memory := fun address ↦
  if file.offset.toNat ≤ address then
    copiedCell 0 call.buffer call.length.toNat call.fault call.zeroFill
      (address - file.offset.toNat) (file.diskContent address)
  else file.diskContent address

/-- `device_write`. -/
def deviceWrite (file : DeviceFile) (call : WriteCall) : DeviceFile × ℤ :=
  let freeSpace := diskSize - file.offset
  if freeSpace < call.length then (file, efault)
  else
    let diskContent := copyFromUser file call
    if Faults call.length.toNat call.fault then ({ file with diskContent := diskContent }, efault)
    else (⟨diskContent, file.offset + call.length⟩, call.length.toInt)

/-! ### The cases of a read and of a write -/

/-- The offset that `device_read` computes. -/
theorem toNat_sector_mul (sector : BitVec 64) :
    (sector * 512).toNat = 512 * (sector.toNat % 36028797018963968) := by
  rw [BitVec.toNat_mul]
  change sector.toNat * 512 % 18446744073709551616 = _
  omega

/-- The length that `device_read` computes. -/
theorem toNat_nsectors_mul (nsectors : BitVec 32) :
    ((nsectors * 512).setWidth 64).toNat = 512 * (nsectors.toNat % 8388608) := by
  rw [BitVec.toNat_setWidth, BitVec.toNat_mul]
  change nsectors.toNat * 512 % 4294967296 % 18446744073709551616 = _
  omega

/-- `device_read` refuses a range exactly when its end, computed with the wrapped products, is
behind the disk. -/
theorem diskSize_lt_sector_end_iff (sector : BitVec 64) (nsectors : BitVec 32) :
    diskSize < sector * 512 + (nsectors * 512).setWidth 64 ↔
      32768 < (sector.toNat + nsectors.toNat % 8388608) % 36028797018963968 := by
  rw [BitVec.lt_def, BitVec.toNat_add, toNat_sector_mul, toNat_nsectors_mul]
  change 16777216 < _ % 18446744073709551616 ↔ _
  omega

/-- A copy that does not fault is a copy of the whole length. -/
theorem copyFromUser_of_not_faults (file : DeviceFile) {call : WriteCall}
    (hfault : ¬ Faults call.length.toNat call.fault) :
    copyFromUser file call =
      memcpy file.diskContent file.offset.toNat call.buffer 0 call.length.toNat := by
  funext address
  unfold copyFromUser memcpy
  by_cases hlow : file.offset.toNat ≤ address
  · rw [if_pos hlow, Nat.zero_add]
    by_cases hhigh : address < file.offset.toNat + call.length.toNat
    · rw [if_pos ⟨hlow, hhigh⟩]
      exact copiedCell_of_not_faults hfault (by omega)
    · rw [if_neg fun hmem ↦ hhigh hmem.2]
      exact copiedCell_of_le (by omega)
  · rw [if_neg hlow, if_neg fun hmem ↦ hlow hmem.1]

/-- A write is refused and changes nothing, or its copy faults behind some bytes and the offset
stays, or the whole length is copied and the offset advanced. -/
theorem deviceWrite_cases (file : DeviceFile) (call : WriteCall) :
    (diskSize - file.offset < call.length ∧ deviceWrite file call = (file, efault)) ∨
      (¬ diskSize - file.offset < call.length ∧ Faults call.length.toNat call.fault ∧
        deviceWrite file call = (⟨copyFromUser file call, file.offset⟩, efault)) ∨
      (¬ diskSize - file.offset < call.length ∧ ¬ Faults call.length.toNat call.fault ∧
        deviceWrite file call =
          (⟨memcpy file.diskContent file.offset.toNat call.buffer 0 call.length.toNat,
            file.offset + call.length⟩, call.length.toInt)) := by
  unfold deviceWrite
  dsimp only
  split_ifs with hspace hfault
  · exact Or.inl ⟨hspace, rfl⟩
  · exact Or.inr (Or.inl ⟨hspace, hfault, rfl⟩)
  · rw [copyFromUser_of_not_faults file hfault]
    exact Or.inr (Or.inr ⟨hspace, hfault, rfl⟩)

/-- Within the disk `freeSpace` is exact, and a write is accepted when it fits. -/
theorem not_freeSpace_lt_iff {file : DeviceFile} {call : WriteCall}
    (hoffset : file.offset.toNat ≤ diskSize.toNat) :
    ¬ diskSize - file.offset < call.length ↔
      file.offset.toNat + call.length.toNat ≤ diskSize.toNat := by
  rw [BitVec.lt_def, BitVec.toNat_sub_of_le (BitVec.le_def.mpr hoffset)]
  omega

end KernelExperiments.BlockDevice
