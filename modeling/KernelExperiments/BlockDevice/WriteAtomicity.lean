import KernelExperiments.BlockDevice.DeviceFile

/-!
# Whether a write to the block device is bounded and atomic

A call of `device_write` that returns the length should have replaced exactly the bytes of the disk
from the offset on, all of them inside the disk, and one that returns an error should have changed
nothing (`WriteContract`).

There are two ways to miss it. Behind the end of the disk `freeSpace` is a huge number, every length
fits, and the copy goes past the disk. And a copy that faults has already moved the bytes in front
of the fault to the disk, and nothing takes them back; nobody sees it only when those bytes are the
ones that were there (`Unseen`). `writeContract_iff` says that there is no third.
-/

set_option autoImplicit false
set_option relaxedAutoImplicit false

namespace KernelExperiments.BlockDevice

open Foundation

/-! ### The contract -/

/-- What a call of `device_write` promises. A result that is not negative is the length: the range
was inside the disk, its bytes and no others were replaced, and the offset was advanced. A negative
result is an error: the bytes of the disk and the offset are as before. -/
structure WriteContract (file : DeviceFile) (call : WriteCall) : Prop where
  of_length : 0 ≤ (deviceWrite file call).2 →
    (deviceWrite file call).2 = call.length.toNat ∧
      file.offset.toNat + call.length.toNat ≤ diskSize.toNat ∧
      (deviceWrite file call).1.diskContent =
        memcpy file.diskContent file.offset.toNat call.buffer 0 call.length.toNat ∧
      (deviceWrite file call).1.offset.toNat = file.offset.toNat + call.length.toNat
  of_error : (deviceWrite file call).2 < 0 →
    (∀ address < diskSize.toNat,
        (deviceWrite file call).1.diskContent address = file.diskContent address) ∧
      (deviceWrite file call).1.offset = file.offset

/-- The bytes of the disk that the copy moves or fills with zeros are those that were there. -/
structure Unseen (file : DeviceFile) (call : WriteCall) : Prop where
  moved_eq : ∀ address < diskSize.toNat, file.offset.toNat ≤ address →
    address - file.offset.toNat < copied call.length.toNat call.fault →
      call.buffer (address - file.offset.toNat) = file.diskContent address
  filled_eq : ∀ address < diskSize.toNat, file.offset.toNat ≤ address →
    copied call.length.toNat call.fault ≤ address - file.offset.toNat →
      address - file.offset.toNat < call.length.toNat → call.zeroFill = true →
        file.diskContent address = 0

/-! ### What each kind of call leaves -/

/-- A copy leaves the disk as it was exactly when it is unseen. -/
theorem unseen_iff (file : DeviceFile) (call : WriteCall) :
    Unseen file call ↔ ∀ address < diskSize.toNat,
      copyFromUser file call address = file.diskContent address := by
  constructor
  · intro hunseen address hdisk
    unfold copyFromUser
    split_ifs with hlow
    · exact copiedCell_eq_old_iff.mpr
        ⟨hunseen.moved_eq address hdisk hlow, hunseen.filled_eq address hdisk hlow⟩
    · rfl
  · intro hsame
    have hcell : ∀ address < diskSize.toNat, file.offset.toNat ≤ address → _ :=
      fun address hdisk hlow ↦
        copiedCell_eq_old_iff.mp ((if_pos hlow).symm.trans (hsame address hdisk))
    exact ⟨fun address hdisk hlow ↦ (hcell address hdisk hlow).1,
      fun address hdisk hlow ↦ (hcell address hdisk hlow).2⟩

/-- A call whose result is a given negative error meets the contract when the disk and the offset
are as before. -/
theorem writeContract_iff_of_error {file next : DeviceFile} {call : WriteCall} {code : ℤ}
    (hresult : deviceWrite file call = (next, code)) (hcode : code < 0) :
    WriteContract file call ↔
      (∀ address < diskSize.toNat, next.diskContent address = file.diskContent address) ∧
        next.offset = file.offset := by
  constructor
  · intro hcontract
    have herror := hcontract.of_error
    rw [hresult] at herror
    exact herror hcode
  · intro hsame
    refine ⟨fun hlength ↦ ?_, fun _ ↦ ?_⟩
    · rw [hresult] at hlength
      exact absurd hlength (Int.not_le.mpr hcode)
    · rw [hresult]
      exact hsame

/-- A copy of the whole length meets the contract exactly when the offset is not behind the disk. -/
theorem writeContract_iff_of_copied {file : DeviceFile} {call : WriteCall}
    (hspace : ¬ diskSize - file.offset < call.length)
    (hresult : deviceWrite file call =
      (⟨memcpy file.diskContent file.offset.toNat call.buffer 0 call.length.toNat,
        file.offset + call.length⟩, call.length.toInt)) :
    WriteContract file call ↔ file.offset.toNat ≤ diskSize.toNat := by
  have hlength := BitVec.toInt_eq_toNat_cond call.length
  have hsize : diskSize.toNat = 16777216 := rfl
  constructor
  · intro hcontract
    by_contra hbehind
    rcases Int.lt_or_le call.length.toInt 0 with hneg | hnonneg
    · rw [writeContract_iff_of_error hresult hneg] at hcontract
      have hoffset := congrArg BitVec.toNat hcontract.2
      dsimp only at hoffset
      rw [BitVec.toNat_add] at hoffset
      have hbound := file.offset.isLt
      split_ifs at hlength <;> omega
    · have hinside := hcontract.of_length (by rw [hresult]; exact hnonneg)
      omega
  · intro hoffset
    have hinside := (not_freeSpace_lt_iff hoffset).mp hspace
    split_ifs at hlength with hsign
    · refine ⟨fun _ ↦ ?_, fun hneg ↦ ?_⟩
      · rw [hresult]
        refine ⟨hlength, hinside, rfl, ?_⟩
        rw [BitVec.toNat_add]
        omega
      · rw [hresult] at hneg
        dsimp only at hneg
        omega
    · omega

/-! ### Exactly when the contract is met -/

/-- For every disk, offset and call, with a fault anywhere or nowhere, `device_write` meets its
contract if and only if it refuses the call, or the copy faults and is unseen, or the copy does not
fault and the offset is not behind the disk. -/
theorem writeContract_iff (file : DeviceFile) (call : WriteCall) :
    WriteContract file call ↔
      diskSize - file.offset < call.length ∨
        (Faults call.length.toNat call.fault ∧ Unseen file call) ∨
        (¬ Faults call.length.toNat call.fault ∧ file.offset.toNat ≤ diskSize.toNat) := by
  rcases deviceWrite_cases file call with ⟨hspace, hresult⟩ | ⟨hspace, hfault, hresult⟩ |
    ⟨hspace, hfault, hresult⟩
  · rw [writeContract_iff_of_error hresult efault_neg]
    exact iff_of_true ⟨fun _ _ ↦ rfl, rfl⟩ (Or.inl hspace)
  · rw [writeContract_iff_of_error hresult efault_neg, or_iff_right hspace, unseen_iff,
      or_iff_left fun hcopied ↦ hcopied.1 hfault]
    exact ⟨fun hsame ↦ ⟨hfault, hsame.1⟩, fun hsame ↦ ⟨hsame.2, rfl⟩⟩
  · rw [writeContract_iff_of_copied hspace hresult, or_iff_right hspace,
      or_iff_right fun hfaults ↦ hfault hfaults.1, and_iff_right hfault]

/-- A write of one byte just behind the disk returns one. -/
def writeBehindDisk : DeviceFile × WriteCall :=
  (⟨fun _ ↦ 0, 16777217⟩, ⟨fun _ ↦ 7, 1, none, false⟩)

/-- A write of two bytes to the start of the disk whose copy faults at the second byte. -/
def halfWrite : DeviceFile × WriteCall :=
  (⟨fun _ ↦ 0, 0⟩, ⟨fun _ ↦ 7, 2, some 1, false⟩)

/-- A write behind the end of the disk succeeds, and one that fails has changed the first byte. -/
theorem not_writeContract :
    ¬ WriteContract writeBehindDisk.1 writeBehindDisk.2 ∧
      ¬ WriteContract halfWrite.1 halfWrite.2 := by
  refine ⟨fun hcontract ↦ ?_, fun hcontract ↦ ?_⟩
  · exact absurd (hcontract.of_length (by decide)).2.1 (by decide)
  · exact absurd ((hcontract.of_error (by decide)).1 0 (by decide)) (by decide)

end KernelExperiments.BlockDevice
