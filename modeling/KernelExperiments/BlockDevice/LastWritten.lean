import KernelExperiments.BlockDevice.DeviceFile
import KernelExperiments.Foundation.WriteLog

/-!
# Sectors read back what was last written to their bytes

`device_write` addresses the disk in bytes and `device_read` in sectors. After any calls of both,
whose writes succeed at offsets within the disk, a read of sectors that lie inside the disk and fit
into a page puts into the page, byte for byte, what was last written there, whatever the writes
overlap (`deviceRead_page_eq_lastWritten`).

A successful write is a `Write` of the log of writes (`deviceStep_eq_applyLogged`), so a run of
calls is a run of its writes, and what that leaves is `lastWritten`.
-/

set_option autoImplicit false
set_option relaxedAutoImplicit false

namespace KernelExperiments.BlockDevice

open Foundation

/-! ### Calls of the device functions -/

/-- A call of one of the two functions: a write at an offset, or a read of sectors into a page. -/
inductive DeviceCall
  | write (offset : BitVec 64) (call : WriteCall)
  | read (sector : BitVec 64) (nsectors : BitVec 32) (page : Memory)

/-- The disk that a call of `device_write` leaves. -/
def diskAfterWrite (result : DeviceFile × ℤ) : Memory := result.1.diskContent

/-- The disk that a call of `device_read` leaves. -/
def diskAfterRead (result : ReadResult) : Memory := result.diskContent

/-- The disk after a call. -/
def deviceStep (diskContent : Memory) : DeviceCall → Memory
  | .write offset call => diskAfterWrite (deviceWrite ⟨diskContent, offset⟩ call)
  | .read sector nsectors page => diskAfterRead (deviceRead diskContent page sector nsectors)

/-- The sectors lie inside the disk and fit into one page. -/
def PageRange (sector : BitVec 64) (nsectors : BitVec 32) : Prop :=
  512 * (sector.toNat + nsectors.toNat) ≤ diskSize.toNat ∧ 512 * nsectors.toNat ≤ 4096

instance decidablePageRange (sector : BitVec 64) (nsectors : BitVec 32) :
    Decidable (PageRange sector nsectors) :=
  inferInstanceAs (Decidable (_ ∧ _))

/-- A write is at an offset within the disk and succeeds, and a read fits into its page. -/
def DeviceCall.Allowed (diskContent : Memory) : DeviceCall → Prop
  | .write offset call =>
    offset.toNat ≤ diskSize.toNat ∧ 0 ≤ (deviceWrite ⟨diskContent, offset⟩ call).2
  | .read sector nsectors _ => PageRange sector nsectors

instance decidableAllowed (diskContent : Memory) :
    (call : DeviceCall) → Decidable (call.Allowed diskContent)
  | .write _ _ => inferInstanceAs (Decidable (_ ∧ _))
  | .read sector nsectors _ => decidablePageRange sector nsectors

/-- What a call enters into the log of writes: the bytes of a write. -/
def DeviceCall.logged : DeviceCall → Option (Write UInt8)
  | .write offset call => some ⟨offset.toNat, call.length.toNat, call.buffer⟩
  | .read _ _ _ => none

/-! ### Writes as entries of the log -/

/-- A write that succeeds copies the whole length. -/
theorem deviceWrite_of_success {file : DeviceFile} {call : WriteCall}
    (hret : 0 ≤ (deviceWrite file call).2) :
    deviceWrite file call =
      (⟨memcpy file.diskContent file.offset.toNat call.buffer 0 call.length.toNat,
        file.offset + call.length⟩, call.length.toInt) := by
  rcases deviceWrite_cases file call with ⟨-, hresult⟩ | ⟨-, -, hresult⟩ | ⟨-, -, hresult⟩
  · rw [hresult] at hret
    exact absurd efault_neg (Int.not_lt.mpr hret)
  · rw [hresult] at hret
    exact absurd efault_neg (Int.not_lt.mpr hret)
  · exact hresult

/-- A read leaves the disk as it is. -/
theorem deviceStep_read (diskContent page : Memory) (sector : BitVec 64) (nsectors : BitVec 32) :
    deviceStep diskContent (.read sector nsectors page) = diskContent := by
  rw [deviceStep, deviceRead]
  by_cases hbehind : diskSize < sector * 512 + (nsectors * 512).setWidth 64
  · rw [if_pos hbehind]
    rfl
  · rw [if_neg hbehind]
    rfl

/-- An allowed call does to the disk what its entry in the log says. -/
theorem deviceStep_eq_applyLogged (diskContent : Memory) {call : DeviceCall}
    (hallowed : call.Allowed diskContent) :
    deviceStep diskContent call = run applyWrite diskContent call.logged.toList := by
  cases call with
  | write offset call =>
    rw [deviceStep, deviceWrite_of_success hallowed.2]
    rfl
  | read sector nsectors page => exact deviceStep_read diskContent page sector nsectors

/-- A run of allowed calls leaves the disk that its log of writes leaves. -/
theorem run_deviceStep_eq (diskContent : Memory) (calls : List DeviceCall)
    (hallowed : Along deviceStep (fun disk call ↦ call.Allowed disk) diskContent calls) :
    run deviceStep diskContent calls =
      run applyWrite diskContent (calls.filterMap DeviceCall.logged) := by
  induction calls generalizing diskContent with
  | nil => rfl
  | cons call rest ih =>
    obtain ⟨hfirst, hrest⟩ := hallowed
    have hstep := deviceStep_eq_applyLogged diskContent hfirst
    rw [run_cons, ih _ hrest, hstep]
    cases hlogged : call.logged with
    | none => rw [List.filterMap_cons_none hlogged, Option.toList_none, run_nil]
    | some write => rw [List.filterMap_cons_some hlogged, Option.toList_some, run_cons, run_cons,
        run_nil]

/-! ### Reads -/

/-- A read of sectors inside the disk copies them to the beginning of the page, and nothing else
changes. -/
theorem deviceRead_of_pageRange (diskContent page : Memory) {sector : BitVec 64}
    {nsectors : BitVec 32} (hrange : PageRange sector nsectors) :
    deviceRead diskContent page sector nsectors =
      ⟨512 * nsectors.toNat, diskContent,
        memcpy page 0 diskContent (512 * sector.toNat) (512 * nsectors.toNat),
        some ⟨512 * sector.toNat, 512 * nsectors.toNat⟩⟩ := by
  obtain ⟨hinside, hpage⟩ := hrange
  have hsize : diskSize.toNat = 16777216 := rfl
  have hoffset : (sector * 512).toNat = 512 * sector.toNat := by
    rw [toNat_sector_mul]
    omega
  have hlength : ((nsectors * 512).setWidth 64).toNat = 512 * nsectors.toNat := by
    rw [toNat_nsectors_mul]
    omega
  have hret : (((nsectors * 512).setWidth 64).setWidth 32).toInt = 512 * nsectors.toNat := by
    have hnat : (((nsectors * 512).setWidth 64).setWidth 32).toNat = 512 * nsectors.toNat := by
      rw [BitVec.toNat_setWidth, hlength]
      omega
    rw [BitVec.toInt_eq_toNat_of_lt (by omega), hnat]
    omega
  have haccepted : ¬ diskSize < sector * 512 + (nsectors * 512).setWidth 64 := by
    rw [diskSize_lt_sector_end_iff]
    omega
  unfold deviceRead
  dsimp only
  rw [if_neg haccepted, hoffset, hlength, hret]

/-! ### Agreement -/

/-- Bytes written and sectors read agree. Assumes: in a sequence of calls of both functions on the
disk, every write succeeds at an offset within the disk, and every read is inside the disk and of at
most a page. A further such read returns its length, leaves the disk as it is, and puts into the
page at each position of its range the byte last written there, or the byte that the disk held
before the calls; the rest of the page stays. -/
theorem deviceRead_page_eq_lastWritten (initial : Memory) {calls : List DeviceCall}
    (hallowed : Along deviceStep (fun disk call ↦ call.Allowed disk) initial calls)
    (page : Memory) {sector : BitVec 64} {nsectors : BitVec 32}
    (hrange : PageRange sector nsectors) :
    (deviceRead (run deviceStep initial calls) page sector nsectors).ret =
        512 * nsectors.toNat ∧
      (deviceRead (run deviceStep initial calls) page sector nsectors).diskContent =
        run deviceStep initial calls ∧
      (∀ index < 512 * nsectors.toNat,
        (deviceRead (run deviceStep initial calls) page sector nsectors).page index =
          lastWritten initial (calls.filterMap DeviceCall.logged) (512 * sector.toNat + index)) ∧
      ∀ index, 512 * nsectors.toNat ≤ index →
        (deviceRead (run deviceStep initial calls) page sector nsectors).page index =
          page index := by
  have hdisk := run_deviceStep_eq initial calls hallowed
  rw [run_applyWrite] at hdisk
  rw [deviceRead_of_pageRange _ page hrange]
  refine ⟨rfl, rfl, fun index hindex ↦ ?_, fun index hindex ↦ ?_⟩
  · dsimp only
    rw [memcpy_of_mem (Nat.zero_le index) (by omega), hdisk, Nat.sub_zero]
  · exact if_neg fun hmem ↦ absurd hmem.2 (by omega)

/-- Two overlapping writes that are not aligned to sectors, and a read between them. -/
def overlappingCalls : List DeviceCall :=
  [.write 510 ⟨fun _ ↦ 7, 4, none, false⟩, .read 0 2 fun _ ↦ 0,
    .write 512 ⟨fun _ ↦ 9, 1, none, false⟩]

/-- A read of the first two sectors after those calls finds the byte that both writes stored, and
its neighbours, as they were written last. -/
theorem overlappingCalls_page_eq :
    (deviceRead (run deviceStep (fun _ ↦ 0) overlappingCalls) (fun _ ↦ 0) 0 2).ret = 1024 ∧
      (deviceRead (run deviceStep (fun _ ↦ 0) overlappingCalls) (fun _ ↦ 0) 0 2).page 511 = 7 ∧
      (deviceRead (run deviceStep (fun _ ↦ 0) overlappingCalls) (fun _ ↦ 0) 0 2).page 512 = 9 ∧
      (deviceRead (run deviceStep (fun _ ↦ 0) overlappingCalls) (fun _ ↦ 0) 0 2).page 513 = 7 := by
  have hallowed : Along deviceStep (fun disk call ↦ call.Allowed disk) (fun _ ↦ 0)
      overlappingCalls := by decide
  have hrange : PageRange 0 2 := by decide
  have hread := deviceRead_page_eq_lastWritten (fun _ ↦ 0) hallowed (fun _ ↦ 0) hrange
  exact ⟨hread.1, (hread.2.2.1 511 (by decide)).trans rfl,
    (hread.2.2.1 512 (by decide)).trans rfl, (hread.2.2.1 513 (by decide)).trans rfl⟩

end KernelExperiments.BlockDevice
