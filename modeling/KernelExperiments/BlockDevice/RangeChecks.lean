import KernelExperiments.BlockDevice.DeviceFile

/-!
# The two range checks of the multiqueue block device

`device_read` and `requestHandler` each compare the end of a range, computed in wrapping arithmetic,
with `DISK_SIZE`. Whatever they let pass should be a range inside the disk, and what `device_read`
copies should be all of it and fit into the one page it mapped (`ReadSound`, `HandlerSound`).

Both sums are sums of multiples of 512 modulo `2 ^ 64`, so they are the sums of sectors modulo
`2 ^ 55` (`diskSize_lt_sector_end_iff`, `diskSize_lt_request_end_iff`), and a range that begins far
behind the disk can wrap to its beginning. Nothing limits a read to the eight sectors of a page.
-/

set_option autoImplicit false
set_option relaxedAutoImplicit false

namespace KernelExperiments.BlockDevice

open Foundation

/-! ### Soundness of the checks -/

/-- Every byte of the sectors `[first, first + count)` is a byte of the disk, in unbounded
integers. -/
def InsideDisk (first count : ℕ) : Prop :=
  ∀ byte, 512 * first ≤ byte → byte < 512 * (first + count) → byte < diskSize.toNat

/-- Whenever `device_read` copies, the exact range lies inside the disk, its whole length is copied,
and it fits into the page. -/
structure ReadSound (diskContent page : Memory) (sector : BitVec 64) (nsectors : BitVec 32) :
    Prop where
  inside : ∀ copy, (deviceRead diskContent page sector nsectors).copy = some copy →
    InsideDisk sector.toNat nsectors.toNat
  length_eq : ∀ copy, (deviceRead diskContent page sector nsectors).copy = some copy →
    copy.length = 512 * nsectors.toNat
  fits : ∀ copy, (deviceRead diskContent page sector nsectors).copy = some copy →
    copy.length ≤ 4096

/-- Whenever `requestHandler` ends its request with `BLK_STS_OK`, the exact range of the request
lies inside the disk. -/
def HandlerSound (state : DeviceState) (dispatch : Dispatch) : Prop :=
  (requestHandler state dispatch).1.events.getLast? =
      some (.finish dispatch.allocated.tag .ok) →
    InsideDisk dispatch.allocated.pos.toNat dispatch.allocated.sectors.toNat

/-- A range lies inside the disk when it is empty or ends there. -/
theorem insideDisk_iff (first count : ℕ) :
    InsideDisk first count ↔ count = 0 ∨ first + count ≤ 32768 := by
  have hsize : diskSize.toNat = 16777216 := rfl
  unfold InsideDisk
  rw [hsize]
  constructor
  · intro hinside
    rcases Nat.eq_zero_or_pos count with hzero | hpos
    · exact Or.inl hzero
    · have hlast := hinside (512 * (first + count) - 1) (by omega) (by omega)
      exact Or.inr (by omega)
  · intro hcases byte hlow hhigh
    omega

/-! ### Reads -/

/-- `device_read` copies exactly when the wrapped end of the range is not behind the disk. -/
theorem deviceRead_copy (diskContent page : Memory) (sector : BitVec 64) (nsectors : BitVec 32) :
    (deviceRead diskContent page sector nsectors).copy =
      if 32768 < (sector.toNat + nsectors.toNat % 8388608) % 36028797018963968 then none
      else some ⟨512 * (sector.toNat % 36028797018963968), 512 * (nsectors.toNat % 8388608)⟩ := by
  have hiff := diskSize_lt_sector_end_iff sector nsectors
  unfold deviceRead
  dsimp only
  by_cases hbehind : diskSize < sector * 512 + (nsectors * 512).setWidth 64
  · rw [if_pos hbehind, if_pos (hiff.mp hbehind)]
  · rw [if_neg hbehind, if_neg fun hlt ↦ hbehind (hiff.mpr hlt)]
    dsimp only
    rw [toNat_sector_mul, toNat_nsectors_mul]

/-- The check of `device_read` is sound exactly for the ranges it refuses and for ranges of at most
eight sectors inside the disk. -/
theorem readSound_iff (diskContent page : Memory) (sector : BitVec 64) (nsectors : BitVec 32) :
    ReadSound diskContent page sector nsectors ↔
      32768 < (sector.toNat + nsectors.toNat % 8388608) % 36028797018963968 ∨
        nsectors.toNat ≤ 8 ∧ (nsectors.toNat = 0 ∨ sector.toNat + nsectors.toNat ≤ 32768) := by
  have hcopy := deviceRead_copy diskContent page sector nsectors
  by_cases hbehind : 32768 < (sector.toNat + nsectors.toNat % 8388608) % 36028797018963968
  · rw [if_pos hbehind] at hcopy
    refine iff_of_true ⟨?_, ?_, ?_⟩ (Or.inl hbehind) <;> exact fun _ hsome ↦ by cases hcopy ▸ hsome
  · rw [if_neg hbehind] at hcopy
    rw [or_iff_right hbehind, ← insideDisk_iff]
    constructor
    · rintro ⟨hinside, hlength, hfits⟩
      have hexact := hlength _ hcopy
      have hpage := hfits _ hcopy
      dsimp only at hexact hpage
      exact ⟨by omega, hinside _ hcopy⟩
    · rintro ⟨hcount, hinside⟩
      refine ⟨fun _ _ ↦ hinside, fun copy hsome ↦ ?_, fun copy hsome ↦ ?_⟩
      · cases hcopy.symm.trans hsome
        dsimp only
        omega
      · cases hcopy.symm.trans hsome
        dsimp only
        omega

/-! ### Requests -/

/-- The end of the range of a request, computed in wrapping arithmetic, is behind the disk exactly
when its last sector is, modulo `2 ^ 55`. -/
theorem diskSize_lt_request_end_iff (request : Request) :
    diskSize < request.pos * sectorSize + request.sectors.setWidth 64 * sectorSize ↔
      32768 < (request.pos.toNat + request.sectors.toNat) % 36028797018963968 := by
  have hsectors := request.sectors.isLt
  have hoffset : (request.pos * sectorSize).toNat =
      512 * (request.pos.toNat % 36028797018963968) := toNat_sector_mul request.pos
  have hbytes : (request.sectors.setWidth 64 * sectorSize).toNat =
      512 * request.sectors.toNat := by
    rw [BitVec.toNat_mul, BitVec.toNat_setWidth]
    change request.sectors.toNat % 18446744073709551616 * 512 % 18446744073709551616 = _
    omega
  rw [BitVec.lt_def, BitVec.toNat_add, hoffset, hbytes]
  change 16777216 < _ % 18446744073709551616 ↔ _
  omega

/-- The handler ends its request with `BLK_STS_OK` when it is a read or a write whose wrapped end is
not behind the disk. -/
theorem getLast_events_requestHandler (state : DeviceState) (dispatch : Dispatch) :
    (requestHandler state dispatch).1.events.getLast? =
        some (.finish dispatch.allocated.tag .ok) ↔
      (dispatch.allocated.dataDir = readDir ∨ dispatch.allocated.dataDir = writeDir) ∧
        ¬ 32768 < (dispatch.allocated.pos.toNat + dispatch.allocated.sectors.toNat) %
          36028797018963968 := by
  rw [← diskSize_lt_request_end_iff]
  unfold requestHandler
  dsimp only
  rw [List.getLast?_concat]
  by_cases hread : dispatch.allocated.dataDir = readDir
  · simp [hread]
  · by_cases hwrite : dispatch.allocated.dataDir = writeDir
    · simp [hwrite]
    · simp [hread, hwrite]

/-- The check of `requestHandler` is sound exactly for the requests it ends with an error, for empty
ones and for those inside the disk. -/
theorem handlerSound_iff (state : DeviceState) (dispatch : Dispatch) :
    HandlerSound state dispatch ↔
      ¬ (dispatch.allocated.dataDir = readDir ∨ dispatch.allocated.dataDir = writeDir) ∨
        32768 < (dispatch.allocated.pos.toNat + dispatch.allocated.sectors.toNat) %
          36028797018963968 ∨
        dispatch.allocated.sectors.toNat = 0 ∨
        dispatch.allocated.pos.toNat + dispatch.allocated.sectors.toNat ≤ 32768 := by
  unfold HandlerSound
  rw [getLast_events_requestHandler, insideDisk_iff, imp_iff_not_or, not_and_or, not_not, or_assoc]

/-! ### Exactly when both are sound -/

/-- For every range and for every dispatched request, `device_read` is sound if and only if it
refuses the range, by the sum of the sectors modulo `2 ^ 23` and `2 ^ 55`, or the range is of at
most eight sectors and empty or inside the disk; and `requestHandler` is sound if and only if it
refuses the request, by the sum of the sectors modulo `2 ^ 55`, or the request is empty or inside
the disk. -/
theorem rangeChecks_sound_iff (diskContent page : Memory) (sector : BitVec 64)
    (nsectors : BitVec 32) (state : DeviceState) (dispatch : Dispatch) :
    (ReadSound diskContent page sector nsectors ↔
      32768 < (sector.toNat + nsectors.toNat % 8388608) % 36028797018963968 ∨
        nsectors.toNat ≤ 8 ∧ (nsectors.toNat = 0 ∨ sector.toNat + nsectors.toNat ≤ 32768)) ∧
    (HandlerSound state dispatch ↔
      ¬ (dispatch.allocated.dataDir = readDir ∨ dispatch.allocated.dataDir = writeDir) ∨
        32768 < (dispatch.allocated.pos.toNat + dispatch.allocated.sectors.toNat) %
          36028797018963968 ∨
        dispatch.allocated.sectors.toNat = 0 ∨
        dispatch.allocated.pos.toNat + dispatch.allocated.sectors.toNat ≤ 32768) :=
  ⟨readSound_iff diskContent page sector nsectors, handlerSound_iff state dispatch⟩

/-- A read of sixteen sectors from the start of the disk is copied over the end of the page, and a
read and a request of one sector at sector `2 ^ 55` pass as if they were at the start. -/
theorem not_rangeChecks_sound :
    ¬ ReadSound (fun _ ↦ 0) (fun _ ↦ 0) 0 16 ∧
      ¬ ReadSound (fun _ ↦ 0) (fun _ ↦ 0) 0x80000000000000 1 ∧
      ¬ HandlerSound ⟨fun _ ↦ 0, fun _ _ ↦ 0, []⟩
        ⟨⟨0, readDir, 0, 1, fun _ ↦ 0⟩, ⟨1, readDir, 0x80000000000000, 1, fun _ ↦ 0⟩⟩ := by
  refine ⟨fun hsound ↦ ?_, fun hsound ↦ ?_, fun hsound ↦ ?_⟩
  · exact absurd (hsound.fits ⟨0, 8192⟩ rfl) (by decide)
  · exact absurd (hsound.inside ⟨0, 512⟩ rfl 18446744073709551616 (by decide) (by decide))
      (by decide)
  · exact absurd (hsound (by decide) 18446744073709551616 (by decide) (by decide)) (by decide)

end KernelExperiments.BlockDevice
