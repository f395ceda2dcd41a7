import KernelExperiments.Ramdisk.Completion
import Mathlib.Algebra.Order.Ring.Int
import Mathlib.Data.Int.ConditionallyCompleteOrder
import Mathlib.Order.ConditionallyCompleteLattice.Basic
import Mathlib.Order.Interval.Set.LinearOrder

/-!
# How far the range check can be trusted

The range check is sound on a segment when a copy is made only if the bytes of the segment, as an
interval of integers, lie inside the disk, and the copy then touches exactly these bytes
(`Completion.Sound`).

The products the check compares keep `pos` and the number of sectors modulo `2 ^ 23` only, the
number as a signed residue (`pastDisk_iff`): a position of `2 ^ 23` sectors is the position zero to
it, and `2 ^ 22` sectors are `2 ^ 31` bytes, a negative `size`. Below these limits the check is the
comparison of integers. Beyond them no nonempty segment is inside the disk, for a disk is smaller
than `2 ^ 31` bytes, and the check is sound only when it rejects what is left of the two numbers.
`completions_sound_iff` says so of every segment of every queue.
-/

set_option autoImplicit false
set_option relaxedAutoImplicit false

namespace KernelExperiments.Ramdisk

open Foundation

/-! ### Intervals of bytes -/

/-- The bytes of the sectors `[pos, pos + nrSectors)`, in unbounded integers. -/
def exactBytes (pos : BitVec 64) (nrSectors : BitVec 32) : Set ℤ :=
  Set.Ico (pos.toNat * 512 : ℤ) ((pos.toNat + nrSectors.toNat) * 512 : ℤ)

/-- The bytes of the disk. -/
def diskBytes (diskSize : BitVec 32) : Set ℤ := Set.Ico 0 diskSize.toInt

/-- The bytes of the ramdisk area that a copy touches. -/
def Transfer.bytes (transfer : Transfer) : Set ℤ :=
  Set.Ico (transfer.offset : ℤ) (transfer.offset + transfer.length : ℤ)

/-- A copy was made for the segment only if its bytes lie inside the disk, and it touched exactly
these. -/
def Completion.Sound (diskSize : BitVec 32) (completion : Completion) : Prop :=
  ∀ transfer, completion.transfer = some transfer →
    exactBytes completion.pos completion.segment.sectors ⊆ diskBytes diskSize ∧
      transfer.bytes = exactBytes completion.pos completion.segment.sectors

/-! ### What the products keep -/

/-- The end of a segment in sectors as the products keep it: the position modulo `2 ^ 23` and the
number of sectors as a signed residue modulo `2 ^ 23`. -/
def wrappedEnd (pos : BitVec 64) (nrSectors : BitVec 32) : ℤ :=
  (pos.toNat % 0x800000 : ℕ) + Int.bmod nrSectors.toNat 0x800000

/-- The condition on a segment under which the range check can be trusted: it is empty, or nothing
of its position and its length is lost, or what is left of them is behind the disk. -/
def Trusted (diskSize : BitVec 32) (pos : BitVec 64) (nrSectors : BitVec 32) : Prop :=
  nrSectors = 0 ∨ pos.toNat < 0x800000 ∧ nrSectors.toNat < 0x400000 ∨
    diskSize.toInt < wrappedEnd pos nrSectors * 512

instance decidableTrusted (diskSize : BitVec 32) (pos : BitVec 64) (nrSectors : BitVec 32) :
    Decidable (Trusted diskSize pos nrSectors) :=
  inferInstanceAs (Decidable (_ ∨ _))

/-- `sector * sector_size` keeps the position modulo `2 ^ 23`. -/
theorem sectorOffset_toNat_mod (pos : BitVec 64) :
    (sectorOffset pos).toNat = pos.toNat % 0x800000 * 512 := by
  rw [sectorOffset, BitVec.toNat_mul, BitVec.toNat_setWidth]
  change pos.toNat % 0x100000000 * 512 % 0x100000000 = _
  omega

/-- `size` keeps the number of sectors as a signed residue modulo `2 ^ 23`. -/
theorem segmentBytes_toInt_bmod (nrSectors : BitVec 32) :
    (segmentBytes nrSectors).toInt = Int.bmod nrSectors.toNat 0x800000 * 512 := by
  have hnat : (segmentBytes nrSectors).toNat = nrSectors.toNat * 512 % 0x100000000 := by
    rw [segmentBytes, BitVec.toNat_mul]
    rfl
  rw [BitVec.toInt_eq_toNat_bmod, hnat]
  change Int.bmod _ 0x100000000 = _
  rw [Int.bmod_def, Int.bmod_def]
  omega

/-- The range check compares the end of the segment as the products keep it. -/
theorem pastDisk_iff (diskSize : BitVec 32) (pos : BitVec 64) (nrSectors : BitVec 32) :
    pastDisk diskSize pos nrSectors ↔ diskSize.toInt < wrappedEnd pos nrSectors * 512 := by
  unfold pastDisk wrappedEnd
  rw [sectorOffset_toNat_mod, segmentBytes_toInt_bmod]
  omega

/-- Below the limits the end of a segment is kept as it is. -/
theorem wrappedEnd_of_lt {pos : BitVec 64} {nrSectors : BitVec 32} (hpos : pos.toNat < 0x800000)
    (hsectors : nrSectors.toNat < 0x400000) :
    wrappedEnd pos nrSectors = pos.toNat + nrSectors.toNat := by
  unfold wrappedEnd
  rw [Int.bmod_def]
  omega

/-- A nonempty segment inside the disk is below the limits. -/
theorem lt_of_exactBytes_subset {diskSize : BitVec 32} {pos : BitVec 64} {nrSectors : BitVec 32}
    (hsectors : nrSectors ≠ 0) (hinside : exactBytes pos nrSectors ⊆ diskBytes diskSize) :
    pos.toNat < 0x800000 ∧ nrSectors.toNat < 0x400000 := by
  have hsize : 2 * diskSize.toInt < 0x100000000 := BitVec.two_mul_toInt_lt
  have hpositive : 0 < nrSectors.toNat :=
    Nat.pos_of_ne_zero fun hzero ↦ hsectors (BitVec.eq_of_toNat_eq hzero)
  have hend := ((Set.Ico_subset_Ico_iff (by omega)).mp hinside).2
  omega

/-! ### Served segments -/

/-- The range of the ramdisk area that a copy for the segment touches. -/
def copyRange (pos : BitVec 64) (nrSectors : BitVec 32) : Transfer :=
  ⟨(sectorOffset pos).toNat, ((segmentBytes nrSectors).signExtend 64).toNat⟩

/-- A served segment is copied exactly when it is not past the disk. -/
theorem transfer_transferSegment (diskSize : BitVec 32) (res : ℤ) (ramdisk : Memory)
    (direction : Direction) (pos : BitVec 64) (segment : Segment) :
    (transferSegment diskSize res ramdisk direction pos segment).2.transfer =
      if pastDisk diskSize pos segment.sectors then none
      else some (copyRange pos segment.sectors) := by
  unfold transferSegment
  split_ifs with hpast
  · rfl
  · cases direction <;> rfl

/-- The completion of a segment that was visited in a queue is sound exactly when the segment is
past the disk, or inside it and copied as it is. -/
theorem sound_visitCompletion_iff (diskSize : BitVec 32) (ramdisk : Memory) (visit : Visit) :
    (visitCompletion diskSize ramdisk visit).Sound diskSize ↔
      pastDisk diskSize visit.pos visit.segment.sectors ∨
        exactBytes visit.pos visit.segment.sectors ⊆ diskBytes diskSize ∧
          (copyRange visit.pos visit.segment.sectors).bytes =
            exactBytes visit.pos visit.segment.sectors := by
  obtain ⟨-, hpos, hsectors, -⟩ := visitCompletion_fields diskSize ramdisk visit
  have htransfer : (visitCompletion diskSize ramdisk visit).transfer = _ :=
    transfer_transferSegment diskSize 0 ramdisk visit.direction visit.pos visit.segment
  unfold Completion.Sound
  rw [hpos, hsectors, htransfer]
  by_cases hpast : pastDisk diskSize visit.pos visit.segment.sectors
  · rw [if_pos hpast]
    refine iff_of_true ?_ (Or.inl hpast)
    intro transfer hnone
    cases hnone
  · rw [if_neg hpast, or_iff_right hpast]
    constructor
    · intro hsound
      exact hsound _ rfl
    · intro hinside transfer hsome
      rwa [← Option.some.inj hsome]

/-- The range of an empty segment is empty. -/
theorem bytes_copyRange_of_empty (pos : BitVec 64) :
    (copyRange pos 0).bytes = ∅ ∧ exactBytes pos 0 = ∅ := by
  have hlength : ((segmentBytes 0).signExtend 64).toNat = 0 := rfl
  have hsectors : (0 : BitVec 32).toNat = 0 := rfl
  refine ⟨Set.Ico_eq_empty ?_, Set.Ico_eq_empty ?_⟩
  · unfold copyRange
    dsimp only
    rw [hlength]
    omega
  · rw [hsectors]
    omega

/-- Below the limits the copy touches the bytes of the segment. -/
theorem bytes_copyRange_of_lt {pos : BitVec 64} {nrSectors : BitVec 32}
    (hpos : pos.toNat < 0x800000) (hsectors : nrSectors.toNat < 0x400000) :
    (copyRange pos nrSectors).bytes = exactBytes pos nrSectors := by
  have hoffset : (sectorOffset pos).toNat = 512 * pos.toNat := sectorOffset_toNat (by omega)
  have hlength : ((segmentBytes nrSectors).signExtend 64).toNat = 512 * nrSectors.toNat :=
    segmentBytes_signExtend_toNat (by omega)
  unfold Transfer.bytes copyRange exactBytes
  rw [hoffset, hlength]
  dsimp only
  congr 1 <;> omega

/-- Serving a segment is sound exactly when the range check can be trusted on it. -/
theorem sound_visitCompletion_iff_trusted (diskSize : BitVec 32) (ramdisk : Memory)
    (visit : Visit) :
    (visitCompletion diskSize ramdisk visit).Sound diskSize ↔
      Trusted diskSize visit.pos visit.segment.sectors := by
  obtain ⟨direction, pos, nrSectors, buffer⟩ := visit
  rw [sound_visitCompletion_iff, pastDisk_iff]
  unfold Trusted
  dsimp only
  constructor
  · rintro (hpast | ⟨hinside, -⟩)
    · exact Or.inr (Or.inr hpast)
    · by_cases hempty : nrSectors = 0
      · exact Or.inl hempty
      · exact Or.inr (Or.inl (lt_of_exactBytes_subset hempty hinside))
  · rintro (hempty | ⟨hpos, hsectors⟩ | hpast)
    · obtain ⟨hcopy, hexact⟩ := bytes_copyRange_of_empty pos
      rw [hempty, hcopy, hexact]
      exact Or.inr ⟨Set.empty_subset _, rfl⟩
    · rw [wrappedEnd_of_lt hpos hsectors, bytes_copyRange_of_lt hpos hsectors]
      by_cases hpast : diskSize.toInt < (pos.toNat + nrSectors.toNat) * 512
      · exact Or.inl hpast
      · exact Or.inr ⟨Set.Ico_subset_Ico (by omega) (by omega), rfl⟩
    · exact Or.inl hpast

/-! ### Exactly when the check is sound -/

/-- Every copy that `my_request` makes for a queue is of bytes inside the disk, and touches exactly
the bytes of its segment, if and only if the range check can be trusted on every segment. -/
theorem completions_sound_iff (diskSize : BitVec 32) (ramdisk : Memory) (queue : List Request) :
    (∀ completion ∈ (myRequest diskSize ramdisk queue).completions, completion.Sound diskSize) ↔
      ∀ visit ∈ queue.flatMap Request.visits,
        Trusted diskSize visit.pos visit.segment.sectors := by
  have hcompletions : (myRequest diskSize ramdisk queue).completions =
      outputs (serveVisit diskSize) (visitCompletion diskSize) ramdisk
        (queue.flatMap Request.visits) := by
    rw [myRequest_eq]
    exact servedRequests_flatMap_completions diskSize ramdisk queue
  rw [hcompletions, forall_mem_outputs_iff, ← along_iff_forall_mem (serveVisit diskSize)]
  exact along_congr (sound_visitCompletion_iff_trusted diskSize)

/-- On the driver loaded with one megabyte, a write of one sector at sector `2 ^ 23` reaches the
first sector of the disk. -/
theorem not_sound_wrapped_position :
    ¬ ∀ completion ∈ (myRequest megabyteDriver.diskSize megabyteDriver.ramdisk
        [⟨.write, 0x800000, ⟨1, fun _ ↦ 7⟩, []⟩]).completions,
      completion.Sound megabyteDriver.diskSize := by
  intro hsound
  have hmem : (⟨.write, 0x800000, ⟨1, fun _ ↦ 7⟩, some ⟨0, 512⟩, 0⟩ : Completion) ∈
      (myRequest megabyteDriver.diskSize megabyteDriver.ramdisk
        [⟨.write, 0x800000, ⟨1, fun _ ↦ 7⟩, []⟩]).completions := by
    rw [myRequest_eq]
    exact List.mem_singleton.mpr rfl
  have htouched : (0 : ℤ) ∈ exactBytes 0x800000 1 := by
    rw [← (hsound _ hmem ⟨0, 512⟩ rfl).2]
    exact Set.mem_Ico.mpr (by decide)
  revert htouched
  exact fun hmem ↦ absurd (Set.mem_Ico.mp hmem).1 (by decide)

end KernelExperiments.Ramdisk
