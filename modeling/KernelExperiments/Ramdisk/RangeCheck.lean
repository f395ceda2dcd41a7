import KernelExperiments.Ramdisk.RequestLoop

/-!
# The range check on segments inside the disk

The range check compares products taken modulo `2 ^ 32`. On a segment that lies inside the disk as
an interval of natural numbers (`InsideDisk`) nothing wraps: both products are exact
(`sectorOffset_toNat`, `segmentBytes_toInt`), the check passes (`not_pastDisk`), and the copy
touches exactly the bytes of the segment (`transferSegment_of_inside`).

The position of a segment inside a request is tracked by the block layer modulo `2 ^ 64`.
`placeSegments` has the exact positions, and when all segments of a request lie inside the disk the
two agree (`segmentVisits_placed`).
-/

set_option autoImplicit false
set_option relaxedAutoImplicit false

namespace KernelExperiments.Ramdisk

open Foundation

/-! ### Exact products -/

/-- The sectors `[first, first + count)` lie inside a disk of `diskSize` bytes, as intervals of
integers. -/
def InsideDisk (diskSize : BitVec 32) (first count : ℕ) : Prop :=
  (512 * (first + count : ℕ) : ℤ) ≤ diskSize.toInt

instance decidableInsideDisk (diskSize : BitVec 32) (first count : ℕ) :
    Decidable (InsideDisk diskSize first count) :=
  inferInstanceAs (Decidable (_ ≤ _))

/-- The end of a segment inside the disk, in bytes, is below `2 ^ 31`. -/
theorem InsideDisk.lt {diskSize : BitVec 32} {first count : ℕ}
    (hinside : InsideDisk diskSize first count) : 512 * (first + count) < 2 ^ 31 := by
  have hsize : 2 * diskSize.toInt < 2 ^ 32 := BitVec.two_mul_toInt_lt
  unfold InsideDisk at hinside
  omega

/-- `sector * sector_size` is exact below `2 ^ 32`. -/
theorem sectorOffset_toNat {pos : BitVec 64} (hpos : 512 * pos.toNat < 2 ^ 32) :
    (sectorOffset pos).toNat = 512 * pos.toNat := by
  have hsector : (pos.setWidth 32).toNat = pos.toNat := by
    rw [BitVec.toNat_setWidth]
    omega
  rw [sectorOffset, BitVec.toNat_mul, hsector]
  change pos.toNat * 512 % 2 ^ 32 = _
  omega

/-- `nr_sectors * sector_size` is exact below `2 ^ 32`. -/
theorem segmentBytes_toNat {nrSectors : BitVec 32} (hsize : 512 * nrSectors.toNat < 2 ^ 32) :
    (segmentBytes nrSectors).toNat = 512 * nrSectors.toNat := by
  rw [segmentBytes, BitVec.toNat_mul]
  change nrSectors.toNat * 512 % 2 ^ 32 = _
  omega

/-- `size` is exact and not negative below `2 ^ 31`. -/
theorem segmentBytes_toInt {nrSectors : BitVec 32} (hsize : 512 * nrSectors.toNat < 2 ^ 31) :
    (segmentBytes nrSectors).toInt = 512 * nrSectors.toNat := by
  have hnat : (segmentBytes nrSectors).toNat = 512 * nrSectors.toNat :=
    segmentBytes_toNat (by omega)
  rw [BitVec.toInt_eq_toNat_of_lt (by omega), hnat]
  omega

/-- The conversion of `size` to `size_t` is exact below `2 ^ 31`. -/
theorem segmentBytes_signExtend_toNat {nrSectors : BitVec 32}
    (hsize : 512 * nrSectors.toNat < 2 ^ 31) :
    ((segmentBytes nrSectors).signExtend 64).toNat = 512 * nrSectors.toNat := by
  have hint := segmentBytes_toInt hsize
  have hext : ((segmentBytes nrSectors).signExtend 64).toInt = 512 * nrSectors.toNat := by
    rw [BitVec.toInt_signExtend_of_le (by omega), hint]
  rw [BitVec.toInt_eq_toNat_cond] at hext
  split_ifs at hext with hsign <;> omega

/-! ### Exact positions -/

/-- A segment at its first sector, a natural number. -/
structure PlacedSegment where
  first : ℕ
  segment : Segment

/-- The segments of a list from a sector on, each placed where the one before it ends. -/
def placeSegments : ℕ → List Segment → List PlacedSegment
  | _, [] => []
  | first, segment :: rest =>
    ⟨first, segment⟩ :: placeSegments (first + segment.sectors.toNat) rest

/-- The placed segments of a request. -/
def Request.placed (request : Request) : List PlacedSegment :=
  placeSegments request.pos.toNat request.segments

/-- The placed segment lies inside a disk of `diskSize` bytes. -/
def PlacedSegment.Inside (diskSize : BitVec 32) (placed : PlacedSegment) : Prop :=
  InsideDisk diskSize placed.first placed.segment.sectors.toNat

instance decidablePlacedInside (diskSize : BitVec 32) (placed : PlacedSegment) :
    Decidable (placed.Inside diskSize) :=
  inferInstanceAs (Decidable (InsideDisk _ _ _))

/-- A visit with its position as a natural number. -/
def Visit.placed (visit : Visit) : PlacedSegment := ⟨visit.pos.toNat, visit.segment⟩

/-- When all placed segments lie inside the disk, the positions the block layer advances to are
exact. -/
theorem segmentVisits_placed {diskSize : BitVec 32} (direction : Direction)
    (segments : List Segment) :
    ∀ pos : BitVec 64, (∀ placed ∈ placeSegments pos.toNat segments, placed.Inside diskSize) →
      (segmentVisits direction pos segments).map Visit.placed =
        placeSegments pos.toNat segments := by
  induction segments with
  | nil => exact fun _ _ ↦ rfl
  | cons segment rest ih =>
    intro pos hinside
    simp only [placeSegments, List.forall_mem_cons] at hinside
    obtain ⟨hfirst, hrest⟩ := hinside
    have hlt := hfirst.lt
    have hnext : (pos + segment.sectors.setWidth 64).toNat =
        pos.toNat + segment.sectors.toNat := by
      dsimp only at hlt
      rw [BitVec.toNat_add, BitVec.toNat_setWidth]
      omega
    rw [← hnext] at hrest
    simp only [segmentVisits, placeSegments, List.map_cons, ih _ hrest, hnext]
    rfl

/-- Every visit of a request whose segments lie inside the disk is inside the disk. -/
theorem inside_of_mem_visits {diskSize : BitVec 32} {request : Request}
    (hinside : ∀ placed ∈ request.placed, placed.Inside diskSize)
    {visit : Visit} (hvisit : visit ∈ request.visits) : visit.placed.Inside diskSize := by
  have hplaced := segmentVisits_placed request.direction request.segments request.pos hinside
  refine hinside visit.placed ?_
  rw [Request.placed, ← hplaced]
  exact List.mem_map_of_mem hvisit

/-! ### Segments inside the disk -/

/-- The range check passes on a segment inside the disk. -/
theorem not_pastDisk {diskSize : BitVec 32} {pos : BitVec 64} {nrSectors : BitVec 32}
    (hinside : InsideDisk diskSize pos.toNat nrSectors.toNat) :
    ¬ pastDisk diskSize pos nrSectors := by
  have hlt := hinside.lt
  unfold pastDisk
  rw [sectorOffset_toNat (by omega), segmentBytes_toInt (by omega)]
  unfold InsideDisk at hinside
  omega

/-- A segment inside the disk is copied, and the copy touches exactly its own bytes. -/
theorem transferSegment_of_inside {diskSize : BitVec 32} (res : ℤ) (ramdisk : Memory)
    (direction : Direction) {pos : BitVec 64} {segment : Segment}
    (hinside : InsideDisk diskSize pos.toNat segment.sectors.toNat) :
    transferSegment diskSize res ramdisk direction pos segment =
      match direction with
      | .write =>
        (memcpy ramdisk (512 * pos.toNat) segment.buffer (512 * 0) (512 * segment.sectors.toNat),
          ⟨.write, pos, segment, some ⟨512 * pos.toNat, 512 * segment.sectors.toNat⟩, res⟩)
      | .read =>
        (ramdisk,
          ⟨.read, pos, { segment with
            buffer := memcpy segment.buffer (512 * 0) ramdisk (512 * pos.toNat)
              (512 * segment.sectors.toNat) },
            some ⟨512 * pos.toNat, 512 * segment.sectors.toNat⟩, res⟩) := by
  have hlt := hinside.lt
  have hoffset : (sectorOffset pos).toNat = 512 * pos.toNat := sectorOffset_toNat (by omega)
  have hlength : ((segmentBytes segment.sectors).signExtend 64).toNat =
      512 * segment.sectors.toNat := segmentBytes_signExtend_toNat (by omega)
  simp only [transferSegment, if_neg (not_pastDisk hinside), hoffset, hlength]
  cases direction <;> rfl

end KernelExperiments.Ramdisk
