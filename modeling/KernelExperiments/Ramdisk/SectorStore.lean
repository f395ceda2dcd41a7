import KernelExperiments.Ramdisk.RangeCheck

/-!
# The ramdisk is a last-write-wins array of sectors

The purpose of the driver, in its own terms: an array of sectors of 512 bytes, on which a request is
a sequence of reads and writes of consecutive sectors, one for each segment (`Request.ops`). A
loaded driver that serves requests inside its capacity is that array. `myRequest_storesSectors` is
the refinement, with `blocks 512` as the abstraction function: no segment is rejected, no product
wraps, the memory read as sectors is the array after the operations in order, and the buffer of each
read holds the sectors the array held when its segment was served.

Three facts meet in it. `my_init` only succeeds with a positive disk size, because `vmalloc` has
nothing to give for size zero or for a negative size converted to `size_t`
(`diskSize_pos_of_myInit`). The capacity times the sector size is then at most the disk size
(`capacity_le_of_myInit`). And one served segment is one operation on the array
(`serveVisit_simulates`), which `run_simulation` carries through the queue.
-/

set_option autoImplicit false
set_option relaxedAutoImplicit false

namespace KernelExperiments.Ramdisk

open Foundation

/-! ### The abstract array -/

/-- The contents of a sector. -/
abbrev Sector := Fin 512 → UInt8

/-- A placed segment as an operation on the array of sectors. -/
def placedOp (direction : Direction) (placed : PlacedSegment) : BlockOp Sector :=
  match direction with
  | .read => .read placed.first placed.segment.sectors.toNat
  | .write => .write placed.first placed.segment.sectors.toNat (blocks 512 placed.segment.buffer)

/-- A request as operations on the array of sectors, one for each segment. -/
def Request.ops (request : Request) : List (BlockOp Sector) :=
  request.placed.map (placedOp request.direction)

/-- The sectors a completed read hands back in its buffer. -/
def Completion.received (completion : Completion) : List Sector :=
  match completion.direction with
  | .read => (List.range completion.segment.sectors.toNat).map
      (blocks 512 completion.segment.buffer)
  | .write => []

/-- All sectors of the request lie below the capacity. -/
def Request.InsideCapacity (capacity : BitVec 64) (request : Request) : Prop :=
  request.pos.toNat + (request.segments.map fun segment ↦ segment.sectors.toNat).sum ≤
    capacity.toNat

/-- The completed segments of a state of the loop, in order. -/
def LoopState.completions (state : LoopState) : List Completion :=
  state.completed.flatMap CompletedRequest.completions

/-- The segment was not rejected, and the two products computed for it, `sector * sector_size` and
the signed `size`, are those of the integers. -/
structure Completion.Exact (completion : Completion) : Prop where
  not_rejected : completion.transfer ≠ none
  offset_eq : (sectorOffset completion.pos).toNat = 512 * completion.pos.toNat
  size_eq : (segmentBytes completion.segment.sectors).toInt =
    512 * completion.segment.sectors.toNat

/-- `final` is the state in which a queue was served as an array of sectors, from the memory
`ramdisk` on. -/
structure StoresSectors (ramdisk : Memory) (queue : List Request) (final : LoopState) : Prop where
  drained : final.rq = none ∧ final.queue = [] ∧
    final.completed.map CompletedRequest.request = queue
  exact : ∀ completion ∈ final.completions, completion.Exact
  ramdisk_eq : blocks 512 final.ramdisk =
    run applyBlockOp (blocks 512 ramdisk) (queue.flatMap Request.ops)
  reads_eq : final.completions.map Completion.received =
    outputs applyBlockOp blockResult (blocks 512 ramdisk) (queue.flatMap Request.ops)

/-! ### What `my_init` guarantees -/

/-- `vmalloc` of an `int` converted to `size_t` only succeeds when the `int` is positive. -/
theorem Vmalloc.toInt_pos_of_alloc (vmalloc : Vmalloc) {size : BitVec 32} {memory : Memory}
    (halloc : vmalloc.alloc (size.signExtend 64) = some memory) : 0 < size.toInt := by
  have hextend : (size.signExtend 64).toInt = size.toInt :=
    BitVec.toInt_signExtend_of_le (by omega)
  have hbound : (size.signExtend 64).toNat ≤ vmalloc.machineBytes := by
    by_contra hlt
    rw [vmalloc.alloc_of_lt _ (by omega)] at halloc
    cases halloc
  have hmachine := vmalloc.machineBytes_lt
  have hint : (size.signExtend 64).toInt = (size.signExtend 64).toNat :=
    BitVec.toInt_eq_toNat_of_lt (by omega)
  rcases Nat.eq_zero_or_pos (size.signExtend 64).toNat with hzero | hpos
  · rw [BitVec.eq_of_toNat_eq (hzero.trans BitVec.toNat_zero.symm)] at halloc
    rw [show (0#64) = 0 from rfl, vmalloc.alloc_zero] at halloc
    cases halloc
  · omega

/-- A loaded driver has the size that `my_init` computed, the area that `vmalloc` returned for it,
and the capacity computed from it. -/
theorem driver_of_myInit {calls : InitCalls} {diskmb : BitVec 32} {driver : Driver}
    (hinit : (myInit calls diskmb).outcome = .ok driver) :
    driver.diskSize = diskmb * 1024 * 1024 ∧
      calls.vmalloc.alloc (driver.diskSize.signExtend 64) = some driver.ramdisk ∧
      driver.capacity = BitVec.ofInt 64 (driver.diskSize.toInt.tdiv 512) := by
  simp only [myInit] at hinit
  split at hinit
  · cases hinit
  · rename_i ramdisk halloc
    split_ifs at hinit
    cases hinit
    exact ⟨rfl, halloc, rfl⟩

/-- A loaded driver has a positive disk size and the capacity computed from it. -/
theorem diskSize_pos_of_myInit {calls : InitCalls} {diskmb : BitVec 32} {driver : Driver}
    (hinit : (myInit calls diskmb).outcome = .ok driver) :
    0 < driver.diskSize.toInt ∧
      driver.capacity = BitVec.ofInt 64 (driver.diskSize.toInt.tdiv 512) := by
  obtain ⟨-, halloc, hcapacity⟩ := driver_of_myInit hinit
  exact ⟨calls.vmalloc.toInt_pos_of_alloc halloc, hcapacity⟩

/-- The capacity given to `set_capacity` fits into the disk. -/
theorem capacity_le_of_myInit {calls : InitCalls} {diskmb : BitVec 32} {driver : Driver}
    (hinit : (myInit calls diskmb).outcome = .ok driver) :
    (512 * driver.capacity.toNat : ℤ) ≤ driver.diskSize.toInt := by
  obtain ⟨hpos, hcapacity⟩ := diskSize_pos_of_myInit hinit
  have hsize : 2 * driver.diskSize.toInt < 2 ^ 32 := BitVec.two_mul_toInt_lt
  rw [hcapacity, BitVec.toNat_ofInt, Int.tdiv_eq_ediv_of_nonneg (Int.le_of_lt hpos)]
  omega

/-- A request below the capacity has all its segments inside the disk. -/
theorem placed_inside_of_insideCapacity {diskSize : BitVec 32} {capacity : BitVec 64}
    (hcapacity : (512 * capacity.toNat : ℤ) ≤ diskSize.toInt) (segments : List Segment) :
    ∀ first : ℕ,
      first + (segments.map fun segment ↦ segment.sectors.toNat).sum ≤ capacity.toNat →
        ∀ placed ∈ placeSegments first segments, placed.Inside diskSize := by
  induction segments with
  | nil =>
    intro first _ placed hplaced
    cases hplaced
  | cons segment rest ih =>
    intro first hfirst
    rw [List.map_cons, List.sum_cons] at hfirst
    refine List.forall_mem_cons.mpr ⟨?_, ih _ (by omega)⟩
    unfold PlacedSegment.Inside InsideDisk
    dsimp only
    omega

/-! ### One segment is one operation -/

/-- The operation a visit stands for. -/
def Visit.op (visit : Visit) : BlockOp Sector := placedOp visit.direction visit.placed

/-- The memory, read in blocks of 512 bytes, is the array of sectors. -/
def Represents (ramdisk : Memory) (array : ℕ → Sector) : Prop := blocks 512 ramdisk = array

/-- Serving a segment inside the disk is the operation on the array of sectors, and what it hands
back is the result of the operation. -/
theorem serveVisit_simulates (diskSize : BitVec 32) (ramdisk : Memory) (array : ℕ → Sector)
    (visit : Visit) (hrelated : Represents ramdisk array)
    (hinside : visit.placed.Inside diskSize) :
    Represents (serveVisit diskSize ramdisk visit) (applyBlockOp array visit.op) ∧
      (visitCompletion diskSize ramdisk visit).received = blockResult array visit.op := by
  subst hrelated
  obtain ⟨direction, pos, segment⟩ := visit
  have htransfer := transferSegment_of_inside 0 ramdisk direction hinside
  unfold serveVisit visitCompletion
  dsimp only [Visit.placed] at htransfer ⊢
  rw [htransfer]
  cases direction with
  | read =>
    refine ⟨rfl, List.map_congr_left fun index hindex ↦ ?_⟩
    have hlt : index < segment.sectors.toNat := List.mem_range.mp hindex
    dsimp only
    rw [blocks_memcpy, memcpy_of_mem (Nat.zero_le index) (by omega), Nat.sub_zero]
    rfl
  | write => exact ⟨blocks_memcpy 512 ramdisk segment.buffer pos.toNat 0 _, rfl⟩

/-- The operations of a queue whose segments lie inside the disk are those of its visits. -/
theorem flatMap_ops_eq {diskSize : BitVec 32} {queue : List Request}
    (hinside : ∀ request ∈ queue, ∀ placed ∈ request.placed, placed.Inside diskSize) :
    queue.flatMap Request.ops = (queue.flatMap Request.visits).map Visit.op := by
  rw [List.map_flatMap]
  refine List.flatMap_congr fun request hrequest ↦ ?_
  have hplaced := segmentVisits_placed request.direction request.segments request.pos
    (hinside request hrequest)
  have hdirection : ∀ (segments : List Segment) (pos : BitVec 64),
      (segmentVisits request.direction pos segments).map Visit.op =
        ((segmentVisits request.direction pos segments).map Visit.placed).map
          (placedOp request.direction) := by
    intro segments
    induction segments with
    | nil => exact fun _ ↦ rfl
    | cons segment rest ih =>
      intro pos
      simp only [segmentVisits, List.map_cons, ih]
      rfl
  rw [Request.visits, hdirection, hplaced]
  rfl

/-! ### The refinement -/

/-- A segment inside the disk is not rejected and its products are exact. -/
theorem completion_exact_of_inside {diskSize : BitVec 32} (ramdisk : Memory) {visit : Visit}
    (hinside : visit.placed.Inside diskSize) :
    (visitCompletion diskSize ramdisk visit).Exact := by
  obtain ⟨-, hpos, hsectors, -⟩ := visitCompletion_fields diskSize ramdisk visit
  have hlt : 512 * (visit.pos.toNat + visit.segment.sectors.toNat) < 2 ^ 31 := InsideDisk.lt hinside
  have hexact : InsideDisk diskSize visit.pos.toNat visit.segment.sectors.toNat := hinside
  have htransfer : (visitCompletion diskSize ramdisk visit).transfer ≠ none := by
    rw [visitCompletion, transferSegment_of_inside 0 ramdisk visit.direction hexact]
    cases visit.direction <;> exact Option.some_ne_none _
  refine ⟨htransfer, ?_, ?_⟩
  · rw [hpos]
    exact sectorOffset_toNat (by omega)
  · rw [hsectors]
    exact segmentBytes_toInt (by omega)

/-- The sector store of the ramdisk driver. Assumes: `my_init` returned zero, and every request of
the queue lies below the capacity it gave to `set_capacity`. Whatever the memory holds, `my_request`
rejects no segment, wraps no product, leaves the memory as the array of sectors after the writes in
order, and hands back in each read buffer the sectors the array held at that point. -/
theorem myRequest_storesSectors {calls : InitCalls} {diskmb : BitVec 32} {driver : Driver}
    (hinit : (myInit calls diskmb).outcome = .ok driver) (ramdisk : Memory) {queue : List Request}
    (hqueue : ∀ request ∈ queue, request.InsideCapacity driver.capacity) :
    StoresSectors ramdisk queue (myRequest driver.diskSize ramdisk queue) := by
  have hinside : ∀ request ∈ queue, ∀ placed ∈ request.placed, placed.Inside driver.diskSize :=
    fun request hrequest ↦ placed_inside_of_insideCapacity (capacity_le_of_myInit hinit)
      request.segments request.pos.toNat (hqueue request hrequest)
  have hvisits : ∀ visit ∈ queue.flatMap Request.visits, visit.placed.Inside driver.diskSize := by
    intro visit hvisit
    obtain ⟨request, hrequest, hmem⟩ := List.mem_flatMap.mp hvisit
    exact inside_of_mem_visits (hinside request hrequest) hmem
  have hsteps := along_of_mem (serveVisit driver.diskSize) hvisits ramdisk
  have hstart : Represents ramdisk (blocks 512 ramdisk) := rfl
  have hsimulation := run_simulation (serveVisit_simulates driver.diskSize) hstart hsteps
  have hcompletions : (myRequest driver.diskSize ramdisk queue).completions =
      outputs (serveVisit driver.diskSize) (visitCompletion driver.diskSize) ramdisk
        (queue.flatMap Request.visits) := by
    rw [myRequest_eq]
    exact servedRequests_flatMap_completions driver.diskSize ramdisk queue
  have heach := forall_mem_outputs (hsteps.mono fun memory _ ↦ completion_exact_of_inside memory)
  refine ⟨?_, hcompletions ▸ heach, ?_, ?_⟩
  · rw [myRequest_eq]
    exact ⟨rfl, rfl, servedRequests_map_request driver.diskSize ramdisk queue⟩
  · rw [flatMap_ops_eq hinside, run_map, myRequest_eq]
    exact hsimulation.1
  · rw [hcompletions, map_outputs, flatMap_ops_eq hinside, outputs_map]
    exact hsimulation.2

/-- The kernel calls of a load on a machine with 64 megabytes, all of which succeed. -/
def smallMachineCalls : InitCalls where
  vmalloc := {
    machineBytes := 2 ^ 26
    machineBytes_lt := by decide
    alloc := fun size ↦
      if size = 0 ∨ 2 ^ 26 < size.toNat then none else some fun _ ↦ 0
    alloc_zero := if_pos (Or.inl rfl)
    alloc_of_lt := fun _ hlt ↦ if_pos (Or.inr hlt) }
  blkInitQueue := true
  registerBlkdev := 254
  allocDisk := true

/-- The driver those calls load with a module parameter of one megabyte. -/
def megabyteDriver : Driver := ⟨254, 0x100000, fun _ ↦ 0, 2048⟩

theorem myInit_smallMachineCalls : (myInit smallMachineCalls 1).outcome = .ok megabyteDriver := rfl

/-- A write of two segments to the last two sectors of one megabyte and a read that overlaps it. -/
def overlappingQueue : List Request :=
  [⟨.write, 2046, ⟨1, fun _ ↦ 7⟩, [⟨1, fun _ ↦ 9⟩]⟩, ⟨.read, 2045, ⟨2, fun _ ↦ 0⟩, []⟩]

/-- The driver loaded with one megabyte stores the overlapping requests. -/
theorem overlappingQueue_storesSectors :
    StoresSectors megabyteDriver.ramdisk overlappingQueue
      (myRequest megabyteDriver.diskSize megabyteDriver.ramdisk overlappingQueue) :=
  myRequest_storesSectors myInit_smallMachineCalls megabyteDriver.ramdisk
    (by simp [overlappingQueue, Request.InsideCapacity, Request.segments, megabyteDriver])

end KernelExperiments.Ramdisk
