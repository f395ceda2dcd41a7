import KernelExperiments.Foundation.BlockMemory
import KernelExperiments.Foundation.WhileLoops
import Mathlib.Algebra.Ring.Nat

/-!
# The ramdisk driver

`exp_4_2_original.c`: a block device whose sectors live in one vmalloc area. `my_init` computes the
size of the area from the module parameter, allocates it and advertises its capacity; `my_request`
drains the request queue one segment at a time. `exp_4_2_ramdisk_driver.c` is the same program with
two calls renamed, and the text of its request loop is the one embedded here.

Machine integers keep their widths. `sector` and `nr_sectors` are 32-bit unsigned, `sector_size` is
an unsigned short, `size` and `disk_size` are 32-bit signed, and the products are taken modulo
`2 ^ 32` as C takes them (`sectorOffset`, `segmentBytes`). Pointers into the area are offsets from
`ramdisk`, so the comparison `ptr + size > ramdisk + disk_size` is a comparison of integers
(`pastDisk`); the addresses behind the area belong to the same memory.

The block layer follows its documentation. `blkFetchRequest` takes the next request off the queue.
`blkEndRequestCur` completes the current segment with an error code; while segments of the request
remain it advances the position and the segment, and with the last one the request is complete. A
completed segment records its buffer as handed back, the error code, and the copy made for it, if
any (`Completion`).

## Scope

The log messages, the spinlock and the partition count do not enter any result. `vmalloc` is a
parameter that keeps its documented behaviour: it has nothing to give for size zero, nor for more
memory than the machine has (`Vmalloc`).
-/

set_option autoImplicit false
set_option relaxedAutoImplicit false

namespace KernelExperiments.Ramdisk

open Foundation

/-- The memory from some pointer on. -/
abbrev Memory := ℕ → UInt8

/-! ### Loading the driver -/

/-- `sector_size`, an unsigned short. -/
def sectorSize : BitVec 16 := 512

/-- `vmalloc`: what it returns for a size, on a machine with `machineBytes` bytes of memory. -/
structure Vmalloc where
  machineBytes : ℕ
  machineBytes_lt : machineBytes < 2 ^ 63
  alloc : BitVec 64 → Option Memory
  alloc_zero : alloc 0 = none
  alloc_of_lt : ∀ size, machineBytes < size.toNat → alloc size = none

/-- The outcomes of the kernel calls of `my_init`: whether `blk_init_queue` and `alloc_disk`
succeed, and what `register_blkdev` returns. -/
structure InitCalls where
  vmalloc : Vmalloc
  blkInitQueue : Bool
  registerBlkdev : ℤ
  allocDisk : Bool

/-- The kernel resources a block driver holds. -/
inductive Resource
  | memory
  | queue
  | major
  | gendisk
  deriving DecidableEq

/-- One resource taken or given back. -/
inductive ResourceEvent
  | acquire (resource : Resource)
  | release (resource : Resource)
  deriving DecidableEq

/-- The globals of a loaded driver and the capacity it gave to `set_capacity`. -/
structure Driver where
  mybdrvMaNo : ℤ
  diskSize : BitVec 32
  ramdisk : Memory
  capacity : BitVec 64

/-- The outcome of `my_init`, a driver for the return value zero and the error code otherwise, and
the resources taken and given back on the way. -/
structure InitResult where
  outcome : Except ℤ Driver
  events : List ResourceEvent

/-- `-ENOMEM`. -/
def enomem : ℤ := -12

/-- `my_init`. The failure of `register_blkdev` and the failure of `alloc_disk` give back the
memory, the second one the major number too, and neither the queue. -/
def myInit (calls : InitCalls) (diskmb : BitVec 32) : InitResult :=
  let diskSize := diskmb * 1024 * 1024
  match calls.vmalloc.alloc (diskSize.signExtend 64) with
  | none => ⟨.error enomem, []⟩
  | some ramdisk =>
    if !calls.blkInitQueue then
      ⟨.error enomem, [.acquire .memory, .release .memory]⟩
    else if calls.registerBlkdev < 0 then
      ⟨.error calls.registerBlkdev, [.acquire .memory, .acquire .queue, .release .memory]⟩
    else if !calls.allocDisk then
      ⟨.error enomem, [.acquire .memory, .acquire .queue, .acquire .major, .release .major,
        .release .memory]⟩
    else
      ⟨.ok {
        mybdrvMaNo := calls.registerBlkdev
        diskSize := diskSize
        ramdisk := ramdisk
        capacity := BitVec.ofInt 64 (diskSize.toInt.tdiv sectorSize.toNat) },
      [.acquire .memory, .acquire .queue, .acquire .major, .acquire .gendisk]⟩

/-- The return value of `my_init`. -/
def InitResult.ret (result : InitResult) : ℤ :=
  match result.outcome with
  | .ok _ => 0
  | .error code => code

/-- `my_exit`: the resources it gives back, in order. -/
def myExit : List ResourceEvent :=
  [.release .gendisk, .release .major, .release .queue, .release .memory]

/-! ### Requests -/

/-- `rq_data_dir`. -/
inductive Direction
  | read
  | write
  deriving DecidableEq

/-- A segment of a request: its length in sectors and the memory at its `bio_data`. -/
structure Segment where
  sectors : BitVec 32
  buffer : Memory

/-- A request as it is queued: at least one segment, from the start sector `pos` on. -/
structure Request where
  direction : Direction
  pos : BitVec 64
  first : Segment
  rest : List Segment

/-- The segments of a request, in order. -/
def Request.segments (request : Request) : List Segment := request.first :: request.rest

/-- The range of the ramdisk that a `memcpy` of `my_request` touches. -/
structure Transfer where
  offset : ℕ
  length : ℕ
  deriving DecidableEq

/-- One call of `__blk_end_request_cur`: the segment with its buffer as handed back, its position,
the copy made for it and the error code. -/
structure Completion where
  direction : Direction
  pos : BitVec 64
  segment : Segment
  transfer : Option Transfer
  error : ℤ

/-- A fetched request: its current position and segment, the segments behind it, and the segments
completed so far. -/
structure InFlight where
  request : Request
  pos : BitVec 64
  segment : Segment
  rest : List Segment
  completions : List Completion

/-- A request with all its segments completed. -/
structure CompletedRequest where
  request : Request
  completions : List Completion

/-- `blk_fetch_request`: the next request of the queue, or none. -/
def blkFetchRequest : List Request → Option InFlight × List Request
  | [] => (none, [])
  | request :: queue => (some ⟨request, request.pos, request.first, request.rest, []⟩, queue)

/-- `__blk_end_request_cur`: either segments remain and the request stands at the next one, or the
request is complete. -/
def blkEndRequestCur (rq : InFlight) (completion : Completion) : InFlight ⊕ CompletedRequest :=
  match rq.rest with
  | [] => .inr ⟨rq.request, rq.completions ++ [completion]⟩
  | next :: rest =>
    .inl {
      request := rq.request
      pos := rq.pos + rq.segment.sectors.setWidth 64
      segment := next
      rest := rest
      completions := rq.completions ++ [completion] }

/-! ### Serving the queue -/

/-- `sector * sector_size`, with `sector` the position cut to 32 bits. -/
def sectorOffset (pos : BitVec 64) : BitVec 32 := pos.setWidth 32 * sectorSize.setWidth 32

/-- `nr_sectors * sector_size`. -/
def segmentBytes (nrSectors : BitVec 32) : BitVec 32 := nrSectors * sectorSize.setWidth 32

/-- The range check of `my_request`: `(ptr + size) > (ramdisk + disk_size)`. -/
def pastDisk (diskSize : BitVec 32) (pos : BitVec 64) (nrSectors : BitVec 32) : Prop :=
  diskSize.toInt < (sectorOffset pos).toNat + (segmentBytes nrSectors).toInt

instance decidablePastDisk (diskSize : BitVec 32) (pos : BitVec 64) (nrSectors : BitVec 32) :
    Decidable (pastDisk diskSize pos nrSectors) :=
  inferInstanceAs (Decidable (_ < _))

/-- The body of the loop of `my_request` up to the label `done`: the range check and the copy. The
length of a copy is `size` converted to `size_t`. -/
def transferSegment (diskSize : BitVec 32) (res : ℤ) (ramdisk : Memory) (direction : Direction)
    (pos : BitVec 64) (segment : Segment) : Memory × Completion :=
  let ptr := (sectorOffset pos).toNat
  let length := ((segmentBytes segment.sectors).signExtend 64).toNat
  if pastDisk diskSize pos segment.sectors then
    (ramdisk, ⟨direction, pos, segment, none, res⟩)
  else
    match direction with
    | .write =>
      (memcpy ramdisk ptr segment.buffer 0 length,
        ⟨direction, pos, segment, some ⟨ptr, length⟩, res⟩)
    | .read =>
      (ramdisk, ⟨direction, pos,
        { segment with buffer := memcpy segment.buffer 0 ramdisk ptr length },
        some ⟨ptr, length⟩, res⟩)

/-- The state of `my_request` at the head of its loop: the memory, the variables `res` and `rq`, the
queue, and the requests completed so far. -/
structure LoopState where
  ramdisk : Memory
  res : ℤ
  rq : Option InFlight
  queue : List Request
  completed : List CompletedRequest

/-- One iteration of the loop of `my_request`. -/
def myRequestBody (diskSize : BitVec 32) (state : LoopState) : Option LoopState :=
  match state.rq with
  | none => none
  | some rq =>
    let (ramdisk, completion) :=
      transferSegment diskSize state.res state.ramdisk rq.request.direction rq.pos rq.segment
    match blkEndRequestCur rq completion with
    | .inl rq => some { state with ramdisk := ramdisk, rq := some rq }
    | .inr done =>
      let (rq, queue) := blkFetchRequest state.queue
      some { state with
        ramdisk := ramdisk, rq := rq, queue := queue, completed := state.completed ++ [done] }

/-- The state in which the loop is entered: `res` is zero and the first request is fetched. -/
def myRequestEntry (ramdisk : Memory) (queue : List Request) : LoopState :=
  let (rq, queue) := blkFetchRequest queue
  ⟨ramdisk, 0, rq, queue, []⟩

/-- The number of segments of a queue. -/
def segmentCount (queue : List Request) : ℕ := (queue.map fun rq ↦ rq.segments.length).sum

/-- `my_request`, with an iteration for each segment of the queue. -/
def myRequest (diskSize : BitVec 32) (ramdisk : Memory) (queue : List Request) : LoopState :=
  loopFor (myRequestBody diskSize) (segmentCount queue) (myRequestEntry ramdisk queue)

end KernelExperiments.Ramdisk
