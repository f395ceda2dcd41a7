import KernelExperiments.Foundation.BlockMemory
import KernelExperiments.Foundation.Runs
import Mathlib.Data.List.Nodup
import Mathlib.Data.List.Pairwise

/-!
# The request handler of the multiqueue block device

`exp_4_2.c`: a block device of 16 megabytes on the multiqueue interface. The block layer dispatches
a request by calling `queue_rq`, here `requestHandler`, with the request in `bd->rq`. The driver is
to start it, serve it from `diskContent`, and end it with a status.

The handler does not look at `bd`. It takes a request of its own from `blk_get_request`, starts that
one, checks its range, passes through a read or a write branch whose critical section is empty, and
ends that one. `BlockDeviceContract` is what the block layer is owed: each dispatched request
started and ended once, the right status, `diskContent` as the last-write-wins array of sectors, and
the buffers of the reads. `blockDeviceContract_iff` shows that the handler meets it on the empty
workload and on no other.

The identity of a request is its tag, for as long as the request lives. A workload gives every
dispatched and every allocated request its own tag (`Workload`), which is what it means that
`blk_get_request` allocates. When `queue_rq` returns an error, the block layer ends the dispatched
request itself (`blkMqDispatch`).
-/

set_option autoImplicit false
set_option relaxedAutoImplicit false

namespace KernelExperiments.BlockDevice

open Foundation

/-- The memory from some pointer on. -/
abbrev Memory := ℕ → UInt8

/-! ### The driver -/

/-- `DISK_SIZE`, as an unsigned long. -/
def diskSize : BitVec 64 := 16 * 1024 * 1024

/-- `SECTOR_SIZE`, as an unsigned long. -/
def sectorSize : BitVec 64 := 512

/-- `READ`. -/
def readDir : ℕ := 0

/-- `WRITE`. -/
def writeDir : ℕ := 1

/-- `blk_status_t`. -/
inductive BlkStatus
  | ok
  | ioerr
  deriving DecidableEq

/-- A request: its direction as `rq_data_dir` gives it, its first sector, its number of sectors, and
the memory behind its segments. -/
structure Request where
  tag : ℕ
  dataDir : ℕ
  pos : BitVec 64
  sectors : BitVec 32
  data : Memory

/-- `blk_mq_start_request` and `blk_mq_end_request`, as the block layer sees them. -/
inductive RequestEvent
  | start (tag : ℕ)
  | finish (tag : ℕ) (status : BlkStatus)
  deriving DecidableEq

/-- The disk, the buffers of the requests by tag, and what the block layer was told. -/
structure DeviceState where
  diskContent : Memory
  buffers : ℕ → Memory
  events : List RequestEvent

/-- One call of `queue_rq`: the request in `bd->rq` and the one `blk_get_request` allocates. -/
structure Dispatch where
  rq : Request
  allocated : Request

/-- `requestHandler`. The bodies of the read and the write branch are empty in the source. -/
def requestHandler (state : DeviceState) (dispatch : Dispatch) : DeviceState × BlkStatus :=
  let thisRequest := dispatch.allocated
  let events := state.events ++ [.start thisRequest.tag]
  let status :=
    if thisRequest.dataDir ≠ readDir ∧ thisRequest.dataDir ≠ writeDir then
      BlkStatus.ioerr
    else
      let offset := thisRequest.pos * sectorSize
      let bytes := thisRequest.sectors.setWidth 64 * sectorSize
      let status := if diskSize < offset + bytes then BlkStatus.ioerr else BlkStatus.ok
      if thisRequest.dataDir = readDir then status
      else if thisRequest.dataDir = writeDir then status
      else BlkStatus.ioerr
  ({ state with events := events ++ [.finish thisRequest.tag status] }, status)

/-- The block layer calls `queue_rq` and ends the dispatched request itself when the call returns an
error. -/
def blkMqDispatch (state : DeviceState) (dispatch : Dispatch) : DeviceState :=
  let (next, status) := requestHandler state dispatch
  if status = BlkStatus.ok then next
  else { next with events := next.events ++ [.finish dispatch.rq.tag .ioerr] }

/-! ### What the block layer is owed -/

/-- The contents of a sector. -/
abbrev Sector := Fin 512 → UInt8

/-- The sectors of the request lie in `[0, DISK_SIZE / SECTOR_SIZE)`, as natural numbers. -/
def Request.InRange (request : Request) : Prop :=
  request.pos.toNat + request.sectors.toNat ≤ (diskSize / sectorSize).toNat

instance decidableInRange (request : Request) : Decidable request.InRange :=
  inferInstanceAs (Decidable (_ ≤ _))

/-- The abstract disk after a request: a write in range replaces its sectors, and nothing else
does anything. -/
def applyRequest (array : ℕ → Sector) (request : Request) : ℕ → Sector :=
  if request.InRange ∧ request.dataDir = writeDir then
    memcpy array request.pos.toNat (blocks 512 request.data) 0 request.sectors.toNat
  else array

/-- A sequence of dispatched requests, each with the request its handler allocates, all of them
different requests. -/
structure Workload where
  dispatches : List Dispatch
  tags_nodup : (dispatches.flatMap fun dispatch ↦
    [dispatch.rq.tag, dispatch.allocated.tag]).Nodup

/-- The state of the device after a number of dispatches of a workload. -/
def Workload.stateAfter (workload : Workload) (diskContent : Memory) (buffers : ℕ → Memory)
    (count : ℕ) : DeviceState :=
  run blkMqDispatch ⟨diskContent, buffers, []⟩ (workload.dispatches.take count)

/-- The abstract disk after a number of dispatches of a workload. -/
def Workload.arrayAfter (workload : Workload) (diskContent : Memory) (count : ℕ) : ℕ → Sector :=
  run applyRequest (blocks 512 diskContent) ((workload.dispatches.take count).map Dispatch.rq)

/-- The contract of a block device on a workload, from a disk and the buffers of the requests on. -/
structure BlockDeviceContract (workload : Workload) (diskContent : Memory)
    (buffers : ℕ → Memory) (final : DeviceState) : Prop where
  started_once : ∀ dispatch ∈ workload.dispatches,
    final.events.count (.start dispatch.rq.tag) = 1
  ended_once : ∀ dispatch ∈ workload.dispatches,
    final.events.count (.finish dispatch.rq.tag .ok) +
      final.events.count (.finish dispatch.rq.tag .ioerr) = 1
  ok_iff : ∀ dispatch ∈ workload.dispatches,
    RequestEvent.finish dispatch.rq.tag .ok ∈ final.events ↔ dispatch.rq.InRange
  disk_eq : ∀ count, blocks 512 (workload.stateAfter diskContent buffers count).diskContent =
    workload.arrayAfter diskContent count
  outside_unchanged : ∀ (count : ℕ) (dispatch : Dispatch),
    workload.dispatches[count]? = some dispatch → ¬ dispatch.rq.InRange →
      (workload.stateAfter diskContent buffers (count + 1)).diskContent =
        (workload.stateAfter diskContent buffers count).diskContent
  reads_filled : ∀ (count : ℕ) (dispatch : Dispatch),
    workload.dispatches[count]? = some dispatch → dispatch.rq.dataDir = readDir →
      RequestEvent.finish dispatch.rq.tag .ok ∈ final.events →
        ∀ index < dispatch.rq.sectors.toNat,
          blocks 512 (final.buffers dispatch.rq.tag) index =
            workload.arrayAfter diskContent count (dispatch.rq.pos.toNat + index)

/-! ### The handler never reaches the dispatched request -/

/-- A call of the handler leaves the disk and the buffers alone, and every request started by then
was started before or is the allocated one. -/
theorem blkMqDispatch_frame (state : DeviceState) (dispatch : Dispatch) :
    (blkMqDispatch state dispatch).diskContent = state.diskContent ∧
      (blkMqDispatch state dispatch).buffers = state.buffers ∧
      ∀ tag, RequestEvent.start tag ∈ (blkMqDispatch state dispatch).events →
        RequestEvent.start tag ∈ state.events ∨ tag = dispatch.allocated.tag := by
  obtain ⟨status, hhandler⟩ : ∃ status, requestHandler state dispatch =
      ({ state with events := state.events ++ [.start dispatch.allocated.tag] ++
        [.finish dispatch.allocated.tag status] }, status) := ⟨_, rfl⟩
  unfold blkMqDispatch
  rw [hhandler]
  dsimp only
  split_ifs with hstatus
  · refine ⟨rfl, rfl, fun tag htag ↦ ?_⟩
    simpa using htag
  · refine ⟨rfl, rfl, fun tag htag ↦ ?_⟩
    simpa using htag

/-- A run of dispatches leaves the disk and the buffers alone, and starts no request but the ones
the handler allocated. -/
theorem run_blkMqDispatch_frame (state : DeviceState) (dispatches : List Dispatch) :
    (run blkMqDispatch state dispatches).diskContent = state.diskContent ∧
      (run blkMqDispatch state dispatches).buffers = state.buffers ∧
      ∀ tag, RequestEvent.start tag ∈ (run blkMqDispatch state dispatches).events →
        RequestEvent.start tag ∈ state.events ∨
          ∃ dispatch ∈ dispatches, tag = dispatch.allocated.tag := by
  induction dispatches generalizing state with
  | nil => exact ⟨rfl, rfl, fun tag htag ↦ Or.inl htag⟩
  | cons dispatch rest ih =>
    obtain ⟨hdisk, hbuffers, hstarted⟩ := blkMqDispatch_frame state dispatch
    obtain ⟨hdiskRest, hbuffersRest, hstartedRest⟩ := ih (blkMqDispatch state dispatch)
    refine ⟨hdiskRest.trans hdisk, hbuffersRest.trans hbuffers, fun tag htag ↦ ?_⟩
    rcases hstartedRest tag htag with hfirst | ⟨later, hlater, rfl⟩
    · rcases hstarted tag hfirst with hbefore | rfl
      · exact Or.inl hbefore
      · exact Or.inr ⟨dispatch, List.mem_cons_self, rfl⟩
    · exact Or.inr ⟨later, List.mem_cons_of_mem dispatch hlater, rfl⟩

/-- In a workload no dispatched request is one the handler allocates. -/
theorem Workload.rq_tag_ne_allocated_tag (workload : Workload) {first second : Dispatch}
    (hfirst : first ∈ workload.dispatches) (hsecond : second ∈ workload.dispatches) :
    first.rq.tag ≠ second.allocated.tag := by
  have hnodup := workload.tags_nodup
  rw [List.nodup_flatMap] at hnodup
  obtain ⟨hpairs, hdisjoint⟩ := hnodup
  by_cases hsame : first = second
  · subst hsame
    have hpair := hpairs first hfirst
    simp only [List.nodup_cons, List.mem_singleton] at hpair
    exact hpair.1
  · intro heq
    have : Std.Symm (Function.onFun List.Disjoint fun dispatch : Dispatch ↦
        [dispatch.rq.tag, dispatch.allocated.tag]) := ⟨fun _ _ h ↦ List.disjoint_symm h⟩
    have hapart := hdisjoint.forall hfirst hsecond hsame
    refine hapart List.mem_cons_self ?_
    rw [heq]
    exact List.mem_cons_of_mem _ List.mem_cons_self

/-- No dispatched request is ever started. -/
theorem Workload.count_start_eq_zero (workload : Workload) (diskContent : Memory)
    (buffers : ℕ → Memory) {dispatch : Dispatch} (hdispatch : dispatch ∈ workload.dispatches) :
    (run blkMqDispatch ⟨diskContent, buffers, []⟩ workload.dispatches).events.count
      (.start dispatch.rq.tag) = 0 := by
  refine List.count_eq_zero.mpr fun hstarted ↦ ?_
  obtain ⟨-, -, honly⟩ :=
    run_blkMqDispatch_frame ⟨diskContent, buffers, []⟩ workload.dispatches
  rcases honly _ hstarted with hbefore | ⟨other, hother, heq⟩
  · cases hbefore
  · exact workload.rq_tag_ne_allocated_tag hdispatch hother heq

/-! ### Exactly when the contract is met -/

/-- The handler meets the contract of a block device on a workload exactly when the workload
dispatches nothing. -/
theorem blockDeviceContract_iff (workload : Workload) (diskContent : Memory)
    (buffers : ℕ → Memory) :
    BlockDeviceContract workload diskContent buffers
        (run blkMqDispatch ⟨diskContent, buffers, []⟩ workload.dispatches) ↔
      workload.dispatches = [] := by
  constructor
  · intro hcontract
    refine List.eq_nil_iff_forall_not_mem.mpr fun dispatch hdispatch ↦ ?_
    have hstarted := hcontract.started_once dispatch hdispatch
    rw [workload.count_start_eq_zero diskContent buffers hdispatch] at hstarted
    exact absurd hstarted (by omega)
  · intro hnil
    obtain ⟨dispatches, hnodup⟩ := workload
    dsimp only at hnil
    subst hnil
    refine ⟨?_, ?_, ?_, ?_, ?_, ?_⟩
    · exact fun _ hmem ↦ absurd hmem List.not_mem_nil
    · exact fun _ hmem ↦ absurd hmem List.not_mem_nil
    · exact fun _ hmem ↦ absurd hmem List.not_mem_nil
    · intro count
      simp only [Workload.stateAfter, Workload.arrayAfter, List.take_nil, List.map_nil, run_nil]
    · exact fun _ _ hget ↦ absurd hget (by simp)
    · exact fun _ _ hget ↦ absurd hget (by simp)

/-- A write of one sector to the start of the disk. -/
def singleWrite : Workload where
  dispatches := [⟨⟨0, writeDir, 0, 1, fun _ ↦ 7⟩, ⟨1, readDir, 0, 0, fun _ ↦ 0⟩⟩]
  tags_nodup := by decide

/-- A write in range is neither started nor written to the disk. -/
theorem not_blockDeviceContract_singleWrite :
    ¬ BlockDeviceContract singleWrite (fun _ ↦ 0) (fun _ _ ↦ 0)
      (run blkMqDispatch ⟨fun _ ↦ 0, fun _ _ ↦ 0, []⟩ singleWrite.dispatches) := by
  intro hcontract
  have hstarted := hcontract.started_once _ (List.mem_singleton.mpr rfl)
  exact absurd hstarted (by decide)

end KernelExperiments.BlockDevice
