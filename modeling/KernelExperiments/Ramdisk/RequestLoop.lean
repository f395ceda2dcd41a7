import KernelExperiments.Foundation.Runs
import KernelExperiments.Ramdisk.Driver

/-!
# The request loop as a run over the segments of the queue

`my_request` is one loop that walks over two nested lists: the requests of the queue and the
segments of each. `myRequest_eq` takes it apart. The loop halts with the queue empty, after one
iteration for each segment; its memory is that of a run of `serveVisit` over the segments of the
queue in order, and the request at each place of the queue is completed at that place, with the
completions of its own segments.

A segment is visited at the position the block layer has advanced to (`Visit`). The variable `res`
is carried by the loop and never assigned, so every completion reports the value the loop was
entered with (`visitCompletion_fields`).
-/

set_option autoImplicit false
set_option relaxedAutoImplicit false

namespace KernelExperiments.Ramdisk

open Foundation

/-! ### Visits -/

/-- A segment with the direction of its request and the position it is served at. -/
structure Visit where
  direction : Direction
  pos : BitVec 64
  segment : Segment

/-- The visits of a list of segments from a position on: each segment is served where the one before
it ends. -/
def segmentVisits (direction : Direction) : BitVec 64 → List Segment → List Visit
  | _, [] => []
  | pos, segment :: rest =>
    ⟨direction, pos, segment⟩ ::
      segmentVisits direction (pos + segment.sectors.setWidth 64) rest

/-- The visits of a request. -/
def Request.visits (request : Request) : List Visit :=
  segmentVisits request.direction request.pos request.segments

/-- The memory after a segment was served. -/
def serveVisit (diskSize : BitVec 32) (ramdisk : Memory) (visit : Visit) : Memory :=
  (transferSegment diskSize 0 ramdisk visit.direction visit.pos visit.segment).1

/-- The completion of a served segment. -/
def visitCompletion (diskSize : BitVec 32) (ramdisk : Memory) (visit : Visit) : Completion :=
  (transferSegment diskSize 0 ramdisk visit.direction visit.pos visit.segment).2

/-- The requests of a queue as they are completed one after the other. -/
def servedRequests (diskSize : BitVec 32) : Memory → List Request → List CompletedRequest
  | _, [] => []
  | ramdisk, request :: rest =>
    ⟨request, outputs (serveVisit diskSize) (visitCompletion diskSize) ramdisk request.visits⟩ ::
      servedRequests diskSize (run (serveVisit diskSize) ramdisk request.visits) rest

/-! ### One request -/

/-- The loop state while a request is served. -/
def servingState (ramdisk : Memory) (request : Request) (pos : BitVec 64) (segment : Segment)
    (rest : List Segment) (completions : List Completion) (queue : List Request)
    (completed : List CompletedRequest) : LoopState :=
  ⟨ramdisk, 0, some ⟨request, pos, segment, rest, completions⟩, queue, completed⟩

/-- The loop state between two requests: the next one is fetched. -/
def fetchedState (ramdisk : Memory) (queue : List Request) (completed : List CompletedRequest) :
    LoopState :=
  ⟨ramdisk, 0, (blkFetchRequest queue).1, (blkFetchRequest queue).2, completed⟩

/-- Serving the segments of a request takes one iteration each and ends with the request completed
and the next one fetched. -/
theorem loopFor_servingState (diskSize : BitVec 32) (request : Request) (rest : List Segment)
    (queue : List Request) (completed : List CompletedRequest) :
    ∀ (ramdisk : Memory) (pos : BitVec 64) (segment : Segment) (completions : List Completion),
      loopFor (myRequestBody diskSize) (rest.length + 1)
          (servingState ramdisk request pos segment rest completions queue completed) =
        fetchedState
          (run (serveVisit diskSize) ramdisk
            (segmentVisits request.direction pos (segment :: rest)))
          queue
          (completed ++ [⟨request, completions ++
            outputs (serveVisit diskSize) (visitCompletion diskSize) ramdisk
              (segmentVisits request.direction pos (segment :: rest))⟩]) := by
  induction rest with
  | nil =>
    intro ramdisk pos segment completions
    rfl
  | cons next rest ih =>
    intro ramdisk pos segment completions
    have hbody : myRequestBody diskSize
        (servingState ramdisk request pos segment (next :: rest) completions queue completed) =
        some (servingState (serveVisit diskSize ramdisk ⟨request.direction, pos, segment⟩) request
          (pos + segment.sectors.setWidth 64) next rest
          (completions ++ [visitCompletion diskSize ramdisk ⟨request.direction, pos, segment⟩])
          queue completed) := rfl
    rw [List.length_cons, loopFor_succ_of_some hbody, ih]
    simp only [segmentVisits, run_cons, outputs, List.append_assoc, List.singleton_append]

/-! ### The whole queue -/

theorem segmentCount_cons (request : Request) (queue : List Request) :
    segmentCount (request :: queue) = (request.rest.length + 1) + segmentCount queue := rfl

/-- From the fetch of the first request on, an iteration for each segment drains the queue. -/
theorem loopFor_fetchedState (diskSize : BitVec 32) (queue : List Request) :
    ∀ (ramdisk : Memory) (completed : List CompletedRequest),
      loopFor (myRequestBody diskSize) (segmentCount queue)
          (fetchedState ramdisk queue completed) =
        ⟨run (serveVisit diskSize) ramdisk (queue.flatMap Request.visits), 0, none, [],
          completed ++ servedRequests diskSize ramdisk queue⟩ := by
  induction queue with
  | nil =>
    intro ramdisk completed
    rw [servedRequests, List.append_nil]
    rfl
  | cons request queue ih =>
    intro ramdisk completed
    have hfirst := loopFor_servingState diskSize request request.rest queue completed ramdisk
      request.pos request.first []
    rw [segmentCount_cons, loopFor_add]
    change loopFor (myRequestBody diskSize) (segmentCount queue)
      (loopFor (myRequestBody diskSize) (request.rest.length + 1)
        (servingState ramdisk request request.pos request.first request.rest [] queue
          completed)) = _
    rw [hfirst, ih, List.flatMap_cons, run_append, List.append_assoc]
    rfl

/-- `my_request` drains its queue: it leaves the loop by its guard with nothing in flight and
nothing queued, its memory is that of the run over all segments, and the requests are completed in
queue order. -/
theorem myRequest_eq (diskSize : BitVec 32) (ramdisk : Memory) (queue : List Request) :
    myRequest diskSize ramdisk queue =
      ⟨run (serveVisit diskSize) ramdisk (queue.flatMap Request.visits), 0, none, [],
        servedRequests diskSize ramdisk queue⟩ :=
  loopFor_fetchedState diskSize queue ramdisk []

/-- Fuel beyond one iteration for each segment changes nothing: the loop has ended by itself. -/
theorem loopFor_eq_myRequest (diskSize : BitVec 32) (ramdisk : Memory) (queue : List Request)
    {fuel : ℕ} (hfuel : segmentCount queue ≤ fuel) :
    loopFor (myRequestBody diskSize) fuel (myRequestEntry ramdisk queue) =
      myRequest diskSize ramdisk queue := by
  obtain ⟨extra, rfl⟩ := Nat.exists_eq_add_of_le hfuel
  rw [loopFor_add]
  change loopFor (myRequestBody diskSize) extra (myRequest diskSize ramdisk queue) = _
  refine loopFor_of_none ?_ extra
  rw [myRequest_eq]
  rfl

/-! ### What is known of every completion -/

/-- The requests are completed in the order they were queued. -/
theorem servedRequests_map_request (diskSize : BitVec 32) (ramdisk : Memory)
    (queue : List Request) :
    (servedRequests diskSize ramdisk queue).map CompletedRequest.request = queue := by
  induction queue generalizing ramdisk with
  | nil => rfl
  | cons request queue ih => simp only [servedRequests, List.map_cons, ih]

/-- The completions of all requests together are those of the run over all segments. -/
theorem servedRequests_flatMap_completions (diskSize : BitVec 32) (ramdisk : Memory)
    (queue : List Request) :
    (servedRequests diskSize ramdisk queue).flatMap CompletedRequest.completions =
      outputs (serveVisit diskSize) (visitCompletion diskSize) ramdisk
        (queue.flatMap Request.visits) := by
  induction queue generalizing ramdisk with
  | nil => rfl
  | cons request queue ih =>
    simp only [servedRequests, List.flatMap_cons, outputs_append, ih]

/-- Whatever becomes of a segment, its completion has the direction, the position and the length of
the visit, and reports the value of `res`, which is zero. -/
theorem visitCompletion_fields (diskSize : BitVec 32) (ramdisk : Memory) (visit : Visit) :
    (visitCompletion diskSize ramdisk visit).direction = visit.direction ∧
      (visitCompletion diskSize ramdisk visit).pos = visit.pos ∧
      (visitCompletion diskSize ramdisk visit).segment.sectors = visit.segment.sectors ∧
      (visitCompletion diskSize ramdisk visit).error = 0 := by
  obtain ⟨direction, pos, segment⟩ := visit
  unfold visitCompletion transferSegment
  split_ifs with hpast
  · exact ⟨rfl, rfl, rfl, rfl⟩
  · cases direction <;> exact ⟨rfl, rfl, rfl, rfl⟩

end KernelExperiments.Ramdisk
