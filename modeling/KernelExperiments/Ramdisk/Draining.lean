import KernelExperiments.Ramdisk.Completion

/-!
# The request loop drains its queue

The loop of `my_request` fetches a request, completes its segments one at a time and fetches the
next one when `__blk_end_request_cur` says that none of them remains. It works off a list: the
segments that remain of the current request, followed by those of the queue
(`LoopState.pending`). Every iteration takes the first of them, whatever the range check decides,
for the jump to `done` skips the copy and not the completion (`pending_of_myRequestBody`). So the
length of that list is the measure under which the loop terminates, and the iterations visit the
segments in order, each once.

`DrainsQueue` is the whole law and `myRequest_drainsQueue` proves it of every queue.
-/

set_option autoImplicit false
set_option relaxedAutoImplicit false

namespace KernelExperiments.Ramdisk

open Foundation

/-! ### The worklist of the loop -/

/-- The segment that the next iteration visits, when there is a request in `rq`. -/
def LoopState.visit (state : LoopState) : Option Visit :=
  state.rq.map fun rq ↦ ⟨rq.request.direction, rq.pos, rq.segment⟩

/-- The visits to come: the segments that remain of the current request, then those of the
queue. -/
def LoopState.pending (state : LoopState) : List Visit :=
  match state.rq with
  | none => []
  | some rq =>
    segmentVisits rq.request.direction rq.pos (rq.segment :: rq.rest) ++
      state.queue.flatMap Request.visits

/-- When the next request has just been fetched the visits to come are those of the queue. -/
theorem pending_of_fetched (ramdisk : Memory) (res : ℤ) (queue : List Request)
    (completed : List CompletedRequest) :
    LoopState.pending
        ⟨ramdisk, res, (blkFetchRequest queue).1, (blkFetchRequest queue).2, completed⟩ =
      queue.flatMap Request.visits := by
  cases queue <;> rfl

/-- An iteration takes the first of the visits to come. -/
theorem pending_of_myRequestBody (diskSize : BitVec 32) (state next : LoopState)
    (hbody : myRequestBody diskSize state = some next) :
    state.pending.map some = state.visit :: next.pending.map some := by
  obtain ⟨ramdisk, res, rq, queue, completed⟩ := state
  cases rq with
  | none => cases hbody
  | some rq =>
    obtain ⟨request, pos, segment, rest, completions⟩ := rq
    cases rest with
    | nil =>
      have hnext : next.pending = queue.flatMap Request.visits := by
        rw [← Option.some.inj hbody]
        exact pending_of_fetched _ res queue _
      rw [hnext]
      rfl
    | cons segment rest =>
      cases hbody
      rfl

/-- The loop is left only when no visit is to come. -/
theorem pending_eq_nil_of_left {diskSize : BitVec 32} (state : LoopState)
    (hbody : myRequestBody diskSize state = none) : state.pending = [] := by
  obtain ⟨ramdisk, res, rq, queue, completed⟩ := state
  cases rq with
  | none => rfl
  | some rq =>
    obtain ⟨request, pos, segment, rest, completions⟩ := rq
    cases rest <;> cases hbody

theorem pending_myRequestEntry (ramdisk : Memory) (queue : List Request) :
    (myRequestEntry ramdisk queue).pending = queue.flatMap Request.visits :=
  pending_of_fetched ramdisk 0 queue []

theorem length_pending_myRequestEntry (ramdisk : Memory) (queue : List Request) :
    (myRequestEntry ramdisk queue).pending.length = segmentCount queue := by
  rw [pending_myRequestEntry]
  induction queue with
  | nil => rfl
  | cons request queue ih =>
    rw [List.flatMap_cons, List.length_append, ih, length_visits, segmentCount_cons]
    rfl

/-! ### The law -/

/-- The loop of `my_request`, entered with a queue, drains it and is left in the state `final`:
nothing is in flight and nothing queued, the requests were completed once each and in the order of
the queue, with one completion for each segment at its position, and the iterations visited the
segments of the queue in order, each once. -/
structure DrainsQueue (diskSize : BitVec 32) (ramdisk : Memory) (queue : List Request)
    (final : LoopState) : Prop where
  left : LeftIn (myRequestBody diskSize) (myRequestEntry ramdisk queue) final
  drained : final.rq = none ∧ final.queue = []
  completed_eq : final.completed.map CompletedRequest.request = queue
  segments_completed : ∀ done ∈ final.completed,
    (done.completions.map fun completion ↦ (completion.pos, completion.segment.sectors)) =
      done.request.visits.map fun visit ↦ (visit.pos, visit.segment.sectors)
  visited_eq : ∀ fuel, segmentCount queue ≤ fuel →
    (loopStates (myRequestBody diskSize) fuel (myRequestEntry ramdisk queue)).map
        LoopState.visit =
      (queue.flatMap Request.visits).map some

/-- Whatever its requests are and whatever the range check says of them, every queue is drained. -/
theorem myRequest_drainsQueue (diskSize : BitVec 32) (ramdisk : Memory) (queue : List Request) :
    ∃ final, DrainsQueue diskSize ramdisk queue final := by
  refine ⟨myRequest diskSize ramdisk queue, ?_, ?_, ?_, ?_, ?_⟩
  · refine ⟨segmentCount queue, rfl, ?_⟩
    exact loopFor_worklist (pending_of_myRequestBody diskSize) _ _
      (Nat.le_of_eq (length_pending_myRequestEntry ramdisk queue))
  · rw [myRequest_eq]
    exact ⟨rfl, rfl⟩
  · rw [myRequest_eq]
    exact servedRequests_map_request diskSize ramdisk queue
  · intro done hdone
    obtain ⟨-, memory, hcompletions⟩ := exists_of_mem_completed hdone
    rw [hcompletions, map_outputs]
    refine outputs_eq_map _ (fun memory visit ↦ ?_) memory _
    obtain ⟨-, hpos, hsectors, -⟩ := visitCompletion_fields diskSize memory visit
    rw [hpos, hsectors]
  · intro fuel hfuel
    rw [map_loopStates_worklist (pending_of_myRequestBody diskSize) pending_eq_nil_of_left fuel _
      (by rwa [length_pending_myRequestEntry]), pending_myRequestEntry]

end KernelExperiments.Ramdisk
