import KernelExperiments.Ramdisk.SectorStore

/-!
# What the ramdisk driver reports to the block layer

The error code of `__blk_end_request_cur` is the only word the block layer gets about a segment. A
driver is honest on a queue (`HonestCompletion`) when it reports success for exactly the requests
all of whose segments passed the range check and were copied, an error for every request with a
segment outside the disk, and leaves the memory alone for a rejected segment.

`my_request` has a branch for the rejected segment but nothing to report with: `res` is zero when
the loop is entered, and no path assigns it. So every request is completed with success
(`error_eq_zero_of_mem_completed`), and the driver is honest on exactly the queues that need no
error report (`honestCompletion_iff`): those whose segments all lie inside the disk. The last clause
of honesty holds on every queue (`ramdisk_eq_of_pastDisk`); the data path of the rejection is right,
and only its report is lost.
-/

set_option autoImplicit false
set_option relaxedAutoImplicit false

namespace KernelExperiments.Ramdisk

open Foundation

/-! ### Honest completion -/

/-- The request is completed with success: every call of `__blk_end_request_cur` for it got the
error code zero. -/
def CompletedRequest.Succeeded (done : CompletedRequest) : Prop :=
  ∀ completion ∈ done.completions, completion.error = 0

/-- Every segment of the request passed the range check and was copied. -/
def CompletedRequest.Copied (diskSize : BitVec 32) (done : CompletedRequest) : Prop :=
  done.completions.length = done.request.segments.length ∧
    ∀ completion ∈ done.completions,
      ¬ pastDisk diskSize completion.pos completion.segment.sectors ∧ completion.transfer ≠ none

/-- The driver reports the outcome of every request of the queue as it was. -/
structure HonestCompletion (diskSize : BitVec 32) (ramdisk : Memory) (queue : List Request) :
    Prop where
  completed : (myRequest diskSize ramdisk queue).completed.map CompletedRequest.request = queue
  succeeded_iff : ∀ done ∈ (myRequest diskSize ramdisk queue).completed,
    done.Succeeded ↔ done.Copied diskSize
  outside_fails : ∀ done ∈ (myRequest diskSize ramdisk queue).completed,
    (∃ placed ∈ done.request.placed, ¬ placed.Inside diskSize) →
      ∃ completion ∈ done.completions, completion.error ≠ 0
  rejected_unchanged : ∀ (iterations : ℕ) (rq : InFlight) (next : LoopState),
    (loopFor (myRequestBody diskSize) iterations (myRequestEntry ramdisk queue)).rq = some rq →
      pastDisk diskSize rq.pos rq.segment.sectors →
        myRequestBody diskSize
          (loopFor (myRequestBody diskSize) iterations (myRequestEntry ramdisk queue)) = some next →
          next.ramdisk =
            (loopFor (myRequestBody diskSize) iterations (myRequestEntry ramdisk queue)).ramdisk

/-! ### Every path of the loop -/

/-- An iteration on a rejected segment leaves the memory alone. -/
theorem ramdisk_eq_of_pastDisk {diskSize : BitVec 32} {state next : LoopState} {rq : InFlight}
    (hrq : state.rq = some rq) (hpast : pastDisk diskSize rq.pos rq.segment.sectors)
    (hbody : myRequestBody diskSize state = some next) : next.ramdisk = state.ramdisk := by
  simp only [myRequestBody, hrq, transferSegment, if_pos hpast] at hbody
  split at hbody <;> cases hbody <;> rfl

/-- A completed request of a queue is served from some memory, and its completions are those of its
own segments. -/
theorem exists_of_mem_completed {diskSize : BitVec 32} {ramdisk : Memory} {queue : List Request}
    {done : CompletedRequest} (hdone : done ∈ (myRequest diskSize ramdisk queue).completed) :
    done.request ∈ queue ∧ ∃ memory, done.completions =
      outputs (serveVisit diskSize) (visitCompletion diskSize) memory done.request.visits := by
  rw [myRequest_eq] at hdone
  dsimp only at hdone
  induction queue generalizing ramdisk with
  | nil => cases hdone
  | cons request queue ih =>
    rcases List.mem_cons.mp hdone with rfl | hrest
    · exact ⟨List.mem_cons_self, ramdisk, rfl⟩
    · obtain ⟨hmem, hcompletions⟩ := ih hrest
      exact ⟨List.mem_cons_of_mem request hmem, hcompletions⟩

/-- Every completion of every request carries the error code zero. -/
theorem error_eq_zero_of_mem_completed {diskSize : BitVec 32} {ramdisk : Memory}
    {queue : List Request} {done : CompletedRequest}
    (hdone : done ∈ (myRequest diskSize ramdisk queue).completed) : done.Succeeded := by
  obtain ⟨-, memory, hcompletions⟩ := exists_of_mem_completed hdone
  unfold CompletedRequest.Succeeded
  rw [hcompletions]
  exact forall_mem_outputs (along_of_forall
    (fun state visit ↦ (visitCompletion_fields diskSize state visit).2.2.2) memory _)

theorem length_visits (request : Request) : request.visits.length = request.segments.length := by
  have hlength : ∀ (segments : List Segment) (pos : BitVec 64),
      (segmentVisits request.direction pos segments).length = segments.length := by
    intro segments
    induction segments with
    | nil => exact fun _ ↦ rfl
    | cons segment rest ih => exact fun pos ↦ congrArg Nat.succ (ih _)
  exact hlength request.segments request.pos

/-- A request whose segments lie inside the disk has every segment copied. -/
theorem copied_of_inside {diskSize : BitVec 32} {ramdisk : Memory} {queue : List Request}
    {done : CompletedRequest} (hdone : done ∈ (myRequest diskSize ramdisk queue).completed)
    (hinside : ∀ placed ∈ done.request.placed, placed.Inside diskSize) :
    done.Copied diskSize := by
  obtain ⟨-, memory, hcompletions⟩ := exists_of_mem_completed hdone
  have hvisits : ∀ visit ∈ done.request.visits, visit.placed.Inside diskSize :=
    fun visit hvisit ↦ inside_of_mem_visits hinside hvisit
  refine ⟨by rw [hcompletions, length_outputs, length_visits], ?_⟩
  rw [hcompletions]
  refine forall_mem_outputs ((along_of_mem (serveVisit diskSize) hvisits memory).mono ?_)
  intro state visit hvisit
  obtain ⟨-, hpos, hsectors, -⟩ := visitCompletion_fields diskSize state visit
  rw [hpos, hsectors]
  exact ⟨not_pastDisk hvisit, (completion_exact_of_inside state hvisit).not_rejected⟩

/-! ### Exactly when the driver is honest -/

/-- The driver is honest on a queue exactly when every segment of every request lies inside the
disk. -/
theorem honestCompletion_iff (diskSize : BitVec 32) (ramdisk : Memory) (queue : List Request) :
    HonestCompletion diskSize ramdisk queue ↔
      ∀ request ∈ queue, ∀ placed ∈ request.placed, placed.Inside diskSize := by
  constructor
  · intro hhonest request hrequest placed hplaced
    by_contra houtside
    rw [← hhonest.completed] at hrequest
    obtain ⟨done, hdone, rfl⟩ := List.mem_map.mp hrequest
    obtain ⟨completion, hmem, herror⟩ :=
      hhonest.outside_fails done hdone ⟨placed, hplaced, houtside⟩
    exact herror (error_eq_zero_of_mem_completed hdone completion hmem)
  · intro hinside
    have hrequest : ∀ done ∈ (myRequest diskSize ramdisk queue).completed,
        ∀ placed ∈ done.request.placed, placed.Inside diskSize :=
      fun done hdone ↦ hinside done.request (exists_of_mem_completed hdone).1
    refine ⟨?_, ?_, ?_, ?_⟩
    · rw [myRequest_eq]
      exact servedRequests_map_request diskSize ramdisk queue
    · intro done hdone
      exact iff_of_true (error_eq_zero_of_mem_completed hdone)
        (copied_of_inside hdone (hrequest done hdone))
    · rintro done hdone ⟨placed, hplaced, houtside⟩
      exact absurd (hrequest done hdone placed hplaced) houtside
    · intro iterations rq next hrq hpast hbody
      exact ramdisk_eq_of_pastDisk hrq hpast hbody

/-- On the driver loaded with one megabyte, a write to the first sector behind the disk is reported
as a success. -/
theorem not_honestCompletion_behind_disk :
    ¬ HonestCompletion megabyteDriver.diskSize megabyteDriver.ramdisk
      [⟨.write, 2048, ⟨1, fun _ ↦ 7⟩, []⟩] := by
  intro hhonest
  obtain ⟨completion, hmem, herror⟩ := hhonest.outside_fails
    ⟨⟨.write, 2048, ⟨1, fun _ ↦ 7⟩, []⟩,
      [⟨.write, 2048, ⟨1, fun _ ↦ 7⟩, none, 0⟩]⟩
    (by rw [myRequest_eq]; exact List.mem_singleton.mpr rfl)
    ⟨⟨2048, ⟨1, fun _ ↦ 7⟩⟩, List.mem_singleton.mpr rfl, by decide⟩
  rw [List.mem_singleton.mp hmem] at herror
  exact herror rfl

end KernelExperiments.Ramdisk
