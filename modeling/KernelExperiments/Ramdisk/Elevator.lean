import KernelExperiments.Foundation.Commuting
import KernelExperiments.Ramdisk.SectorStore

/-!
# What the elevator may do to the queue

The queue of `my_request` comes from the block layer, whose elevator reorders and merges what
programs have asked for. `Elevator` says what it may do: exchange neighbours of which neither writes
where the other reads or writes, and make one request of two neighbours where the second goes on in
the same direction where the first one ends. However often it does so, the driver leaves the same
memory and completes the same segments, each with the same buffer, position and error
(`myRequest_elevator`). So requests that do not meet may come in any order (`elevator_of_perm`).

This holds for all requests, also for those that are rejected because they reach behind the disk or
whose products wrap: `Visit.Touches` is the range a `memcpy` really goes over.
-/

set_option autoImplicit false
set_option relaxedAutoImplicit false

namespace KernelExperiments.Ramdisk

open Foundation

variable {diskSize : BitVec 32}

/-! ### Segments that do not meet -/

/-- The number of bytes a `memcpy` for the segment goes over. -/
def Visit.length (visit : Visit) : ℕ := ((segmentBytes visit.segment.sectors).signExtend 64).toNat

/-- The segment is not rejected, and its copy goes over the address. -/
def Visit.Touches (diskSize : BitVec 32) (visit : Visit) (address : ℕ) : Prop :=
  ¬ pastDisk diskSize visit.pos visit.segment.sectors ∧
    (sectorOffset visit.pos).toNat ≤ address ∧
    address < (sectorOffset visit.pos).toNat + visit.length

/-- Both segments are read, or no address is touched by both. -/
def Visit.Independent (diskSize : BitVec 32) (first second : Visit) : Prop :=
  first.direction = .read ∧ second.direction = .read ∨
    ∀ address, first.Touches diskSize address → ¬ second.Touches diskSize address

theorem Visit.Independent.symm {first second : Visit}
    (hindependent : first.Independent diskSize second) : second.Independent diskSize first :=
  hindependent.imp And.symm fun hapart address hsecond hfirst ↦ hapart address hfirst hsecond

/-- A segment that is read leaves the memory alone. -/
theorem serveVisit_of_read {visit : Visit} (hread : visit.direction = .read) (ramdisk : Memory) :
    serveVisit diskSize ramdisk visit = ramdisk := by
  unfold serveVisit transferSegment
  rw [hread]
  dsimp only
  split_ifs <;> rfl

/-- A segment leaves what it does not touch alone. -/
theorem serveVisit_of_not_touches {visit : Visit} {address : ℕ}
    (hnot : ¬ visit.Touches diskSize address) (ramdisk : Memory) :
    serveVisit diskSize ramdisk visit address = ramdisk address := by
  cases hdirection : visit.direction with
  | read => rw [serveVisit_of_read hdirection]
  | write =>
    unfold serveVisit transferSegment
    rw [hdirection]
    dsimp only
    split_ifs with hpast
    · rfl
    · exact if_neg fun hmem ↦ hnot ⟨hpast, hmem⟩

/-- What a written segment leaves at an address it touches does not depend on what was there. -/
theorem serveVisit_of_touches {visit : Visit} (hwrite : visit.direction = .write) {address : ℕ}
    (htouches : visit.Touches diskSize address) (ramdisk : Memory) :
    serveVisit diskSize ramdisk visit address =
      visit.segment.buffer (address - (sectorOffset visit.pos).toNat) := by
  unfold serveVisit transferSegment
  rw [hwrite]
  dsimp only
  rw [if_neg htouches.1]
  exact (memcpy_of_mem htouches.2.1 htouches.2.2).trans (congrArg _ (Nat.zero_add _))

/-- The completion of a segment depends on what it touches only. -/
theorem visitCompletion_congr {visit : Visit} {ramdisk other : Memory}
    (hsame : ∀ address, visit.Touches diskSize address → other address = ramdisk address) :
    visitCompletion diskSize other visit = visitCompletion diskSize ramdisk visit := by
  unfold visitCompletion transferSegment
  cases hdirection : visit.direction with
  | write =>
    dsimp only
    split_ifs <;> rfl
  | read =>
    dsimp only
    split_ifs with hpast
    · rfl
    · dsimp only
      congr 2
      funext position
      unfold memcpy
      split_ifs with hmem
      · have htouches : visit.Touches diskSize
            ((sectorOffset visit.pos).toNat + (position - 0)) := by
          refine ⟨hpast, Nat.le_add_right _ _, ?_⟩
          have hlength := hmem.2
          unfold Visit.length
          omega
        exact hsame _ htouches
      · rfl

/-- A segment does not see an independent one that is served before it. -/
theorem visitCompletion_of_independent {first second : Visit}
    (hindependent : first.Independent diskSize second) (ramdisk : Memory) :
    visitCompletion diskSize (serveVisit diskSize ramdisk second) first =
      visitCompletion diskSize ramdisk first := by
  rcases hindependent with ⟨-, hread⟩ | hapart
  · rw [serveVisit_of_read hread]
  · exact visitCompletion_congr fun address hfirst ↦
      serveVisit_of_not_touches (hapart address hfirst) ramdisk

/-- Independent segments leave the same memory in either order. -/
theorem serveVisit_comm {first second : Visit} (hindependent : first.Independent diskSize second)
    (ramdisk : Memory) :
    serveVisit diskSize (serveVisit diskSize ramdisk second) first =
      serveVisit diskSize (serveVisit diskSize ramdisk first) second := by
  rcases hindependent with ⟨hfirst, hsecond⟩ | hapart
  · rw [serveVisit_of_read hfirst, serveVisit_of_read hfirst, serveVisit_of_read hsecond]
  · funext address
    by_cases hfirst : first.Touches diskSize address
    · have hsecond := hapart address hfirst
      rw [serveVisit_of_not_touches hsecond]
      cases hdirection : first.direction with
      | read =>
        rw [serveVisit_of_read hdirection, serveVisit_of_read hdirection,
          serveVisit_of_not_touches hsecond]
      | write =>
        rw [serveVisit_of_touches hdirection hfirst, serveVisit_of_touches hdirection hfirst]
    · rw [serveVisit_of_not_touches hfirst]
      by_cases hsecond : second.Touches diskSize address
      · cases hdirection : second.direction with
        | read =>
          rw [serveVisit_of_read hdirection, serveVisit_of_read hdirection,
            serveVisit_of_not_touches hfirst]
        | write =>
          rw [serveVisit_of_touches hdirection hsecond, serveVisit_of_touches hdirection hsecond]
      · rw [serveVisit_of_not_touches hsecond, serveVisit_of_not_touches hsecond,
          serveVisit_of_not_touches hfirst]

theorem exchangeable_of_independent {first second : Visit}
    (hindependent : first.Independent diskSize second) :
    Exchangeable (serveVisit diskSize) (visitCompletion diskSize) first second where
  step_comm := serveVisit_comm hindependent
  output_first := visitCompletion_of_independent hindependent
  output_second := visitCompletion_of_independent hindependent.symm

/-! ### The elevator -/

/-- No segment of one request meets one of the other. -/
def Request.Independent (diskSize : BitVec 32) (first second : Request) : Prop :=
  ∀ visit ∈ first.visits, ∀ other ∈ second.visits, visit.Independent diskSize other

/-- The position behind the segments. -/
def segmentsEnd (pos : BitVec 64) (segments : List Segment) : BitVec 64 :=
  segments.foldl (fun pos segment ↦ pos + segment.sectors.setWidth 64) pos

/-- The second request goes on where the first one ends. -/
def Request.GoesOn (first second : Request) : Prop :=
  second.direction = first.direction ∧ second.pos = segmentsEnd first.pos first.segments

/-- One request of two. -/
def Request.merge (first second : Request) : Request :=
  { first with rest := first.rest ++ second.segments }

/-- What the elevator may make of a queue. -/
inductive Elevator (diskSize : BitVec 32) : List Request → List Request → Prop
  | reorder {queue other : List Request}
      (hreordered : Reordered (Request.Independent diskSize) queue other) :
      Elevator diskSize queue other
  | merge (before after : List Request) {first second : Request} (hgoes : first.GoesOn second) :
      Elevator diskSize (before ++ first :: second :: after) (before ++ first.merge second :: after)
  | trans {queue middle other : List Request} (hfirst : Elevator diskSize queue middle)
      (hsecond : Elevator diskSize middle other) : Elevator diskSize queue other

/-- Segments one after the other. -/
theorem segmentVisits_append (direction : Direction) (pos : BitVec 64)
    (first second : List Segment) :
    segmentVisits direction pos (first ++ second) =
      segmentVisits direction pos first ++
        segmentVisits direction (segmentsEnd pos first) second := by
  induction first generalizing pos with
  | nil => rfl
  | cons segment rest ih =>
    rw [List.cons_append, segmentVisits, ih, segmentVisits]
    rfl

/-- A merged request has the segments of both, at the positions they had. -/
theorem visits_merge {first second : Request} (hgoes : first.GoesOn second) :
    (first.merge second).visits = first.visits ++ second.visits := by
  obtain ⟨hdirection, hpos⟩ := hgoes
  unfold Request.visits
  rw [hdirection, hpos, ← segmentVisits_append]
  rfl

/-- The elevator reorders the segments of the queue. -/
theorem Elevator.reordered {queue other : List Request}
    (helevator : Elevator diskSize queue other) :
    Reordered (Visit.Independent diskSize) (queue.flatMap Request.visits)
      (other.flatMap Request.visits) := by
  induction helevator with
  | reorder hreordered => exact hreordered.flatMap fun _ _ hindependent ↦ hindependent
  | @merge before after first second hgoes =>
    have hsame : (before ++ first.merge second :: after).flatMap Request.visits =
        (before ++ first :: second :: after).flatMap Request.visits := by
      simp only [List.flatMap_append, List.flatMap_cons, visits_merge hgoes, List.append_assoc]
    rw [hsame]
    exact .refl _
  | trans _ _ ihfirst ihsecond => exact ihfirst.trans ihsecond

/-- Requests that do not meet may come in any order. -/
theorem elevator_of_perm {queue other : List Request} (hperm : queue.Perm other)
    (hapart : queue.Pairwise (Request.Independent diskSize)) : Elevator diskSize queue other :=
  .reorder <| reordered_of_perm hperm
    (fun _ _ hfirst visit hvisit other hother ↦ (hfirst other hother visit hvisit).symm) hapart

/-- The driver completes the segments of a queue as a run over them. -/
theorem myRequest_completions (diskSize : BitVec 32) (ramdisk : Memory) (queue : List Request) :
    (myRequest diskSize ramdisk queue).completions =
      outputs (serveVisit diskSize) (visitCompletion diskSize) ramdisk
        (queue.flatMap Request.visits) := by
  rw [myRequest_eq]
  exact servedRequests_flatMap_completions diskSize ramdisk queue

/-- Whatever the elevator makes of a queue, the driver drains it, leaves the same memory, and
completes the same segments with the same results. -/
theorem myRequest_elevator {queue other : List Request} (helevator : Elevator diskSize queue other)
    (ramdisk : Memory) :
    (myRequest diskSize ramdisk other).ramdisk = (myRequest diskSize ramdisk queue).ramdisk ∧
      (myRequest diskSize ramdisk other).completions.Perm
        (myRequest diskSize ramdisk queue).completions := by
  obtain ⟨hramdisk, hcompletions⟩ :=
    run_reordered (fun _ _ ↦ exchangeable_of_independent) helevator.reordered ramdisk
  rw [myRequest_completions, myRequest_completions, myRequest_eq, myRequest_eq]
  exact ⟨hramdisk, hcompletions⟩

/-- A write of one sector. -/
def firstHalf : Request := ⟨.write, 4, ⟨1, fun _ ↦ 7⟩, []⟩

/-- A read of another sector. -/
def elsewhere : Request := ⟨.read, 9, ⟨1, fun _ ↦ 0⟩, []⟩

/-- A write of the two sectors behind the first half. -/
def secondHalf : Request := ⟨.write, 5, ⟨2, fun _ ↦ 8⟩, []⟩

/-- The two halves can be brought together and merged. -/
theorem elevator_halves :
    Elevator 0x100000 [firstHalf, elsewhere, secondHalf]
      [firstHalf.merge secondHalf, elsewhere] := by
  have hapart : elsewhere.Independent 0x100000 secondHalf := by
    intro visit hvisit other hother
    rw [List.mem_singleton.mp hvisit, List.mem_singleton.mp hother]
    refine Or.inr fun address hread hwritten ↦ ?_
    have hfirst : 4608 ≤ address := hread.2.1
    have hlast : address < 2560 + 1024 := hwritten.2.2
    omega
  have hgoes : firstHalf.GoesOn secondHalf := ⟨rfl, by decide⟩
  exact .trans (.reorder (.swap [firstHalf] [] hapart)) (.merge [] [elsewhere] hgoes)

/-- One write leaves what the two halves leave. -/
theorem mergedHalves_agree :
    (myRequest 0x100000 (fun _ ↦ 0) [firstHalf.merge secondHalf, elsewhere]).ramdisk =
        (myRequest 0x100000 (fun _ ↦ 0) [firstHalf, elsewhere, secondHalf]).ramdisk ∧
      (myRequest 0x100000 (fun _ ↦ 0) [firstHalf.merge secondHalf, elsewhere]).completions.Perm
        (myRequest 0x100000 (fun _ ↦ 0) [firstHalf, elsewhere, secondHalf]).completions :=
  myRequest_elevator elevator_halves fun _ ↦ 0

end KernelExperiments.Ramdisk
