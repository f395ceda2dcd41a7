import KernelExperiments.Foundation.Interleaving
import KernelExperiments.Ramdisk.Completion

/-!
# The ramdisk in service

`insmod` and `rmmod` are not single steps: requests can come as soon as `add_disk` has put the disk
into the system, and they still come while `my_exit` takes it apart. `Service` is the module between
any two kernel calls of `my_init` and `my_exit`, with the queue that the block layer fills and from
which it calls `my_request`, over any number of loads.

What `my_exit` relies on is the order of its calls: `blk_cleanup_queue` lets nothing into the queue
any more and waits until it is empty, and only then does `vfree` give the memory back. So
`my_request` never runs without its memory, every request is served once and in its turn, and
however the block layer cuts the stream of requests into calls of `my_request`, the result is that
of one call with all of them (`service_law`). The calls of `my_init` and of `my_exit` in a row are
`myInit` and `myExit` (`run_insmod`, `run_rmmod`).

## Scope

The block layer keeps its promises: it lets no request behind the capacity into the queue, and
`blk_cleanup_queue` marks the queue as dying and drains it.
-/

set_option autoImplicit false
set_option relaxedAutoImplicit false

namespace KernelExperiments.Ramdisk

open Foundation

/-! ### The module and its queue -/

/-- Where the module stands: not loaded, in front of a kernel call of `my_init`, in front of one of
those that a failure in there asks for, loaded, or in front of a kernel call of `my_exit`. The
module is `draining` while it waits in `blk_cleanup_queue`. -/
inductive ServicePc
  | unloaded
  | vmalloc
  | blkInitQueue
  | registerBlkdev
  | allocDisk
  | addDisk
  | undoMajor
  | undoMemory
  | loaded
  | delGendisk
  | putDisk
  | unregisterBlkdev
  | cleanupQueue
  | draining
  | vfree
  deriving DecidableEq

/-- The module with its memory, while it is allocated, and its queue, while it is there. Then what
has happened since the module was last loaded: the contents the memory was allocated with, the
requests that came into the queue, and those that were completed; whether `my_request` has ever run
without its memory; and all resources taken and given back. -/
structure Service where
  pc : ServicePc
  diskSize : BitVec 32
  ramdisk : Option Memory
  capacity : BitVec 64
  queue : Option (List Request)
  accepts : Bool
  initial : Memory
  submitted : List Request
  served : List CompletedRequest
  wildAccess : Bool
  resources : List ResourceEvent

/-- The machine after boot. -/
def Service.boot : Service where
  pc := .unloaded
  diskSize := 0
  ramdisk := none
  capacity := 0
  queue := none
  accepts := false
  initial := fun _ ↦ 0
  submitted := []
  served := []
  wildAccess := false
  resources := []

/-- The requests that wait in the queue. -/
def Service.pending (state : Service) : List Request := state.queue.getD []

/-- The module is loaded with a value of its parameter or is to leave, goes on with a kernel call, a
request comes into the queue, or the block layer has the queue served. -/
inductive ServiceEvent
  | insmod (diskmb : BitVec 32)
  | rmmod
  | module (calls : InitCalls)
  | submit (request : Request)
  | dispatch

instance decidableInsideCapacity (capacity : BitVec 64) (request : Request) :
    Decidable (request.InsideCapacity capacity) :=
  inferInstanceAs (Decidable (_ ≤ _))

/-- The next kernel call of the module, with its outcome among `calls`. -/
def Service.moduleStep (state : Service) (calls : InitCalls) : Option Service :=
  match state.pc with
  | .unloaded | .loaded => none
  | .vmalloc =>
    match calls.vmalloc.alloc (state.diskSize.signExtend 64) with
    | none => some { state with pc := .unloaded }
    | some memory => some { state with
        pc := .blkInitQueue
        ramdisk := some memory
        initial := memory
        resources := state.resources ++ [.acquire .memory] }
  | .blkInitQueue =>
    if calls.blkInitQueue then some { state with
      pc := .registerBlkdev
      queue := some []
      resources := state.resources ++ [.acquire .queue] }
    else some { state with pc := .undoMemory, queue := none }
  | .registerBlkdev =>
    if calls.registerBlkdev < 0 then some { state with pc := .undoMemory }
    else some { state with
      pc := .allocDisk
      resources := state.resources ++ [.acquire .major] }
  | .allocDisk =>
    if calls.allocDisk then some { state with
      pc := .addDisk
      resources := state.resources ++ [.acquire .gendisk] }
    else some { state with pc := .undoMajor }
  | .addDisk => some { state with
      pc := .loaded
      capacity := BitVec.ofInt 64 (state.diskSize.toInt.tdiv sectorSize.toNat)
      accepts := true }
  | .undoMajor => some { state with
      pc := .undoMemory
      resources := state.resources ++ [.release .major] }
  | .undoMemory | .vfree => some { state with
      pc := .unloaded
      ramdisk := none
      resources := state.resources ++ [.release .memory] }
  | .delGendisk => some { state with pc := .putDisk }
  | .putDisk => some { state with
      pc := .unregisterBlkdev
      resources := state.resources ++ [.release .gendisk] }
  | .unregisterBlkdev => some { state with
      pc := .cleanupQueue
      resources := state.resources ++ [.release .major] }
  | .cleanupQueue => some { state with pc := .draining, accepts := false }
  | .draining =>
    if state.pending = [] then some { state with
      pc := .vfree
      queue := none
      resources := state.resources ++ [.release .queue] }
    else none

/-- A step of the module or of the block layer. -/
def serviceStep (state : Service) : ServiceEvent → Option Service
  | .insmod diskmb =>
    if state.pc = .unloaded then some { state with
      pc := .vmalloc
      diskSize := diskmb * 1024 * 1024
      submitted := []
      served := [] }
    else none
  | .rmmod => if state.pc = .loaded then some { state with pc := .delGendisk } else none
  | .module calls => state.moduleStep calls
  | .submit request =>
    if state.accepts ∧ request.InsideCapacity state.capacity then some { state with
      queue := some (state.pending ++ [request])
      submitted := state.submitted ++ [request] }
    else none
  | .dispatch =>
    if state.pending = [] then none
    else
      match state.ramdisk with
      | none => some { state with queue := some [], wildAccess := true }
      | some memory =>
        let final := myRequest state.diskSize memory state.pending
        some { state with
          ramdisk := some final.ramdisk
          queue := some final.queue
          served := state.served ++ final.completed }

/-! ### Calls of `my_request` one after the other -/

theorem servedRequests_append (diskSize : BitVec 32) (ramdisk : Memory)
    (first second : List Request) :
    servedRequests diskSize ramdisk (first ++ second) = servedRequests diskSize ramdisk first ++
      servedRequests diskSize
        (run (serveVisit diskSize) ramdisk (first.flatMap Request.visits)) second := by
  induction first generalizing ramdisk with
  | nil => rfl
  | cons request rest ih =>
    rw [List.cons_append, servedRequests, ih, List.flatMap_cons, run_append]
    rfl

/-- Two calls of `my_request` are one call with both queues. -/
theorem myRequest_append (diskSize : BitVec 32) (ramdisk : Memory) (first second : List Request) :
    (myRequest diskSize ramdisk (first ++ second)).ramdisk =
        (myRequest diskSize (myRequest diskSize ramdisk first).ramdisk second).ramdisk ∧
      (myRequest diskSize ramdisk (first ++ second)).completed =
        (myRequest diskSize ramdisk first).completed ++
          (myRequest diskSize (myRequest diskSize ramdisk first).ramdisk second).completed := by
  simp only [myRequest_eq, List.flatMap_append, run_append, servedRequests_append, and_self]

/-! ### What holds of the module in service -/

/-- The memory is allocated. -/
def ServicePc.hasMemory : ServicePc → Bool
  | .unloaded | .vmalloc => false
  | _ => true

/-- Requests can come. -/
def ServicePc.accepts : ServicePc → Bool
  | .loaded | .delGendisk | .putDisk | .unregisterBlkdev | .cleanupQueue => true
  | _ => false

/-- Requests may wait. -/
def ServicePc.serves : ServicePc → Bool
  | .draining => true
  | pc => pc.accepts

/-- The load is not over: no request has come yet. -/
def ServicePc.starting : ServicePc → Bool
  | .vmalloc | .blkInitQueue | .registerBlkdev | .allocDisk | .addDisk | .undoMajor
  | .undoMemory => true
  | _ => false

/-- What has been served since the load, and what waits: all requests that came, in their order, and
what one call of `my_request` would have made of those that are served. -/
structure ServedInOrder (diskSize : BitVec 32) (initial : Memory) (ramdisk : Option Memory)
    (pending submitted : List Request) (served : List CompletedRequest) : Prop where
  conserved : served.map CompletedRequest.request ++ pending = submitted
  completed_eq :
    (myRequest diskSize initial (served.map CompletedRequest.request)).completed = served
  ramdisk_eq : ∀ memory, ramdisk = some memory →
    (myRequest diskSize initial (served.map CompletedRequest.request)).ramdisk = memory

/-- The invariant of the module in service. -/
structure Service.Sound (state : Service) : Prop where
  tame : state.wildAccess = false
  memory : state.ramdisk.isSome = state.pc.hasMemory
  accepts : state.accepts = state.pc.accepts
  idle : state.pc.serves = false → state.pending = []
  starting : state.pc.starting = true → state.submitted = []
  sized : state.pc.hasMemory = true → 0 < state.diskSize.toInt
  capacity : state.pc.serves = true ∨ state.submitted ≠ [] →
    (512 * state.capacity.toNat : ℤ) ≤ state.diskSize.toInt
  inside : ∀ request ∈ state.submitted, request.InsideCapacity state.capacity
  inOrder : ServedInOrder state.diskSize state.initial state.ramdisk state.pending state.submitted
    state.served

variable {state final : Service}

theorem sound_boot : Service.boot.Sound where
  tame := rfl
  memory := rfl
  accepts := rfl
  idle _ := rfl
  starting := nofun
  sized := nofun
  capacity hmay := by
    rcases hmay with hserves | hsome
    · cases hserves
    · exact absurd rfl hsome
  inside := List.forall_mem_nil _
  inOrder := ⟨rfl, rfl, nofun⟩

/-- The module is loaded again. -/
theorem Service.Sound.insmod (hsound : state.Sound) (hpc : state.pc = .unloaded)
    (diskmb : BitVec 32) :
    Service.Sound { state with
      pc := .vmalloc
      diskSize := diskmb * 1024 * 1024
      submitted := []
      served := [] } := by
  have hmemory := hsound.memory
  have haccepts := hsound.accepts
  have hidle := hsound.idle
  rw [hpc] at hmemory haccepts hidle
  have hnone : state.ramdisk = none := Option.not_isSome_iff_eq_none.mp (by rw [hmemory]; decide)
  exact {
    tame := hsound.tame
    memory := hmemory
    accepts := haccepts
    idle := fun _ ↦ hidle rfl
    starting := fun _ ↦ rfl
    sized := nofun
    capacity := fun hmay ↦ by
      rcases hmay with hserves | hsome
      · cases hserves
      · exact absurd rfl hsome
    inside := List.forall_mem_nil _
    inOrder := ⟨hidle rfl, rfl, fun memory hmemory ↦ by cases hnone.symm.trans hmemory⟩ }

theorem ServicePc.serves_of_accepts {pc : ServicePc} (haccepts : pc.accepts = true) :
    pc.serves = true ∧ pc.starting = false := by
  cases pc <;> first | exact ⟨rfl, rfl⟩ | cases haccepts

/-- While the module is being loaded nothing waits. -/
theorem Service.Sound.pending_of_starting (hsound : state.Sound)
    (hstarting : state.pc.starting = true) : state.pending = [] ∧ state.served = [] := by
  have hconserved := hsound.inOrder.conserved
  rw [hsound.starting hstarting] at hconserved
  obtain ⟨hserved, hpending⟩ := List.append_eq_nil_iff.mp hconserved
  exact ⟨hpending, List.map_eq_nil_iff.mp hserved⟩

/-- A request comes. -/
theorem Service.Sound.submit (hsound : state.Sound) {request : Request}
    (haccepts : state.accepts = true) (hinside : request.InsideCapacity state.capacity) :
    Service.Sound { state with
      queue := some (state.pending ++ [request])
      submitted := state.submitted ++ [request] } := by
  obtain ⟨hserves, hlater⟩ :=
    ServicePc.serves_of_accepts (hsound.accepts.symm.trans haccepts)
  have hconserved := hsound.inOrder.conserved
  exact {
    tame := hsound.tame
    memory := hsound.memory
    accepts := hsound.accepts
    idle := fun hidle ↦ by cases hserves.symm.trans hidle
    starting := fun hstarting ↦ by cases hlater.symm.trans hstarting
    sized := hsound.sized
    capacity := fun _ ↦ hsound.capacity (Or.inl hserves)
    inside := List.forall_mem_append.mpr ⟨hsound.inside, List.forall_mem_singleton.mpr hinside⟩
    inOrder := ⟨by rw [← hconserved, List.append_assoc]; rfl, hsound.inOrder.completed_eq,
      hsound.inOrder.ramdisk_eq⟩ }

/-- A call of `my_request` with all that waits. -/
theorem ServedInOrder.dispatch {diskSize : BitVec 32} {initial memory : Memory}
    {pending submitted : List Request} {served : List CompletedRequest}
    (hserved : ServedInOrder diskSize initial (some memory) pending submitted served) :
    ServedInOrder diskSize initial (some (myRequest diskSize memory pending).ramdisk)
      (myRequest diskSize memory pending).queue submitted
      (served ++ (myRequest diskSize memory pending).completed) := by
  have hrequests : (served ++ (myRequest diskSize memory pending).completed).map
      CompletedRequest.request = served.map CompletedRequest.request ++ pending := by
    rw [List.map_append, myRequest_eq]
    exact congrArg _ (servedRequests_map_request diskSize memory pending)
  obtain ⟨hramdisk, hcompleted⟩ := myRequest_append diskSize initial
    (served.map CompletedRequest.request) pending
  rw [hserved.ramdisk_eq memory rfl] at hramdisk hcompleted
  refine ⟨?_, ?_, ?_⟩
  · rw [hrequests, ← hserved.conserved, myRequest_eq]
    exact List.append_nil _
  · rw [hrequests, hcompleted, hserved.completed_eq]
  · intro after hafter
    rw [hrequests, hramdisk, Option.some.inj hafter]

/-- The queue is served. -/
theorem Service.Sound.dispatch (hsound : state.Sound) {memory : Memory}
    (hmemory : state.ramdisk = some memory) (hpending : state.pending ≠ []) :
    Service.Sound { state with
      ramdisk := some (myRequest state.diskSize memory state.pending).ramdisk
      queue := some (myRequest state.diskSize memory state.pending).queue
      served := state.served ++ (myRequest state.diskSize memory state.pending).completed } := by
  have hinOrder := hsound.inOrder
  have hallocated := hsound.memory
  rw [hmemory] at hinOrder hallocated
  exact {
    tame := hsound.tame
    memory := hallocated
    accepts := hsound.accepts
    idle := fun hidle ↦ absurd (hsound.idle hidle) hpending
    starting := hsound.starting
    sized := hsound.sized
    capacity := hsound.capacity
    inside := hsound.inside
    inOrder := hinOrder.dispatch }

/-- The memory is there whenever a request waits. -/
theorem Service.Sound.exists_memory (hsound : state.Sound) (hpending : state.pending ≠ []) :
    ∃ memory, state.ramdisk = some memory := by
  have hserves : state.pc.serves = true := by
    by_contra hnot
    exact hpending (hsound.idle (Bool.eq_false_iff.mpr hnot))
  have hmemory : state.pc.hasMemory = true := by
    generalize state.pc = pc at hserves
    cases pc <;> first | rfl | cases hserves
  exact Option.isSome_iff_exists.mp (hsound.memory.trans hmemory)

/-- The module goes on and neither takes nor gives back its memory. The queue may be exchanged for
another one with the same requests. -/
theorem Service.Sound.goTo (hsound : state.Sound) {pc : ServicePc} {queue : Option (List Request)}
    {accepts : Bool} {resources : List ResourceEvent} (hmemory : pc.hasMemory = state.pc.hasMemory)
    (haccepts : accepts = pc.accepts) (hqueue : queue.getD [] = state.pending)
    (hidle : pc.serves = false → state.pending = [])
    (hserves : pc.serves = true → state.pc.serves = true)
    (hstarting : pc.starting = true → state.pc.starting = true) :
    Service.Sound { state with
      pc := pc
      queue := queue
      accepts := accepts
      resources := resources } where
  tame := hsound.tame
  memory := hsound.memory.trans hmemory.symm
  accepts := haccepts
  idle hnot := hqueue.trans (hidle hnot)
  starting hbefore := hsound.starting (hstarting hbefore)
  sized hhas := hsound.sized (hmemory.symm.trans hhas)
  capacity hmay := hsound.capacity (hmay.imp_left hserves)
  inside := hsound.inside
  inOrder := ⟨(congrArg _ hqueue).trans hsound.inOrder.conserved, hsound.inOrder.completed_eq,
    hsound.inOrder.ramdisk_eq⟩

/-- `vmalloc` in `my_init`. -/
theorem Service.Sound.allocate (hsound : state.Sound) (hpc : state.pc = .vmalloc)
    {vmalloc : Vmalloc} {memory : Memory} {resources : List ResourceEvent}
    (halloc : vmalloc.alloc (state.diskSize.signExtend 64) = some memory) :
    Service.Sound { state with
      pc := .blkInitQueue
      ramdisk := some memory
      initial := memory
      resources := resources } := by
  have hstarting : state.pc.starting = true := by rw [hpc]; rfl
  have haccepts := hsound.accepts
  rw [hpc] at haccepts
  obtain ⟨hpending, hserved⟩ := hsound.pending_of_starting hstarting
  have hsubmitted := hsound.starting hstarting
  exact {
    tame := hsound.tame
    memory := rfl
    accepts := haccepts
    idle := fun _ ↦ hpending
    starting := fun _ ↦ hsubmitted
    sized := fun _ ↦ vmalloc.toInt_pos_of_alloc halloc
    capacity := fun hmay ↦ by
      rcases hmay with hserves | hsome
      · cases hserves
      · exact absurd hsubmitted hsome
    inside := hsound.inside
    inOrder := by
      change ServedInOrder _ _ _ state.pending state.submitted state.served
      rw [hpending, hserved, hsubmitted]
      exact ⟨rfl, rfl, fun _ hmemory ↦ Option.some.inj hmemory⟩ }

/-- `set_capacity` and `add_disk`. -/
theorem Service.Sound.addDisk (hsound : state.Sound) (hpc : state.pc = .addDisk) :
    Service.Sound { state with
      pc := .loaded
      capacity := BitVec.ofInt 64 (state.diskSize.toInt.tdiv sectorSize.toNat)
      accepts := true } := by
  have hstarting : state.pc.starting = true := by rw [hpc]; rfl
  have hsized : 0 < state.diskSize.toInt := hsound.sized (by rw [hpc]; rfl)
  have hmemory := hsound.memory
  rw [hpc] at hmemory
  have hsubmitted := hsound.starting hstarting
  exact {
    tame := hsound.tame
    memory := hmemory
    accepts := rfl
    idle := nofun
    starting := nofun
    sized := fun _ ↦ hsized
    capacity := fun _ ↦ by
      have hsize : 2 * state.diskSize.toInt < 2 ^ 32 := BitVec.two_mul_toInt_lt
      have hsector : (sectorSize.toNat : ℤ) = 512 := rfl
      dsimp only
      rw [hsector, BitVec.toNat_ofInt, Int.tdiv_eq_ediv_of_nonneg (Int.le_of_lt hsized)]
      omega
    inside := by
      change ∀ request ∈ state.submitted, _
      rw [hsubmitted]
      exact List.forall_mem_nil _
    inOrder := hsound.inOrder }

/-- `vfree`. -/
theorem Service.Sound.free (hsound : state.Sound) {resources : List ResourceEvent}
    (haccepts : state.pc.accepts = false) (hpending : state.pending = []) :
    Service.Sound { state with
      pc := .unloaded
      ramdisk := none
      resources := resources } where
  tame := hsound.tame
  memory := rfl
  accepts := hsound.accepts.trans haccepts
  idle _ := hpending
  starting := nofun
  sized := nofun
  capacity hmay := by
    rcases hmay with hserves | hsome
    · cases hserves
    · exact hsound.capacity (Or.inr hsome)
  inside := hsound.inside
  inOrder := ⟨hsound.inOrder.conserved, hsound.inOrder.completed_eq, nofun⟩

/-- A kernel call of the module. -/
theorem Service.Sound.module (hsound : state.Sound) {calls : InitCalls}
    (hstep : state.moduleStep calls = some final) : final.Sound := by
  unfold Service.moduleStep at hstep
  have haccepts := hsound.accepts
  have hidle := hsound.idle
  cases hpc : state.pc with
  | unloaded | loaded =>
    rw [hpc] at hstep
    cases hstep
  | vmalloc =>
    simp only [hpc] at hstep haccepts hidle
    split at hstep
    · cases hstep
      exact hsound.goTo (by rw [hpc]; rfl) haccepts rfl (fun _ ↦ hidle rfl) nofun nofun
    · rename_i memory halloc
      cases hstep
      exact hsound.allocate hpc halloc
  | blkInitQueue =>
    simp only [hpc] at hstep haccepts hidle
    split at hstep
    · cases hstep
      exact hsound.goTo (by rw [hpc]; rfl) haccepts (hidle rfl).symm (fun _ ↦ hidle rfl) nofun
        fun _ ↦ by rw [hpc]; rfl
    · cases hstep
      exact hsound.goTo (by rw [hpc]; rfl) haccepts (hidle rfl).symm (fun _ ↦ hidle rfl) nofun
        fun _ ↦ by rw [hpc]; rfl
  | registerBlkdev | allocDisk =>
    simp only [hpc] at hstep haccepts hidle
    split at hstep
    · cases hstep
      exact hsound.goTo (by rw [hpc]; rfl) haccepts rfl (fun _ ↦ hidle rfl) nofun
        fun _ ↦ by rw [hpc]; rfl
    · cases hstep
      exact hsound.goTo (by rw [hpc]; rfl) haccepts rfl (fun _ ↦ hidle rfl) nofun
        fun _ ↦ by rw [hpc]; rfl
  | addDisk =>
    simp only [hpc] at hstep
    cases hstep
    exact hsound.addDisk hpc
  | undoMajor =>
    simp only [hpc] at hstep haccepts hidle
    cases hstep
    exact hsound.goTo (by rw [hpc]; rfl) haccepts rfl (fun _ ↦ hidle rfl) nofun
      fun _ ↦ by rw [hpc]; rfl
  | undoMemory | vfree =>
    simp only [hpc] at hstep hidle
    cases hstep
    exact hsound.free (by rw [hpc]; rfl) (hidle rfl)
  | delGendisk | putDisk | unregisterBlkdev =>
    simp only [hpc] at hstep haccepts
    cases hstep
    exact hsound.goTo (by rw [hpc]; rfl) haccepts rfl nofun (fun _ ↦ by rw [hpc]; rfl) nofun
  | cleanupQueue =>
    simp only [hpc] at hstep
    cases hstep
    exact hsound.goTo (by rw [hpc]; rfl) rfl rfl nofun (fun _ ↦ by rw [hpc]; rfl) nofun
  | draining =>
    simp only [hpc] at hstep haccepts
    split at hstep
    · rename_i hpending
      cases hstep
      exact hsound.goTo (by rw [hpc]; rfl) haccepts hpending.symm (fun _ ↦ hpending) nofun nofun
    · cases hstep

/-- A step of the module or of the block layer keeps the invariant. -/
theorem sound_serviceStep (state : Service) (event : ServiceEvent) (final : Service)
    (hstep : serviceStep state event = some final) (hsound : state.Sound) : final.Sound := by
  cases event with
  | insmod diskmb =>
    dsimp only [serviceStep] at hstep
    split_ifs at hstep with hpc
    cases hstep
    exact hsound.insmod hpc diskmb
  | rmmod =>
    dsimp only [serviceStep] at hstep
    split_ifs at hstep with hpc
    cases hstep
    have haccepts := hsound.accepts
    rw [hpc] at haccepts
    exact hsound.goTo (by rw [hpc]; rfl) haccepts rfl nofun (fun _ ↦ by rw [hpc]; rfl) nofun
  | module calls => exact hsound.module hstep
  | submit request =>
    dsimp only [serviceStep] at hstep
    split_ifs at hstep with hmay
    cases hstep
    exact hsound.submit hmay.1 hmay.2
  | dispatch =>
    dsimp only [serviceStep] at hstep
    split_ifs at hstep with hpending
    obtain ⟨memory, hmemory⟩ := hsound.exists_memory hpending
    rw [hmemory] at hstep
    cases hstep
    exact hsound.dispatch hmemory hpending

/-! ### The law -/

/-- The copy for the segment went over its own bytes, and they lie in the area. -/
def Completion.InsideArea (diskSize : BitVec 32) (completion : Completion) : Prop :=
  completion.transfer =
      some ⟨512 * completion.pos.toNat, 512 * completion.segment.sectors.toNat⟩ ∧
    InsideDisk diskSize completion.pos.toNat completion.segment.sectors.toNat

/-- What holds at all times of the module in service. -/
structure ServiceLaw (state : Service) : Prop where
  /-- `my_request` has not run without its memory. -/
  tame : state.wildAccess = false
  /-- The requests that came are those that were completed, in their order, and those that wait. -/
  conserved : state.served.map CompletedRequest.request ++ state.pending = state.submitted
  /-- Nothing waits when the module is not in service. -/
  idle : state.pc.serves = false → state.pending = []
  /-- Every segment was copied, and inside the memory. -/
  inside : ∀ done ∈ state.served, ∀ completion ∈ done.completions,
    completion.InsideArea state.diskSize
  /-- The requests were completed as one call of `my_request` completes them, and the memory is as
  it leaves it. -/
  asOneCall :
    (myRequest state.diskSize state.initial
        (state.served.map CompletedRequest.request)).completed = state.served ∧
      ∀ memory, state.ramdisk = some memory →
        (myRequest state.diskSize state.initial
          (state.served.map CompletedRequest.request)).ramdisk = memory
  /-- The memory is given back with the module, and no request can come then. -/
  unloaded : state.pc = .unloaded → state.ramdisk = none ∧ state.accepts = false
  /-- The module can go on with its next call, at the latest when the queue has been served. -/
  goesOn : ∀ calls, state.pc ≠ .unloaded → state.pc ≠ .loaded →
    (state.moduleStep calls).isSome ∨
      ∃ after, serviceStep state .dispatch = some after ∧ (after.moduleStep calls).isSome

/-- The completions of a request inside the disk. -/
theorem insideArea_of_mem_completed {diskSize : BitVec 32} {ramdisk : Memory}
    {queue : List Request} {done : CompletedRequest}
    (hdone : done ∈ (myRequest diskSize ramdisk queue).completed)
    (hinside : ∀ placed ∈ done.request.placed, placed.Inside diskSize) :
    ∀ completion ∈ done.completions, completion.InsideArea diskSize := by
  obtain ⟨-, memory, hcompletions⟩ := exists_of_mem_completed hdone
  have hvisits : ∀ visit ∈ done.request.visits, visit.placed.Inside diskSize :=
    fun visit hvisit ↦ inside_of_mem_visits hinside hvisit
  rw [hcompletions]
  refine forall_mem_outputs ((along_of_mem (serveVisit diskSize) hvisits memory).mono ?_)
  intro state visit hvisit
  obtain ⟨direction, pos, segment⟩ := visit
  have hplace : InsideDisk diskSize pos.toNat segment.sectors.toNat := hvisit
  rw [visitCompletion, transferSegment_of_inside 0 state direction hplace]
  cases direction <;> exact ⟨rfl, hplace⟩

theorem isSome_moduleStep_of_drained (calls : InitCalls) (hpc : state.pc = .draining)
    (hpending : state.pending = []) : (state.moduleStep calls).isSome := by
  rw [Service.moduleStep, hpc]
  dsimp only
  rw [if_pos hpending]
  rfl

/-- The module in `blk_cleanup_queue` goes on when the queue has been served. -/
theorem Service.Sound.goesOn (hsound : state.Sound) (calls : InitCalls)
    (hunloaded : state.pc ≠ .unloaded) (hloaded : state.pc ≠ .loaded) :
    (state.moduleStep calls).isSome ∨
      ∃ after, serviceStep state .dispatch = some after ∧ (after.moduleStep calls).isSome := by
  by_cases hwaits : state.pc = .draining ∧ state.pending ≠ []
  · obtain ⟨hpc, hpending⟩ := hwaits
    obtain ⟨memory, hmemory⟩ := hsound.exists_memory hpending
    refine Or.inr ⟨{ state with
      ramdisk := some (myRequest state.diskSize memory state.pending).ramdisk
      queue := some (myRequest state.diskSize memory state.pending).queue
      served := state.served ++ (myRequest state.diskSize memory state.pending).completed }, ?_, ?_⟩
    · rw [serviceStep, if_neg hpending, hmemory]
    · have hempty : (myRequest state.diskSize memory state.pending).queue = [] := by
        rw [myRequest_eq]
      exact isSome_moduleStep_of_drained calls hpc hempty
  · refine Or.inl ?_
    unfold Service.moduleStep
    cases hpc : state.pc with
    | unloaded => exact absurd hpc hunloaded
    | loaded => exact absurd hpc hloaded
    | draining =>
      have hpending : state.pending = [] := by
        by_contra hpending
        exact hwaits ⟨hpc, hpending⟩
      have hsome := isSome_moduleStep_of_drained calls hpc hpending
      rwa [Service.moduleStep, hpc] at hsome
    | vmalloc | blkInitQueue | registerBlkdev | allocDisk =>
      dsimp only
      split <;> rfl
    | addDisk | undoMajor | undoMemory | delGendisk | putDisk | unregisterBlkdev | cleanupQueue
    | vfree => rfl

theorem Service.Sound.law (hsound : state.Sound) : ServiceLaw state where
  tame := hsound.tame
  conserved := hsound.inOrder.conserved
  idle := hsound.idle
  inside done hdone := by
    have hcompleted : done ∈ (myRequest state.diskSize state.initial
        (state.served.map CompletedRequest.request)).completed := by
      rwa [hsound.inOrder.completed_eq]
    have hsubmitted : done.request ∈ state.submitted := by
      rw [← hsound.inOrder.conserved]
      exact List.mem_append_left _ (List.mem_map_of_mem hdone)
    have hcapacity := hsound.capacity (Or.inr (List.ne_nil_of_mem hsubmitted))
    exact insideArea_of_mem_completed hcompleted
      (placed_inside_of_insideCapacity hcapacity _ _ (hsound.inside _ hsubmitted))
  asOneCall := ⟨hsound.inOrder.completed_eq, hsound.inOrder.ramdisk_eq⟩
  unloaded hpc := by
    have hmemory := hsound.memory
    have haccepts := hsound.accepts
    rw [hpc] at hmemory haccepts
    exact ⟨Option.not_isSome_iff_eq_none.mp (by rw [hmemory]; decide), haccepts⟩
  goesOn calls := hsound.goesOn calls

/-- The law holds after every run of loads and unloads, requests and calls of `my_request`, in any
order and between any two kernel calls of the module. -/
theorem service_law (events : List ServiceEvent) :
    ServiceLaw (run (attempt serviceStep) Service.boot events) :=
  (interleaving_invariant sound_boot sound_serviceStep events).law

/-- A write of the last sector of one megabyte. -/
def lastSectorWrite : Request := ⟨.write, 2047, ⟨1, fun _ ↦ 7⟩, []⟩

/-- A load with one megabyte, and a request that comes while the module leaves and is served while
it waits for the queue. -/
def requestWhileLeaving : List ServiceEvent :=
  .insmod 1 :: List.replicate 5 (.module smallMachineCalls) ++
    [.rmmod, .module smallMachineCalls, .module smallMachineCalls, .submit lastSectorWrite] ++
    List.replicate 3 (.module smallMachineCalls) ++ [.dispatch] ++
    List.replicate 2 (.module smallMachineCalls)

/-- The request that came last is served before the memory is given back. -/
theorem requestWhileLeaving_served :
    (run (attempt serviceStep) Service.boot requestWhileLeaving).pc = .unloaded ∧
      (run (attempt serviceStep) Service.boot requestWhileLeaving).served.map
        CompletedRequest.request = [lastSectorWrite] := by
  have hpc : (run (attempt serviceStep) Service.boot requestWhileLeaving).pc = .unloaded := rfl
  have hlaw := service_law requestWhileLeaving
  have hconserved := hlaw.conserved
  rw [hlaw.idle (by rw [hpc]; rfl), List.append_nil] at hconserved
  exact ⟨hpc, hconserved⟩

/-! ### Loading and unloading without a break -/

/-- What a load that nothing comes between leaves of a machine on which the module was not loaded:
what `myInit` says. -/
structure Loads (state final : Service) (result : InitResult) : Prop where
  resources_eq : final.resources = state.resources ++ result.events
  outcome : match result.outcome with
    | .ok driver => final.pc = .loaded ∧ final.diskSize = driver.diskSize ∧
        final.ramdisk = some driver.ramdisk ∧ final.capacity = driver.capacity
    | .error _ => final.pc = .unloaded

/-- The kernel calls of `my_init` in a row are `myInit`. -/
theorem run_insmod (hpc : state.pc = .unloaded) (diskmb : BitVec 32) (calls : InitCalls) :
    Loads state (run (attempt serviceStep) state
      (.insmod diskmb :: List.replicate 6 (.module calls))) (myInit calls diskmb) := by
  have hinsmod : attempt serviceStep state (.insmod diskmb) = { state with
      pc := .vmalloc
      diskSize := diskmb * 1024 * 1024
      submitted := []
      served := [] } := attempt_of_some (by rw [serviceStep, if_pos hpc])
  rw [run_cons, hinsmod, myInit]
  generalize diskmb * 1024 * 1024 = diskSize
  cases halloc : calls.vmalloc.alloc (diskSize.signExtend 64) with
  | none => constructor <;> simp [halloc, run, attempt, serviceStep, Service.moduleStep]
  | some memory =>
    cases hqueue : calls.blkInitQueue with
    | false => constructor <;> simp [halloc, hqueue, run, attempt, serviceStep, Service.moduleStep]
    | true =>
      by_cases hmajor : calls.registerBlkdev < 0
      · constructor <;>
          simp [halloc, hqueue, hmajor, run, attempt, serviceStep, Service.moduleStep]
      · cases hdisk : calls.allocDisk <;> constructor <;>
          simp [halloc, hqueue, hmajor, hdisk, run, attempt, serviceStep, Service.moduleStep]

/-- The kernel calls of `my_exit` in a row give back what `myExit` says. -/
theorem run_rmmod (hpc : state.pc = .loaded) (hpending : state.pending = []) (calls : InitCalls) :
    (run (attempt serviceStep) state
        (.rmmod :: List.replicate 6 (.module calls))).resources = state.resources ++ myExit ∧
      (run (attempt serviceStep) state
        (.rmmod :: List.replicate 6 (.module calls))).pc = .unloaded := by
  have hqueue : state.queue.getD [] = [] := hpending
  constructor <;>
    simp [hpc, hqueue, myExit, run, attempt, serviceStep, Service.moduleStep, Service.pending]

end KernelExperiments.Ramdisk
