import KernelExperiments.BlockDevice.Loading
import KernelExperiments.Foundation.ModuleLifecycle
import KernelExperiments.Ramdisk.SectorStore

/-!
# The resource ledger of the block drivers

Both block drivers take four resources when they are loaded: the disk memory, a request queue, a
major number and a gendisk. A ledger counts what is held (`post`). `LedgerLaw` is what a driver
owes the kernel: nothing is given back that is not held, and of each resource one is held while the
driver is loaded and none while it is not, after a failed `init` as well as after `exit`.

A successful load and the unload after it keep the law in both drivers. A failed load has its own
list of what to give back at each point of failure, and some of the lists are short. In
`exp_4_2_original.c` the queue is never given back once it exists (`OriginalClean`); in `exp_4_2.c`
the disk memory is not (`Exp42Clean`). What leaks stays, so a run keeps the law exactly when it has
no load that fails at such a point (`ledgerLaw_iff`).
-/

set_option autoImplicit false
set_option relaxedAutoImplicit false

namespace KernelExperiments.BlockDevice

open Foundation
open Ramdisk (Vmalloc Resource ResourceEvent InitCalls myInit myExit smallMachineCalls)

variable {Statics Calls : Type*}

/-! ### The ledger -/

/-- How many of each resource the driver holds. -/
abbrev Holdings := Resource → ℤ

/-- The holdings with the same number of each resource. -/
def ofEach (count : ℤ) : Holdings := fun _ ↦ count

/-- The holdings after a resource is taken or given back. -/
def post (held : Holdings) : ResourceEvent → Holdings
  | .acquire resource => Function.update held resource (held resource + 1)
  | .release resource => Function.update held resource (held resource - 1)

/-- A resource that is given back is held. -/
def ReleasesHeld (held : Holdings) : ResourceEvent → Prop
  | .acquire _ => True
  | .release resource => 0 < held resource

instance decidableReleasesHeld (held : Holdings) :
    (event : ResourceEvent) → Decidable (ReleasesHeld held event)
  | .acquire _ => isTrue trivial
  | .release resource => inferInstanceAs (Decidable (0 < held resource))

/-- The events lead from `before` of each resource to `after` of each, and nothing is given back
that is not held. -/
structure Settles (before after : ℤ) (events : List ResourceEvent) : Prop where
  released_held : Along post ReleasesHeld (ofEach before) events
  held_eq : ∀ resource, run post (ofEach before) events resource = after

theorem settles_iff (before after : ℤ) (events : List ResourceEvent) :
    Settles before after events ↔ Along post ReleasesHeld (ofEach before) events ∧
      run post (ofEach before) events .memory = after ∧
      run post (ofEach before) events .queue = after ∧
      run post (ofEach before) events .major = after ∧
      run post (ofEach before) events .gendisk = after := by
  constructor
  · rintro ⟨hreleased, hheld⟩
    exact ⟨hreleased, hheld _, hheld _, hheld _, hheld _⟩
  · rintro ⟨hreleased, hmemory, hqueue, hmajor, hgendisk⟩
    refine ⟨hreleased, fun resource ↦ ?_⟩
    cases resource <;> assumption

instance decidableSettles (before after : ℤ) (events : List ResourceEvent) :
    Decidable (Settles before after events) :=
  decidable_of_iff' _ (settles_iff before after events)

/-! ### Drivers -/

/-- A block driver, by the resources that its `init` and its `exit` take and give back. -/
structure BlockDriver (Statics Calls : Type*) where
  ret : Calls → ℤ
  statics : Calls → Statics
  init : Calls → List ResourceEvent
  exit : Statics → List ResourceEvent

/-- The driver as a module that keeps its holdings. -/
def BlockDriver.module (driver : BlockDriver Statics Calls) :
    KernelModule Holdings Statics Calls where
  init held calls := ⟨driver.ret calls, driver.statics calls, run post held (driver.init calls)⟩
  exit held statics := ⟨statics, run post held (driver.exit statics)⟩

/-- `exp_4_2_original.c`, with its module parameter. -/
def originalDriver : BlockDriver Unit (InitCalls × BitVec 32) where
  ret := fun (calls, diskmb) ↦ (myInit calls diskmb).ret
  statics := fun _ ↦ ()
  init := fun (calls, diskmb) ↦ (myInit calls diskmb).events
  exit := fun _ ↦ myExit

/-- `exp_4_2.c`. -/
def exp42Driver : BlockDriver Exp42Statics Exp42Calls where
  ret := fun calls ↦ (exp42Init calls).ret
  statics := fun calls ↦ (exp42Init calls).statics
  init := fun calls ↦ (exp42Init calls).events
  exit := exp42Exit

/-! ### The law -/

/-- What a block driver owes the kernel in every `init` and every `exit`. -/
def LedgerLaw (driver : BlockDriver Statics Calls) : CallLaws Holdings Statics Calls where
  onInit held calls := Along post ReleasesHeld held (driver.init calls) ∧
    ∀ resource, run post held (driver.init calls) resource = if driver.ret calls = 0 then 1 else 0
  onExit held statics := Along post ReleasesHeld held (driver.exit statics) ∧
    ∀ resource, run post held (driver.exit statics) resource = 0

/-- The driver is not loaded, and holds nothing. -/
def unloaded : Machine Holdings Statics := ⟨ofEach 0, none⟩

/-- When a successful `init` takes one of each resource, `exit` gives them back, and a failed `init`
gives back what it took exactly if the load was clean, then a run keeps the law exactly if every
load is clean. -/
theorem obeys_ledgerLaw_iff {driver : BlockDriver Statics Calls} {clean : Calls → Prop}
    (hload : ∀ calls, driver.ret calls = 0 → Settles 0 1 (driver.init calls) ∧ clean calls ∧
      Settles 1 0 (driver.exit (driver.statics calls)))
    (hfail : ∀ calls, driver.ret calls ≠ 0 → (Settles 0 0 (driver.init calls) ↔ clean calls))
    (events : List (ModuleEvent Calls)) :
    driver.module.Obeys (LedgerLaw driver) unloaded events ↔
      driver.module.Obeys (LoadsOnly clean) unloaded events := by
  have hsound : (unloaded : Machine Holdings Statics).Sound (fun held ↦ held = ofEach 0)
      fun held statics ↦ held = ofEach 1 ∧ Settles 1 0 (driver.exit statics) := rfl
  refine KernelModule.along_iff ?_ ?_ ?_ ?_ ?_ hsound events
  · rintro held calls rfl
    by_cases hret : driver.ret calls = 0
    · obtain ⟨⟨hreleased, hheld⟩, hclean, -⟩ := hload calls hret
      refine iff_of_true ⟨hreleased, fun resource ↦ ?_⟩ hclean
      rw [if_pos hret, hheld]
    · refine Iff.trans ?_ (hfail calls hret)
      simp only [LedgerLaw, if_neg hret]
      exact ⟨fun ⟨hreleased, hheld⟩ ↦ ⟨hreleased, hheld⟩,
        fun ⟨hreleased, hheld⟩ ↦ ⟨hreleased, hheld⟩⟩
  · rintro held statics ⟨rfl, hreleased, hheld⟩
    exact iff_of_true ⟨hreleased, hheld⟩ trivial
  · rintro held calls rfl - hret
    obtain ⟨⟨-, hheld⟩, -, hexit⟩ := hload calls hret
    exact ⟨funext hheld, hexit⟩
  · rintro held calls rfl hclean hret
    exact funext ((hfail calls hret).mpr hclean).held_eq
  · rintro held statics ⟨rfl, -, hheld⟩ -
    exact funext hheld

/-! ### Exactly which loads are clean -/

/-- A load of `exp_4_2_original.c` that does not fail once the queue exists. -/
def OriginalClean (calls : InitCalls × BitVec 32) : Prop :=
  calls.1.vmalloc.alloc ((calls.2 * 1024 * 1024).signExtend 64) = none ∨
    calls.1.blkInitQueue = false ∨ 0 ≤ calls.1.registerBlkdev ∧ calls.1.allocDisk = true

/-- A load of `exp_4_2.c` that does not fail once the disk memory is taken. -/
def Exp42Clean (calls : Exp42Calls) : Prop :=
  calls.vmalloc.alloc (16 * 1024 * 1024) = none ∨
    0 ≤ calls.registerBlkdev ∧ calls.blkMqInitQueue = none ∧ calls.allocDisk = true

/-- A failed load of `exp_4_2_original.c` gives back what it took exactly if it is clean; a
successful one takes one of each resource. -/
theorem originalDriver_init (calls : InitCalls × BitVec 32) :
    originalDriver.ret calls = 0 ∧ Settles 0 1 (originalDriver.init calls) ∧
        OriginalClean calls ∨
      originalDriver.ret calls ≠ 0 ∧
        (Settles 0 0 (originalDriver.init calls) ↔ OriginalClean calls) := by
  obtain ⟨calls, diskmb⟩ := calls
  have hall : Settles 0 1
      [.acquire .memory, .acquire .queue, .acquire .major, .acquire .gendisk] := by decide
  have hqueueLeft : ¬ Settles 0 0 [.acquire .memory, .acquire .queue, .release .memory] := by
    decide
  have hqueueLeftLate : ¬ Settles 0 0 [.acquire .memory, .acquire .queue, .acquire .major,
      .release .major, .release .memory] := by decide
  unfold originalDriver OriginalClean myInit
  dsimp only
  split
  · rename_i halloc
    exact Or.inr ⟨by decide, iff_of_true (by decide) (Or.inl halloc)⟩
  · rename_i ramdisk halloc
    rw [halloc]
    split_ifs with hqueue hmajor hdisk
    · exact Or.inr ⟨by decide, iff_of_true (by decide) (Or.inr (Or.inl (by simpa using hqueue)))⟩
    · refine Or.inr ⟨Int.ne_of_lt hmajor, iff_of_false hqueueLeft ?_⟩
      rintro (hnone | hfailed | ⟨hnonneg, -⟩)
      · cases hnone
      · exact hqueue (by rw [hfailed]; rfl)
      · exact absurd hmajor (Int.not_lt.mpr hnonneg)
    · refine Or.inr ⟨by decide, iff_of_false hqueueLeftLate ?_⟩
      rintro (hnone | hfailed | ⟨-, hallocated⟩)
      · cases hnone
      · exact hqueue (by rw [hfailed]; rfl)
      · rw [hallocated] at hdisk
        cases hdisk
    · refine Or.inl ⟨rfl, hall, Or.inr (Or.inr ⟨Int.not_lt.mp hmajor, ?_⟩)⟩
      simpa using hdisk

/-- The same of `exp_4_2.c`, whose `exit` gives back what a successful load left in the static
variables. -/
theorem exp42Driver_init (calls : Exp42Calls) :
    exp42Driver.ret calls = 0 ∧ Settles 0 1 (exp42Driver.init calls) ∧ Exp42Clean calls ∧
        Settles 1 0 (exp42Driver.exit (exp42Driver.statics calls)) ∨
      exp42Driver.ret calls ≠ 0 ∧
        (Settles 0 0 (exp42Driver.init calls) ↔ Exp42Clean calls) := by
  have hnomem : enomem ≠ 0 := by decide
  have hall : Settles 0 1
      [.acquire .memory, .acquire .major, .acquire .queue, .acquire .gendisk] := by decide
  have hexit : Settles 1 0
      [.release .gendisk, .release .queue, .release .major, .release .memory] := by decide
  have hmemoryLeft : ¬ Settles 0 0 [.acquire .memory] := by decide
  have hbothLeft : ¬ Settles 0 0 [.acquire .memory, .acquire .major] := by decide
  have hmemoryLeftLate : ¬ Settles 0 0 [.acquire .memory, .acquire .major, .acquire .queue,
      .release .queue, .release .major] := by decide
  unfold exp42Driver Exp42Clean exp42Init
  dsimp only
  split
  · rename_i halloc
    exact Or.inr ⟨hnomem, iff_of_true (by decide) (Or.inl halloc)⟩
  · rename_i memory halloc
    rw [halloc]
    by_cases hmajor : calls.registerBlkdev < 0
    · rw [if_pos hmajor]
      refine Or.inr ⟨Int.ne_of_lt hmajor, iff_of_false hmemoryLeft ?_⟩
      rintro (hnone | ⟨hnonneg, -⟩)
      · cases hnone
      · exact absurd hmajor (Int.not_lt.mpr hnonneg)
    · rw [if_neg hmajor]
      cases hqueue : calls.blkMqInitQueue with
      | some error =>
        refine Or.inr ⟨Int.ne_of_lt error.property, iff_of_false hbothLeft ?_⟩
        rintro (hnone | ⟨-, hnone, -⟩) <;> cases hnone
      | none =>
        cases hdisk : calls.allocDisk with
        | false =>
          refine Or.inr ⟨hnomem, iff_of_false hmemoryLeftLate ?_⟩
          rintro (hnone | ⟨-, -, hallocated⟩)
          · cases hnone
          · cases hallocated
        | true => exact Or.inl ⟨rfl, hall, Or.inr ⟨Int.not_lt.mp hmajor, rfl, rfl⟩, hexit⟩

/-- Each driver keeps its ledger in exactly the runs all of whose loads are clean. -/
theorem ledgerLaw_iff (originalEvents : List (ModuleEvent (InitCalls × BitVec 32)))
    (exp42Events : List (ModuleEvent Exp42Calls)) :
    (originalDriver.module.Obeys (LedgerLaw originalDriver) unloaded originalEvents ↔
        originalDriver.module.Obeys (LoadsOnly OriginalClean) unloaded originalEvents) ∧
      (exp42Driver.module.Obeys (LedgerLaw exp42Driver) unloaded exp42Events ↔
        exp42Driver.module.Obeys (LoadsOnly Exp42Clean) unloaded exp42Events) := by
  have hmyExit : Settles 1 0 myExit := by decide
  constructor
  · refine obeys_ledgerLaw_iff (fun calls hret ↦ ?_) (fun calls hret ↦ ?_) originalEvents
    · rcases originalDriver_init calls with ⟨-, hinit, hclean⟩ | ⟨hne, -⟩
      · exact ⟨hinit, hclean, hmyExit⟩
      · exact absurd hret hne
    · rcases originalDriver_init calls with ⟨hzero, -⟩ | ⟨-, hiff⟩
      · exact absurd hzero hret
      · exact hiff
  · refine obeys_ledgerLaw_iff (fun calls hret ↦ ?_) (fun calls hret ↦ ?_) exp42Events
    · rcases exp42Driver_init calls with ⟨-, hinit, hclean, hexit⟩ | ⟨hne, -⟩
      · exact ⟨hinit, hclean, hexit⟩
      · exact absurd hret hne
    · rcases exp42Driver_init calls with ⟨hzero, -⟩ | ⟨-, hiff⟩
      · exact absurd hzero hret
      · exact hiff

/-- A load of each driver in which `register_blkdev` fails breaks its ledger. -/
theorem not_obeys_ledgerLaw_failedLoad :
    ¬ originalDriver.module.Obeys (LedgerLaw originalDriver) unloaded
        [.load ({ smallMachineCalls with registerBlkdev := -16 }, 1)] ∧
      ¬ exp42Driver.module.Obeys (LedgerLaw exp42Driver) unloaded
        [.load ⟨smallMachineCalls.vmalloc, -16, none, true⟩] := by
  constructor
  · rintro ⟨hload, -⟩
    exact absurd ((hload rfl).2 .queue) (by decide)
  · rintro ⟨hload, -⟩
    exact absurd ((hload rfl).2 .memory) (by decide)

end KernelExperiments.BlockDevice
