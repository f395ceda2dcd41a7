import KernelExperiments.CharDevice.Loading
import KernelExperiments.ProcMessage.Loading

/-!
# Failed loads and the loads after them

A module is loaded, fails, and is loaded again. `ReloadLaw` says what an attempt owes the next one:
a load in which a kernel call fails returns a definite error code, one that does not depend on
uninitialised memory, and leaves nothing behind; and a load in which no call fails of its own accord
succeeds.

`initexp3_1` leaves its directory when `proc_create` fails, and the directory makes every later load
fail. `device_init` undoes what it did on every path, but on one of them it returns a variable that
was never assigned. `reloadLaw_iff` shows that these are the only breaches: the law holds in exactly
the runs without them.
-/

set_option autoImplicit false
set_option relaxedAutoImplicit false

namespace KernelExperiments.CharDevice

open Foundation
open ProcMessage (ProcEntries Exp31Calls Exp31Statics initexp31 exitexp31)

variable {Kernel Statics Calls : Type*}

/-! ### The law -/

/-- What is needed to state the law for a module: the kernel with nothing of the module in it, the
loads in which some kernel call fails, and those in which none fails of its own accord. -/
structure LoadSpec (Kernel Calls : Type*) where
  Clean : Kernel → Prop
  Fails : Kernel → Calls → Prop
  Healthy : Calls → Prop

/-- The law, for a module whose loads find some value in uninitialised memory. -/
def ReloadLaw (module : KernelModule Kernel Statics (Calls × ℤ)) (spec : LoadSpec Kernel Calls) :
    CallLaws Kernel Statics (Calls × ℤ) where
  onInit kernel calls :=
    (spec.Fails kernel calls.1 →
      (∃ code ≠ 0, ∀ onStack, (module.init kernel (calls.1, onStack)).ret = code) ∧
        spec.Clean (module.init kernel calls).kernel) ∧
    (spec.Healthy calls.1 → (module.init kernel calls).ret = 0)
  onExit _ _ := True

/-! ### The two modules -/

/-- `exp3.1.c`. It has no uninitialised variable. -/
def exp31Module : KernelModule ProcEntries Exp31Statics (Exp31Calls × ℤ) where
  init entries calls := initexp31 entries calls.1
  exit := exitexp31

/-- `exp4_1_kernel.c`. -/
def deviceModule : KernelModule Chrdev DeviceStatics (DeviceCalls × ℤ) where
  init chrdev calls := deviceInit chrdev calls.1 calls.2
  exit := deviceExit

/-- Clean is a `/proc` without the entries; `proc_mkdir` also fails when the directory is there. -/
def exp31Spec : LoadSpec ProcEntries Exp31Calls where
  Clean entries := entries = ⟨false, false⟩
  Fails entries calls := calls.procMkdir = false ∨ entries.hello = true ∨ calls.procCreate = false
  Healthy calls := calls.procMkdir = true ∧ calls.procCreate = true

/-- Clean is a kernel without region and `cdev`. -/
def deviceSpec : LoadSpec Chrdev DeviceCalls where
  Clean chrdev := chrdev = ⟨false, .absent⟩
  Fails _ calls := calls.allocChrdevRegion ≠ 0 ∨ calls.cdevAlloc = false ∨ calls.cdevAdd ≠ 0
  Healthy calls := calls.allocChrdevRegion = 0 ∧ calls.cdevAlloc = true ∧ calls.cdevAdd = 0

/-- `proc_create` does not fail once the directory is made. -/
def Exp31Undone (calls : Exp31Calls × ℤ) : Prop :=
  calls.1.procMkdir = true → calls.1.procCreate = true

/-- `cdev_alloc` does not fail once the region is registered. -/
def DeviceAssigned (calls : DeviceCalls × ℤ) : Prop :=
  calls.1.allocChrdevRegion = 0 → calls.1.cdevAlloc = true

/-! ### Exactly which runs keep the law -/

/-- When on a clean kernel the law is equivalent to a condition, and every load under the condition
either fails and leaves the kernel clean or succeeds and is undone by `exit`, a run keeps the law
exactly if its loads meet the condition. -/
theorem obeys_reloadLaw_iff {module : KernelModule Kernel Statics (Calls × ℤ)}
    {spec : LoadSpec Kernel Calls} {admissible : Calls × ℤ → Prop}
    (hinit : ∀ kernel calls, spec.Clean kernel →
      ((ReloadLaw module spec).onInit kernel calls ↔ admissible calls))
    (hclean : ∀ kernel calls, spec.Clean kernel → admissible calls →
      (module.init kernel calls).ret ≠ 0 ∧ spec.Clean (module.init kernel calls).kernel ∨
        (module.init kernel calls).ret = 0 ∧ spec.Clean (module.exit
          (module.init kernel calls).kernel (module.init kernel calls).statics).kernel)
    {kernel : Kernel} (hstart : spec.Clean kernel) (events : List (ModuleEvent (Calls × ℤ))) :
    module.Obeys (ReloadLaw module spec) ⟨kernel, none⟩ events ↔
      module.Obeys (LoadsOnly admissible) ⟨kernel, none⟩ events := by
  have hsound : (⟨kernel, none⟩ : Machine Kernel Statics).Sound spec.Clean
      fun kernel statics ↦ spec.Clean (module.exit kernel statics).kernel := hstart
  refine KernelModule.along_iff hinit ?_ ?_ ?_ ?_ hsound events
  · exact fun _ _ _ ↦ Iff.rfl
  · intro kernel calls hidle hadmissible hret
    rcases hclean kernel calls hidle hadmissible with ⟨hne, -⟩ | ⟨-, hexit⟩
    · exact absurd hret hne
    · exact hexit
  · intro kernel calls hidle hadmissible hret
    rcases hclean kernel calls hidle hadmissible with ⟨-, hkernel⟩ | ⟨hzero, -⟩
    · exact hkernel
    · exact absurd hzero hret
  · exact fun _ _ hexit _ ↦ hexit

/-- The law for a load that returns an error code. -/
theorem onInit_of_error {module : KernelModule Kernel Statics (Calls × ℤ)}
    {spec : LoadSpec Kernel Calls} {kernel : Kernel} {calls : Calls × ℤ} {code : ℤ}
    (hcode : code ≠ 0) (hret : ∀ onStack, (module.init kernel (calls.1, onStack)).ret = code)
    (hclean : spec.Clean (module.init kernel calls).kernel) (hfails : ¬ spec.Healthy calls.1) :
    (ReloadLaw module spec).onInit kernel calls :=
  ⟨fun _ ↦ ⟨⟨code, hcode, hret⟩, hclean⟩, fun hhealthy ↦ absurd hhealthy hfails⟩

/-- The law for a load in which no call fails. -/
theorem onInit_of_success {module : KernelModule Kernel Statics (Calls × ℤ)}
    {spec : LoadSpec Kernel Calls} {kernel : Kernel} {calls : Calls × ℤ}
    (hfails : ¬ spec.Fails kernel calls.1) (hret : (module.init kernel calls).ret = 0) :
    (ReloadLaw module spec).onInit kernel calls :=
  ⟨fun hfailed ↦ absurd hfailed hfails, fun _ ↦ hret⟩

theorem exp31_onInit_iff (entries : ProcEntries) (calls : Exp31Calls × ℤ)
    (hclean : exp31Spec.Clean entries) :
    (ReloadLaw exp31Module exp31Spec).onInit entries calls ↔ Exp31Undone calls := by
  have hnomem : ProcMessage.enomem ≠ 0 := by decide
  obtain ⟨⟨mkdir, create⟩, onStack⟩ := calls
  rw [hclean]
  cases mkdir with
  | false =>
    refine iff_of_true ?_ fun hmade ↦ by cases hmade
    exact onInit_of_error hnomem (fun _ ↦ rfl) rfl fun hhealthy ↦ by cases hhealthy.1
  | true =>
    cases create with
    | false =>
      refine iff_of_false (fun hlaw ↦ ?_) fun hundone ↦ by cases hundone rfl
      obtain ⟨-, hleft⟩ := hlaw.1 (Or.inr (Or.inr rfl))
      cases hleft
    | true =>
      refine iff_of_true (onInit_of_success ?_ rfl) fun _ ↦ rfl
      rintro (hfailed | hfailed | hfailed) <;> cases hfailed

/-- The four ways through `device_init` on a clean kernel. -/
theorem deviceInit_cases (calls : DeviceCalls) :
    calls.allocChrdevRegion ≠ 0 ∧
        (∀ onStack, deviceInit ⟨false, .absent⟩ calls onStack =
          ⟨calls.allocChrdevRegion, ⟨false⟩, ⟨false, .absent⟩⟩) ∨
      calls.allocChrdevRegion = 0 ∧ calls.cdevAlloc = false ∧
        (∀ onStack, deviceInit ⟨false, .absent⟩ calls onStack =
          ⟨onStack, ⟨false⟩, ⟨false, .absent⟩⟩) ∨
      calls.allocChrdevRegion = 0 ∧ calls.cdevAlloc = true ∧ calls.cdevAdd ≠ 0 ∧
        (∀ onStack, deviceInit ⟨false, .absent⟩ calls onStack =
          ⟨calls.cdevAdd, ⟨true⟩, ⟨false, .absent⟩⟩) ∨
      calls.allocChrdevRegion = 0 ∧ calls.cdevAlloc = true ∧ calls.cdevAdd = 0 ∧
        ∀ onStack, deviceInit ⟨false, .absent⟩ calls onStack =
          ⟨0, ⟨true⟩, ⟨true, .added⟩⟩ := by
  unfold deviceInit
  by_cases hregion : calls.allocChrdevRegion = 0
  · cases halloc : calls.cdevAlloc with
    | false => simp [hregion, unregisterChrdevRegion]
    | true =>
      by_cases hadd : calls.cdevAdd = 0
      · simp [hregion, hadd]
      · simp [hregion, hadd, unregisterChrdevRegion, cdevDel]
  · simp [hregion]

theorem device_onInit_iff (chrdev : Chrdev) (calls : DeviceCalls × ℤ)
    (hclean : deviceSpec.Clean chrdev) :
    (ReloadLaw deviceModule deviceSpec).onInit chrdev calls ↔ DeviceAssigned calls := by
  obtain ⟨calls, onStack⟩ := calls
  rw [hclean]
  rcases deviceInit_cases calls with ⟨hregion, hinit⟩ | ⟨hregion, halloc, hinit⟩ |
    ⟨hregion, halloc, hadd, hinit⟩ | ⟨hregion, halloc, hadd, hinit⟩
  · refine iff_of_true ?_ fun hzero ↦ absurd hzero hregion
    exact onInit_of_error hregion (fun onStack ↦ congrArg InitOutcome.ret (hinit onStack))
      (congrArg InitOutcome.kernel (hinit onStack)) fun hhealthy ↦ hregion hhealthy.1
  · refine iff_of_false (fun hlaw ↦ ?_) fun hassigned ↦ ?_
    · obtain ⟨⟨code, -, hret⟩, -⟩ := hlaw.1 (Or.inr (Or.inl halloc))
      have hown : code + 1 = code :=
        (congrArg InitOutcome.ret (hinit (code + 1))).symm.trans (hret (code + 1))
      omega
    · have hallocated : calls.cdevAlloc = true := hassigned hregion
      rw [halloc] at hallocated
      cases hallocated
  · refine iff_of_true ?_ fun _ ↦ halloc
    exact onInit_of_error hadd (fun onStack ↦ congrArg InitOutcome.ret (hinit onStack))
      (congrArg InitOutcome.kernel (hinit onStack)) fun hhealthy ↦ hadd hhealthy.2.2
  · refine iff_of_true (onInit_of_success ?_ (congrArg InitOutcome.ret (hinit onStack)))
      fun _ ↦ halloc
    rintro (hfailed | hfailed | hfailed)
    · exact hfailed hregion
    · rw [halloc] at hfailed
      cases hfailed
    · exact hfailed hadd

/-- Each module keeps the law in exactly the runs without the one failure it does not handle:
`proc_create` after the directory is made, `cdev_alloc` after the region is registered. -/
theorem reloadLaw_iff (exp31Events : List (ModuleEvent (Exp31Calls × ℤ)))
    (deviceEvents : List (ModuleEvent (DeviceCalls × ℤ))) :
    (exp31Module.Obeys (ReloadLaw exp31Module exp31Spec) ⟨⟨false, false⟩, none⟩ exp31Events ↔
        exp31Module.Obeys (LoadsOnly Exp31Undone) ⟨⟨false, false⟩, none⟩ exp31Events) ∧
      (deviceModule.Obeys (ReloadLaw deviceModule deviceSpec) ⟨⟨false, .absent⟩, none⟩
          deviceEvents ↔
        deviceModule.Obeys (LoadsOnly DeviceAssigned) ⟨⟨false, .absent⟩, none⟩ deviceEvents) := by
  have hnomem : ProcMessage.enomem ≠ 0 := by decide
  constructor
  · refine obeys_reloadLaw_iff exp31_onInit_iff ?_ rfl exp31Events
    rintro entries ⟨⟨mkdir, create⟩, onStack⟩ hclean hundone
    rw [hclean]
    cases mkdir with
    | false => exact Or.inl ⟨hnomem, rfl⟩
    | true =>
      cases create with
      | false => cases hundone rfl
      | true => exact Or.inr ⟨rfl, rfl⟩
  · refine obeys_reloadLaw_iff device_onInit_iff ?_ rfl deviceEvents
    rintro chrdev ⟨calls, onStack⟩ hclean hassigned
    rw [hclean]
    show (deviceInit _ calls onStack).ret ≠ 0 ∧
        deviceSpec.Clean (deviceInit _ calls onStack).kernel ∨
      (deviceInit _ calls onStack).ret = 0 ∧ deviceSpec.Clean (deviceExit
        (deviceInit _ calls onStack).kernel (deviceInit _ calls onStack).statics).kernel
    rcases deviceInit_cases calls with ⟨hregion, hinit⟩ | ⟨hregion, halloc, -⟩ |
      ⟨-, -, hadd, hinit⟩ | ⟨-, -, -, hinit⟩
    · rw [hinit]
      exact Or.inl ⟨hregion, rfl⟩
    · have hallocated : calls.cdevAlloc = true := hassigned hregion
      rw [halloc] at hallocated
      cases hallocated
    · rw [hinit]
      exact Or.inl ⟨hadd, rfl⟩
    · rw [hinit]
      exact Or.inr ⟨rfl, rfl⟩

/-- After a load of `exp3.1.c` in which `proc_create` fails, a load in which nothing fails of its
own accord does not succeed; and a load of `exp4_1_kernel.c` in which `cdev_alloc` fails returns
zero when the stack holds zero. -/
theorem not_obeys_reloadLaw_failedLoad :
    ¬ exp31Module.Obeys (ReloadLaw exp31Module exp31Spec) ⟨⟨false, false⟩, none⟩
        [.load (⟨true, false⟩, 0), .load (⟨true, true⟩, 0)] ∧
      ¬ deviceModule.Obeys (ReloadLaw deviceModule deviceSpec) ⟨⟨false, .absent⟩, none⟩
        [.load (⟨0, false, 0⟩, 0)] := by
  constructor
  · rintro ⟨-, hreload, -⟩
    have hret : (initexp31 ⟨true, false⟩ ⟨true, true⟩).ret = 0 := (hreload rfl).2 ⟨rfl, rfl⟩
    revert hret
    decide
  · rintro ⟨hload, -⟩
    obtain ⟨⟨code, hcode, hret⟩, -⟩ := (hload rfl).1 (Or.inr (Or.inl rfl))
    exact hcode (hret 0).symm

end KernelExperiments.CharDevice
