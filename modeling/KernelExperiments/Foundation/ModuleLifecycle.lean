import KernelExperiments.Foundation.Runs
import Mathlib.Data.Int.Notation

/-!
# Loading and unloading a kernel module

A module is a pair of functions on the state of the kernel: `init`, which returns a code and sets
the static variables, and `exit`, which finds them as `init` left them. The kernel keeps a module
loaded when `init` returned zero and calls `exit` once when it is unloaded; every load starts with
fresh static variables. `KernelModule.step` is one attempt to load or to unload, and a run is any
sequence of them.

A law about the calls of a run is given by what it says of one `init` and of one `exit`
(`CallLaws`). `KernelModule.along_iff` is the rule for such laws: when a state of the kernel that is
idle without the module, and live with it, makes a law equivalent to a condition, and calls that
meet the condition lead from idle to live and back, then a run obeys the law exactly when it meets
the condition.
-/

set_option autoImplicit false
set_option relaxedAutoImplicit false

namespace KernelExperiments.Foundation

variable {Kernel Statics Calls : Type*}

/-! ### Modules -/

/-- What a call of `init` leaves: the return code, the static variables and the kernel. -/
structure InitOutcome (Kernel Statics : Type*) where
  ret : ℤ
  statics : Statics
  kernel : Kernel

/-- What a call of `exit` leaves. -/
structure ExitOutcome (Kernel Statics : Type*) where
  statics : Statics
  kernel : Kernel

/-- The two functions of a module. `Calls` is what decides the outcomes of the kernel calls that one
`init` makes. -/
structure KernelModule (Kernel Statics Calls : Type*) where
  init : Kernel → Calls → InitOutcome Kernel Statics
  exit : Kernel → Statics → ExitOutcome Kernel Statics

/-- The kernel, and the static variables of the module while it is loaded. -/
structure Machine (Kernel Statics : Type*) where
  kernel : Kernel
  loaded : Option Statics

/-- An attempt to load or to unload the module. -/
inductive ModuleEvent (Calls : Type*)
  | load (calls : Calls)
  | unload

/-- The machine after an attempt. A module that is loaded is not loaded again, and one that is not
loaded is not unloaded. -/
def KernelModule.step (module : KernelModule Kernel Statics Calls)
    (machine : Machine Kernel Statics) : ModuleEvent Calls → Machine Kernel Statics
  | .load calls =>
    match machine.loaded with
    | some _ => machine
    | none =>
      let outcome := module.init machine.kernel calls
      ⟨outcome.kernel, if outcome.ret = 0 then some outcome.statics else none⟩
  | .unload =>
    match machine.loaded with
    | none => machine
    | some statics => ⟨(module.exit machine.kernel statics).kernel, none⟩

/-! ### Laws about the calls of a run -/

/-- What is said of a call of `init` and of a call of `exit`. -/
structure CallLaws (Kernel Statics Calls : Type*) where
  onInit : Kernel → Calls → Prop
  onExit : Kernel → Statics → Prop

/-- What the law says of an attempt: of the call that the attempt leads to, if any. -/
def CallLaws.At (law : CallLaws Kernel Statics Calls) (machine : Machine Kernel Statics) :
    ModuleEvent Calls → Prop
  | .load calls => machine.loaded = none → law.onInit machine.kernel calls
  | .unload => ∀ statics, machine.loaded = some statics → law.onExit machine.kernel statics

/-- Every call of the run obeys the law. -/
def KernelModule.Obeys (module : KernelModule Kernel Statics Calls)
    (law : CallLaws Kernel Statics Calls) (machine : Machine Kernel Statics)
    (events : List (ModuleEvent Calls)) : Prop :=
  Along module.step law.At machine events

/-- The law that every attempted load is admissible. -/
def LoadsOnly (admissible : Calls → Prop) : CallLaws Kernel Statics Calls where
  onInit _ calls := admissible calls
  onExit _ _ := True

/-- The kernel is idle when the module is not loaded, and live when it is. -/
def Machine.Sound (idle : Kernel → Prop) (live : Kernel → Statics → Prop)
    (machine : Machine Kernel Statics) : Prop :=
  match machine.loaded with
  | none => idle machine.kernel
  | some statics => live machine.kernel statics

section Rule

variable {module : KernelModule Kernel Statics Calls}
  {law condition : CallLaws Kernel Statics Calls}
  {idle : Kernel → Prop} {live : Kernel → Statics → Prop}

/-- Calls that meet the condition lead from idle to live and back. -/
theorem Machine.Sound.step
    (hload : ∀ kernel calls, idle kernel → condition.onInit kernel calls →
      (module.init kernel calls).ret = 0 →
        live (module.init kernel calls).kernel (module.init kernel calls).statics)
    (hfail : ∀ kernel calls, idle kernel → condition.onInit kernel calls →
      (module.init kernel calls).ret ≠ 0 → idle (module.init kernel calls).kernel)
    (hexit : ∀ kernel statics, live kernel statics → condition.onExit kernel statics →
      idle (module.exit kernel statics).kernel)
    {machine : Machine Kernel Statics} {event : ModuleEvent Calls}
    (hsound : machine.Sound idle live) (hcondition : condition.At machine event) :
    (module.step machine event).Sound idle live := by
  obtain ⟨kernel, loaded⟩ := machine
  cases event with
  | load calls =>
    cases loaded with
    | some statics => exact hsound
    | none =>
      by_cases hret : (module.init kernel calls).ret = 0
      · simp only [KernelModule.step, if_pos hret]
        exact hload kernel calls hsound (hcondition rfl) hret
      · simp only [KernelModule.step, if_neg hret]
        exact hfail kernel calls hsound (hcondition rfl) hret
  | unload =>
    cases loaded with
    | none => exact hsound
    | some statics => exact hexit kernel statics hsound (hcondition statics rfl)

/-- Where the state of the kernel makes the law equivalent to the condition, it does so for an
attempt. -/
theorem Machine.Sound.at_iff
    (hinit : ∀ kernel calls, idle kernel →
      (law.onInit kernel calls ↔ condition.onInit kernel calls))
    (hexit : ∀ kernel statics, live kernel statics →
      (law.onExit kernel statics ↔ condition.onExit kernel statics))
    {machine : Machine Kernel Statics} (hsound : machine.Sound idle live)
    (event : ModuleEvent Calls) : law.At machine event ↔ condition.At machine event := by
  obtain ⟨kernel, loaded⟩ := machine
  cases event with
  | load calls =>
    cases loaded with
    | some statics => exact iff_of_true (fun hnone ↦ by cases hnone) fun hnone ↦ by cases hnone
    | none => exact imp_congr_right fun _ ↦ hinit kernel calls hsound
  | unload =>
    cases loaded with
    | none => exact iff_of_true (fun _ hsome ↦ by cases hsome) fun _ hsome ↦ by cases hsome
    | some statics =>
      refine forall_congr' fun other ↦ imp_congr_right fun hother ↦ ?_
      rw [← Option.some.inj hother]
      exact hexit kernel statics hsound

/-- The rule for laws about the calls of a run. -/
theorem KernelModule.along_iff
    (hinit : ∀ kernel calls, idle kernel →
      (law.onInit kernel calls ↔ condition.onInit kernel calls))
    (hexit : ∀ kernel statics, live kernel statics →
      (law.onExit kernel statics ↔ condition.onExit kernel statics))
    (hload : ∀ kernel calls, idle kernel → condition.onInit kernel calls →
      (module.init kernel calls).ret = 0 →
        live (module.init kernel calls).kernel (module.init kernel calls).statics)
    (hfail : ∀ kernel calls, idle kernel → condition.onInit kernel calls →
      (module.init kernel calls).ret ≠ 0 → idle (module.init kernel calls).kernel)
    (hunload : ∀ kernel statics, live kernel statics → condition.onExit kernel statics →
      idle (module.exit kernel statics).kernel)
    {machine : Machine Kernel Statics} (hsound : machine.Sound idle live)
    (events : List (ModuleEvent Calls)) :
    module.Obeys law machine events ↔ module.Obeys condition machine events :=
  along_iff_of_invariant (fun _ event hstate ↦ hstate.at_iff hinit hexit event)
    (fun _ _ hstate hcondition ↦ hstate.step hload hfail hunload hcondition) hsound events

end Rule

end KernelExperiments.Foundation
