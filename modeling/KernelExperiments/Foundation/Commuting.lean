import KernelExperiments.Foundation.Runs

/-!
# Events that may be exchanged

Two events are exchangeable when neither sees whether the other one came first: in either order they
lead to the same state and give the same outputs. A list of events is reordered by exchanging such
neighbours again and again (`Reordered`), and then a run of it ends in the same state and gives the
same outputs, in another order (`run_reordered`).

Two lists of which each event of one may be exchanged with each event of the other can be put in
either order (`reordered_append_comm`), and events that may all be exchanged can be permuted
(`reordered_of_perm`).
-/

set_option autoImplicit false
set_option relaxedAutoImplicit false

namespace KernelExperiments.Foundation

variable {State Event Output : Type*}

/-- In either order the two events lead to the same state and give the same outputs. -/
structure Exchangeable (step : State → Event → State) (output : State → Event → Output)
    (first second : Event) : Prop where
  step_comm : ∀ state, step (step state second) first = step (step state first) second
  output_first : ∀ state, output (step state second) first = output state first
  output_second : ∀ state, output (step state first) second = output state second

/-- The second list is the first one with some exchangeable neighbours exchanged. -/
inductive Reordered (exchangeable : Event → Event → Prop) : List Event → List Event → Prop
  | refl (events : List Event) : Reordered exchangeable events events
  | swap (before after : List Event) {first second : Event}
      (hexchangeable : exchangeable first second) :
      Reordered exchangeable (before ++ first :: second :: after)
        (before ++ second :: first :: after)
  | trans {events middle other : List Event} (hfirst : Reordered exchangeable events middle)
      (hsecond : Reordered exchangeable middle other) : Reordered exchangeable events other

variable {exchangeable : Event → Event → Prop} {events other : List Event}

/-- A part of a list is reordered. -/
theorem Reordered.append (hreordered : Reordered exchangeable events other)
    (front back : List Event) :
    Reordered exchangeable (front ++ events ++ back) (front ++ other ++ back) := by
  induction hreordered with
  | refl events => exact .refl _
  | swap before after hexchangeable =>
    have hswap := Reordered.swap (front ++ before) (after ++ back) hexchangeable
    simpa only [List.append_assoc, List.cons_append] using hswap
  | trans _ _ ihfirst ihsecond => exact ihfirst.trans ihsecond

/-- An event moves behind those it may be exchanged with. -/
theorem reordered_cons_append {event : Event} {passed : List Event}
    (hpassed : ∀ later ∈ passed, exchangeable event later) :
    Reordered exchangeable (event :: passed) (passed ++ [event]) := by
  induction passed with
  | nil => exact .refl _
  | cons later rest ih =>
    obtain ⟨hlater, hrest⟩ := List.forall_mem_cons.mp hpassed
    have hswap := Reordered.swap [] rest hlater
    have hmoved := (ih hrest).append [later] []
    rw [List.append_nil, List.append_nil] at hmoved
    exact hswap.trans hmoved

/-- Two lists change places. -/
theorem reordered_append_comm {front back : List Event}
    (hall : ∀ first ∈ front, ∀ second ∈ back, exchangeable first second) :
    Reordered exchangeable (front ++ back) (back ++ front) := by
  induction front with
  | nil => rw [List.append_nil]; exact .refl _
  | cons event rest ih =>
    obtain ⟨hevent, hrest⟩ := List.forall_mem_cons.mp hall
    have hmoved := (ih hrest).append [event] []
    have hpassed := (reordered_cons_append hevent).append [] rest
    simp only [List.append_nil, List.nil_append, List.append_assoc, List.cons_append]
      at hmoved hpassed
    exact hmoved.trans hpassed

/-- Events that may all be exchanged are permuted. -/
theorem reordered_of_perm (hperm : events.Perm other)
    (hsymm : ∀ first second, exchangeable first second → exchangeable second first)
    (hall : events.Pairwise exchangeable) : Reordered exchangeable events other := by
  induction hperm with
  | nil => exact .refl _
  | cons event _ ih =>
    have hrest := (ih (List.pairwise_cons.mp hall).2).append [event] []
    rwa [List.append_nil, List.append_nil] at hrest
  | swap first second rest =>
    have hfirst := (List.pairwise_cons.mp hall).1 first List.mem_cons_self
    exact .swap [] rest hfirst
  | trans hperm _ ihfirst ihsecond =>
    exact (ihfirst hall).trans (ihsecond (hall.perm hperm fun {_ _} ↦ hsymm _ _))

/-- Where each event stands for a list of others. -/
theorem Reordered.flatMap {Source : Type*} {apart : Source → Source → Prop}
    {read : Source → List Event}
    (hread : ∀ first second, apart first second → ∀ event ∈ read first, ∀ later ∈ read second,
      exchangeable event later)
    {sources rearranged : List Source} (hreordered : Reordered apart sources rearranged) :
    Reordered exchangeable (sources.flatMap read) (rearranged.flatMap read) := by
  induction hreordered with
  | refl sources => exact .refl _
  | @swap before after first second hapart =>
    have hswap := (reordered_append_comm (hread first second hapart)).append (before.flatMap read)
      (after.flatMap read)
    simpa only [List.flatMap_append, List.flatMap_cons, List.append_assoc] using hswap
  | trans _ _ ihfirst ihsecond => exact ihfirst.trans ihsecond

/-- A reordered run ends in the same state, and gives the same outputs in another order. -/
theorem run_reordered {step : State → Event → State} {output : State → Event → Output}
    (hexchange : ∀ first second, exchangeable first second →
      Exchangeable step output first second)
    (hreordered : Reordered exchangeable events other) (state : State) :
    run step state other = run step state events ∧
      (outputs step output state other).Perm (outputs step output state events) := by
  induction hreordered with
  | refl events => exact ⟨rfl, .refl _⟩
  | @swap before after first second hexchangeable =>
    obtain ⟨hstep, hfirst, hsecond⟩ := hexchange first second hexchangeable
    simp only [run_append, run_cons, outputs_append, outputs]
    rw [hstep, hfirst, hsecond]
    exact ⟨rfl, (List.Perm.swap _ _ _).append_left _⟩
  | trans _ _ ihfirst ihsecond =>
    exact ⟨ihsecond.1.trans ihfirst.1, ihsecond.2.trans ihfirst.2⟩

end KernelExperiments.Foundation
