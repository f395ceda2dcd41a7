import Mathlib.Data.Nat.Notation

/-!
# While loops

The body of a while loop is a partial function on states: it returns `none` when the guard fails
and the next state otherwise. `loopFor body fuel` takes at most `fuel` iterations, so it is total
and computes.

A loop that has left by its guard is not changed by more fuel (`loopFor_of_none`), so once enough
fuel is known the fuel is not an assumption about the program. `loopFor_add` splits a loop after any
number of iterations, which is how a nest of loops written as one loop is taken apart.

`LeftIn body state final` says that the loop entered in `state` is left by its guard in `final`.
There is one such state at most (`LeftIn.unique`), and none when the iterations keep a property
under which the guard holds (`not_leftIn_of_invariant`). A loop that works off a list of items, one
in each iteration, is left after as many iterations as there are items, and its iterations take the
items in order (`loopFor_worklist`, `map_loopStates_worklist`).
-/

set_option autoImplicit false
set_option relaxedAutoImplicit false

namespace KernelExperiments.Foundation

variable {State : Type*}

/-- At most `fuel` iterations of a while loop. -/
def loopFor (body : State → Option State) : ℕ → State → State
  | 0, state => state
  | fuel + 1, state =>
    match body state with
    | none => state
    | some next => loopFor body fuel next

@[simp] theorem loopFor_zero (body : State → Option State) (state : State) :
    loopFor body 0 state = state := rfl

/-- A state whose guard fails is left as it is. -/
theorem loopFor_of_none {body : State → Option State} {state : State} (hguard : body state = none)
    (fuel : ℕ) : loopFor body fuel state = state := by
  cases fuel with
  | zero => rfl
  | succ fuel => simp only [loopFor, hguard]

/-- One iteration. -/
theorem loopFor_succ_of_some {body : State → Option State} {state next : State}
    (hbody : body state = some next) (fuel : ℕ) :
    loopFor body (fuel + 1) state = loopFor body fuel next := by
  simp only [loopFor, hbody]

/-- A loop may be stopped after any number of iterations and taken up again. -/
theorem loopFor_add (body : State → Option State) (first second : ℕ) (state : State) :
    loopFor body (first + second) state = loopFor body second (loopFor body first state) := by
  induction first generalizing state with
  | zero => rw [Nat.zero_add, loopFor_zero]
  | succ first ih =>
    cases hbody : body state with
    | none => rw [loopFor_of_none hbody, loopFor_of_none hbody, loopFor_of_none hbody]
    | some next =>
      rw [Nat.add_right_comm, loopFor_succ_of_some hbody, loopFor_succ_of_some hbody]
      exact ih next

/-! ### Leaving the loop -/

/-- The loop entered in `state` is left by its guard, in the state `final`. -/
def LeftIn (body : State → Option State) (state final : State) : Prop :=
  ∃ fuel, loopFor body fuel state = final ∧ body final = none

/-- A loop whose guard fails is left at once. -/
theorem leftIn_of_none {body : State → Option State} {state : State} (hguard : body state = none) :
    LeftIn body state state := ⟨0, rfl, hguard⟩

/-- A loop is left where it is left after one iteration. -/
theorem leftIn_of_some {body : State → Option State} {state next final : State}
    (hbody : body state = some next) (hleft : LeftIn body next final) :
    LeftIn body state final := by
  obtain ⟨fuel, hfinal, hguard⟩ := hleft
  exact ⟨fuel + 1, by rw [loopFor_succ_of_some hbody, hfinal], hguard⟩

/-- A loop is left in one state only. -/
theorem LeftIn.unique {body : State → Option State} {state first second : State}
    (hfirst : LeftIn body state first) (hsecond : LeftIn body state second) : first = second := by
  obtain ⟨fuel, rfl, hguard⟩ := hfirst
  obtain ⟨otherFuel, rfl, hotherGuard⟩ := hsecond
  calc loopFor body fuel state
      = loopFor body (fuel + otherFuel) state := by
        rw [loopFor_add, loopFor_of_none hguard]
    _ = loopFor body otherFuel state := by
        rw [Nat.add_comm, loopFor_add, loopFor_of_none hotherGuard]

/-- What every iteration keeps holds after any number of them. -/
theorem loopFor_invariant {body : State → Option State} {invariant : State → Prop}
    (hstep : ∀ state next, invariant state → body state = some next → invariant next)
    {state : State} (hstart : invariant state) (fuel : ℕ) :
    invariant (loopFor body fuel state) := by
  induction fuel generalizing state with
  | zero => exact hstart
  | succ fuel ih =>
    cases hbody : body state with
    | none => rwa [loopFor_of_none hbody]
    | some next =>
      rw [loopFor_succ_of_some hbody]
      exact ih (hstep state next hstart hbody)

/-- A loop whose iterations keep a property under which the guard holds is never left. -/
theorem not_leftIn_of_invariant {body : State → Option State} {invariant : State → Prop}
    (hstep : ∀ state next, invariant state → body state = some next → invariant next)
    (hguard : ∀ state, invariant state → body state ≠ none) {state : State}
    (hstart : invariant state) (final : State) : ¬ LeftIn body state final := by
  rintro ⟨fuel, rfl, hleft⟩
  exact hguard _ (loopFor_invariant hstep hstart fuel) hleft

/-- The states at the head of the loop in which an iteration is taken, in order. -/
def loopStates (body : State → Option State) : ℕ → State → List State
  | 0, _ => []
  | fuel + 1, state =>
    match body state with
    | none => []
    | some next => state :: loopStates body fuel next

section Worklist

variable {Item : Type*} {body : State → Option State} {pending : State → List Item}
  {current : State → Option Item}

/-- A loop that takes the first pending item in each iteration, and has none when its guard fails,
is left once every item has had its iteration. -/
theorem loopFor_worklist
    (hstep : ∀ state next, body state = some next →
      (pending state).map some = current state :: (pending next).map some)
    (fuel : ℕ) (state : State) (hfuel : (pending state).length ≤ fuel) :
    body (loopFor body fuel state) = none := by
  induction fuel generalizing state with
  | zero =>
    cases hbody : body state with
    | none => exact hbody
    | some next =>
      have hlength := congrArg List.length (hstep state next hbody)
      simp only [List.length_map, List.length_cons] at hlength
      omega
  | succ fuel ih =>
    cases hbody : body state with
    | none => rwa [loopFor_of_none hbody]
    | some next =>
      have hlength := congrArg List.length (hstep state next hbody)
      simp only [List.length_map, List.length_cons] at hlength
      rw [loopFor_succ_of_some hbody]
      exact ih next (by omega)

/-- The iterations of such a loop take the pending items in order, each in one iteration. -/
theorem map_loopStates_worklist
    (hstep : ∀ state next, body state = some next →
      (pending state).map some = current state :: (pending next).map some)
    (hdone : ∀ state, body state = none → pending state = [])
    (fuel : ℕ) (state : State) (hfuel : (pending state).length ≤ fuel) :
    (loopStates body fuel state).map current = (pending state).map some := by
  induction fuel generalizing state with
  | zero => rw [List.length_eq_zero_iff.mp (Nat.le_zero.mp hfuel)]; rfl
  | succ fuel ih =>
    cases hbody : body state with
    | none =>
      rw [hdone state hbody]
      simp only [loopStates, hbody, List.map_nil]
    | some next =>
      have hlength := congrArg List.length (hstep state next hbody)
      simp only [List.length_map, List.length_cons] at hlength
      simp only [loopStates, hbody, List.map_cons]
      rw [ih next (by omega), hstep state next hbody]

end Worklist

end KernelExperiments.Foundation
