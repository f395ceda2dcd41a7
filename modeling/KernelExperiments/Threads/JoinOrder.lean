import KernelExperiments.Foundation.Joining
import Mathlib.Data.Int.Notation

/-!
# The lines of a thread and of the `main` that joins it

In `exp1.3.c` a thread prints ten numbered lines and a last one, and `main` prints five numbered
lines and says that it waits; both sleep between their lines, so that any of them may come before
any of the other's. When `pthread_join` has returned, `main` says that the thread has finished, and
this is the last line: behind all eleven lines of the thread and the six of `main`
(`joinOrder_law`). If the thread cannot be created an error message is all that is printed, and
`main` returns 1.
-/

set_option autoImplicit false
set_option relaxedAutoImplicit false

namespace KernelExperiments.Threads.JoinOrder

open Foundation Foundation.Joining

/-! ### The program -/

/-- `ThreadFunction` of `exp1.3.c`. -/
def threadFunction : List (Action String) :=
  (List.range 10).flatMap (fun timer ↦
    [.printf ("ThreadFunction: " ++ toString timer ++ "\n"), .sleep]) ++
  [.printf "ThreadFunction: Done. Exiting thread.\n"]

/-- `main` of `exp1.3.c`: what stands before `pthread_join` and after it, and what is done when
`pthread_create` fails. -/
def exp13 : Program String where
  thread := threadFunction
  before := (List.range 5).flatMap (fun timer ↦
      [.printf ("Main: " ++ toString timer ++ "\n"), .sleep]) ++
    [.printf "Main: Waiting for thread to finish\n"]
  after := [.printf "Main: Thread has finished\n"]
  failed := [.printf "Error creating thread\n"]

/-- What `main` has returned. -/
def exitCode : MainPc String → Option ℤ
  | .after [] => some 0
  | .failed [] => some 1
  | _ => none

/-- The state of the program after some steps of `main` and of the thread. -/
def after (created : Bool) (schedule : List Speaker) : State String :=
  run (attempt (next created exp13)) .initial schedule

/-! ### Its lines -/

/-- The lines of `ThreadFunction`. -/
def threadLines : List String :=
  (List.range 10).map (fun timer ↦ "ThreadFunction: " ++ toString timer ++ "\n") ++
    ["ThreadFunction: Done. Exiting thread.\n"]

/-- The lines of `main` before it has joined the thread. -/
def mainLines : List String :=
  (List.range 5).map (fun timer ↦ "Main: " ++ toString timer ++ "\n") ++
    ["Main: Waiting for thread to finish\n"]

/-- A loop that prints a line and sleeps, and a line behind it. -/
theorem lines_loop (line : ℕ → String) (bound : ℕ) (last : String) :
    lines ((List.range bound).flatMap (fun timer ↦ [.printf (line timer), .sleep]) ++
        [.printf last]) =
      (List.range bound).map line ++ [last] := by
  have hloop : ∀ timers : List ℕ,
      lines (timers.flatMap fun timer ↦ [.printf (line timer), .sleep]) = timers.map line := by
    intro timers
    induction timers with
    | nil => rfl
    | cons timer rest ih =>
      rw [List.flatMap_cons, List.map_cons, ← ih]
      rfl
  rw [← hloop, lines, List.flatMap_append]
  rfl

theorem lines_thread : lines exp13.thread = threadLines := lines_loop _ _ _

theorem lines_before : lines exp13.before = mainLines := lines_loop _ _ _

/-- A log with all lines of the thread and of `main`, and then the last one. -/
def Joined (log : List (Speaker × String)) : Prop :=
  ∃ merged, log = merged ++ [(.main, "Main: Thread has finished\n")] ∧
    saidBy .main merged = mainLines ∧ saidBy .thread merged = threadLines

/-- What has been printed when `main` has returned, and what it has returned. -/
def Printed (created : Bool) (code : ℤ) (log : List (Speaker × String)) : Prop :=
  if created then code = 0 ∧ Joined log
  else code = 1 ∧ log = [(.main, "Error creating thread\n")]

/-- What is printed, and when. -/
structure JoinOrderLaw (created : Bool) (schedule : List Speaker) : Prop where
  /-- Each of the two prints its lines in their order. -/
  ordered : created = true →
    saidBy .main (after created schedule).log <+: mainLines ++ ["Main: Thread has finished\n"] ∧
      saidBy .thread (after created schedule).log <+: threadLines
  /-- When `main` has returned, the thread has printed all its lines, or there was none. -/
  returns : ∀ code, exitCode (after created schedule).mainPc = some code →
    Printed created code (after created schedule).log
  /-- The last line is not printed before the thread has exited. -/
  waits : (∃ rest, (after created schedule).mainPc = .after rest) →
    (after created schedule).thread = some [] ∧
      saidBy .thread (after created schedule).log = threadLines
  /-- No schedule has more than 35 steps in which something happens. -/
  bounded : effectiveTurns (next created exp13) .initial schedule ≤ 35
  /-- When `main` and the thread have had so many turns each, `main` has returned. -/
  ends : ∀ rounds, FairRounds rounds → 35 ≤ rounds.length → schedule = rounds.flatten →
    exitCode (after created schedule).mainPc = some (if created then 0 else 1)

/-- The code that `main` returns tells whether there was a thread. -/
theorem exitCode_of_returned {created : Bool} {mainPc : MainPc String}
    (hagrees : mainPc.Agrees created) (hreturned : mainPc.Returned) :
    exitCode mainPc = some (if created then 0 else 1) := by
  cases mainPc with
  | create | before _ => exact hreturned.elim
  | after rest =>
    obtain rfl : created = true := hagrees
    cases rest with
    | nil => rfl
    | cons action rest => exact hreturned.elim
  | failed rest =>
    obtain rfl : created = false := hagrees
    cases rest with
    | nil => rfl
    | cons action rest => exact hreturned.elim

theorem returned_of_exitCode {mainPc : MainPc String} {code : ℤ}
    (hcode : exitCode mainPc = some code) : mainPc.Returned := by
  unfold exitCode at hcode
  split at hcode
  · trivial
  · trivial
  · cases hcode

/-- The thread and `main` print in any order until the thread has exited, and then `main` prints
that it has. -/
theorem joinOrder_law (created : Bool) (schedule : List Speaker) :
    JoinOrderLaw created schedule where
  ordered hcreated := by
    subst hcreated
    have hprefix := (invariant_run true exp13 schedule).prefix_of_created
      (agrees_run true exp13 schedule)
    rwa [lines_before, lines_thread] at hprefix
  returns code hcode := by
    have hreturned := returned_of_exitCode hcode
    have hagrees := agrees_run created exp13 schedule
    have hsaid := (invariant_run created exp13 schedule).saidAll hagrees hreturned
    obtain rfl := Option.some.inj (hcode.symm.trans (exitCode_of_returned hagrees hreturned))
    cases created with
    | false => exact ⟨rfl, hsaid⟩
    | true =>
      obtain ⟨merged, hlog, hmain, hthread⟩ := hsaid
      exact ⟨rfl, merged, hlog, hmain.trans lines_before, hthread.trans lines_thread⟩
  waits := by
    rintro ⟨rest, hpc⟩
    have hinv : Invariant exp13 (after created schedule) := invariant_run created exp13 schedule
    unfold Invariant at hinv
    rw [hpc] at hinv
    obtain ⟨hexited, merged, said, hlog, -, hthread, -⟩ := hinv
    refine ⟨hexited, ?_⟩
    rw [hlog, saidBy_append_of_ne main_ne_thread, hthread, lines_thread]
  bounded := effectiveTurns_le created exp13 schedule
  ends rounds hfair hmany hschedule := by
    subst hschedule
    exact exitCode_of_returned (agrees_run created exp13 _)
      (returned_of_rounds created exp13 hfair hmany)

/-- The thread first, as far as it goes, and then `main`. -/
theorem threadFirst_printed : Printed true 0
    (after true (.main :: List.replicate 21 .thread ++ List.replicate 13 .main)).log :=
  (joinOrder_law true _).returns 0 rfl

end KernelExperiments.Threads.JoinOrder
