import KernelExperiments.Foundation.PrintingProcesses

/-!
# What the programs that fork and execute print

`exp1.1.c` forks and both processes print a line; `exp1.2.1.c` forks and the child prints a line and
becomes `exp1.2.2.c`; `exp2.1.1.c` prints a line and becomes `exp2.1.2.c`. No process waits for
another one, so their lines come in any order.

A line that is still in the buffer when the process becomes another program is lost. So on a
terminal every line is printed, but when the output goes to a file the line before `execlp` is there
exactly if `execlp` fails (`execShows`). The parent's line is there in any case, once
(`forkExec_law`).
-/

set_option autoImplicit false
set_option relaxedAutoImplicit false

namespace KernelExperiments.Processes

open Foundation Foundation.Printing

/-! ### The programs -/

/-- A text and the end of its line. -/
def textLine (text : String) : List Char := text.toList ++ ['\n']

/-- The line of the child of `exp1.1.c`. -/
def childLine (pid : ℤ) : List Char := textLine ("I am child, pid: " ++ toString pid)

/-- The line of the parent of `exp1.1.c`. -/
def parentLine (pid p1 : ℤ) : List Char :=
  textLine ("I am parent, pid: " ++ toString pid ++ ", child pid: " ++ toString p1)

/-- `main` of `exp1.1.c`. -/
def exp11 : Program String :=
  .fork (.ifZero (.printf (fun pid _ ↦ childLine pid) .done) (.printf parentLine .done))

/-- The line of the child of `exp1.2.1.c`. -/
def callingLine : List Char := textLine "I am the child. Calling exp1.2.2"

/-- The line of the parent of `exp1.2.1.c`. -/
def myChildLine (p1 : ℤ) : List Char := textLine ("I am the parent. My child is " ++ toString p1)

/-- `main` of `exp1.2.1.c`. -/
def exp121 : Program String :=
  .fork (.ifZero (.printf (fun _ _ ↦ callingLine) (.execlp "./exp1.2.2" .done))
    (.printf (fun _ p1 ↦ myChildLine p1) .done))

/-- The line of `exp1.2.2.c`. -/
def exp122Line : List Char := textLine "I am exp 1.2.2"

/-- `main` of `exp1.2.2.c`. -/
def exp122 : Program String := .printf (fun _ _ ↦ exp122Line) .done

/-- The line of `exp2.1.1.c`. -/
def exp211Line : List Char := textLine "I am the exp2.1.1. Calling exp2.1.2"

/-- `main` of `exp2.1.1.c`. -/
def exp211 : Program String := .printf (fun _ _ ↦ exp211Line) (.execlp "./exp2.1.2" .done)

/-- The line of `exp2.1.2.c`. -/
def exp212Line : List Char := textLine "I am exp 2.1.2"

/-- `main` of `exp2.1.2.c`. -/
def exp212 : Program String := .printf (fun _ _ ↦ exp212Line) .done

/-- The programs in the working directory: each of the two that are executed, if it is there. -/
def files (has122 has212 : Bool) (path : String) : Option (Program String) :=
  if path = "./exp1.2.2" ∧ has122 then some exp122
  else if path = "./exp2.1.2" ∧ has212 then some exp212
  else none

/-! ### What each process writes -/

/-- What is written by a process that prints a line and becomes a program that prints a line. -/
def execShows (buffering : Buffering) (found : Bool) (before after : List Char) :
    List (List Char) :=
  (if buffering = .full ∧ found then [] else [before]) ++ if found then [after] else []

/-- A line is not empty, and it is written at its end or kept. -/
structure IsLine (line : List Char) : Prop where
  chunk_eq : chunk line = [line]
  split_line : Buffering.line.split line = (line, [])

theorem isLine_textLine (text : String) : IsLine (textLine text) where
  chunk_eq := if_neg (List.append_ne_nil_of_right_ne_nil _ (List.cons_ne_nil _ _))
  split_line := by
    have hpending : ((textLine text).reverse.takeWhile (· ≠ '\n')).reverse = [] := by
      simp [textLine]
    dsimp only [Buffering.split]
    rw [hpending, List.length_nil, Nat.sub_zero, List.take_length]

/-- What `printf` writes of a line. -/
def shown : Buffering → List Char → List (List Char)
  | .line, line => [line]
  | .full, _ => []

/-- What `printf` leaves of a line in the buffer. -/
def kept : Buffering → List Char → List Char
  | .line, _ => []
  | .full, line => line

theorem shown_append_kept (buffering : Buffering) {line : List Char} (hline : IsLine line) :
    shown buffering line ++ chunk (kept buffering line) = [line] := by
  cases buffering with
  | line => rfl
  | full => exact hline.chunk_eq

section Turns

variable {buffering : Buffering} {programs : String → Option (Program String)} {pid p1 : ℤ}
  {buffer : List Char} {rest : Program String} {texts : List (List Char)}
  {others : List (ℤ × List (List Char))}

/-- A process that prints a line. -/
theorem prints_printf {line : ℤ → ℤ → List Char} (hline : IsLine (line pid p1))
    (hprints : Prints buffering programs ⟨pid, p1, [], some (.printf line rest)⟩ texts others) :
    ∃ later, texts = shown buffering (line pid p1) ++ later ∧
      Prints buffering programs ⟨pid, p1, kept buffering (line pid p1), some rest⟩ later
        others := by
  have hturn : ∀ reply, Process.turn buffering programs ⟨pid, p1, [], some (.printf line rest)⟩
      reply = some ⟨⟨pid, p1, kept buffering (line pid p1), some rest⟩,
        shown buffering (line pid p1), none⟩ := by
    intro reply
    cases buffering with
    | full => rfl
    | line =>
      dsimp only [Process.turn]
      rw [List.nil_append, hline.split_line, hline.chunk_eq]
      rfl
  exact hprints.of_turn hturn

/-- A process that returns from `main`. -/
theorem prints_done
    (hprints : Prints buffering programs ⟨pid, p1, buffer, some .done⟩ texts others) :
    texts = chunk buffer ∧ others = [] := by
  have hturn : ∀ reply, Process.turn buffering programs ⟨pid, p1, buffer, some .done⟩ reply =
      some ⟨⟨pid, p1, [], none⟩, chunk buffer, none⟩ := fun _ ↦ rfl
  obtain ⟨later, rfl, hend⟩ := hprints.of_turn hturn
  obtain ⟨rfl, rfl⟩ := hend.of_ended rfl
  exact ⟨List.append_nil _, rfl⟩

/-- A process that becomes another program, or goes on when there is none. -/
theorem prints_execlp {path : String}
    (hprints : Prints buffering programs ⟨pid, p1, buffer, some (.execlp path rest)⟩ texts others) :
    match programs path with
    | none => Prints buffering programs ⟨pid, p1, buffer, some rest⟩ texts others
    | some program => Prints buffering programs ⟨pid, p1, [], some program⟩ texts others := by
  cases hpath : programs path with
  | none =>
    have hturn : ∀ reply,
        Process.turn buffering programs ⟨pid, p1, buffer, some (.execlp path rest)⟩ reply =
          some ⟨⟨pid, p1, buffer, some rest⟩, [], none⟩ := by
      intro reply
      dsimp only [Process.turn]
      rw [hpath]
    obtain ⟨_, rfl, hnext⟩ := hprints.of_turn hturn
    exact hnext
  | some program =>
    have hturn : ∀ reply,
        Process.turn buffering programs ⟨pid, p1, buffer, some (.execlp path rest)⟩ reply =
          some ⟨⟨pid, p1, [], some program⟩, [], none⟩ := by
      intro reply
      dsimp only [Process.turn]
      rw [hpath]
    obtain ⟨_, rfl, hnext⟩ := hprints.of_turn hturn
    exact hnext

/-- A process that has to see whether it is the child. -/
theorem prints_ifZero {zero other : Program String}
    (hprints : Prints buffering programs ⟨pid, p1, buffer, some (.ifZero zero other)⟩ texts
      others) :
    Prints buffering programs ⟨pid, p1, buffer, some (if p1 = 0 then zero else other)⟩ texts
      others := by
  have hturn : ∀ reply,
      Process.turn buffering programs ⟨pid, p1, buffer, some (.ifZero zero other)⟩ reply =
        some ⟨⟨pid, p1, buffer, some (if p1 = 0 then zero else other)⟩, [], none⟩ := fun _ ↦ rfl
  obtain ⟨_, rfl, hnext⟩ := hprints.of_turn hturn
  exact hnext

/-- A process that has a line to print and nothing else. -/
theorem prints_line {line : ℤ → ℤ → List Char} (hline : IsLine (line pid p1))
    (hprints : Prints buffering programs ⟨pid, p1, [], some (.printf line .done)⟩ texts others) :
    texts = [line pid p1] ∧ others = [] := by
  obtain ⟨later, rfl, hdone⟩ := prints_printf hline hprints
  obtain ⟨rfl, rfl⟩ := prints_done hdone
  exact ⟨shown_append_kept buffering hline, rfl⟩

/-- A process that prints a line and becomes a program that prints a line. -/
theorem prints_exec {path : String} {before after : ℤ → ℤ → List Char} {found : Bool}
    (hprograms : programs path = if found then some (.printf after .done) else none)
    (hbefore : IsLine (before pid p1)) (hafter : IsLine (after pid p1))
    (hprints : Prints buffering programs
      ⟨pid, p1, [], some (.printf before (.execlp path .done))⟩ texts others) :
    texts = execShows buffering found (before pid p1) (after pid p1) ∧ others = [] := by
  obtain ⟨later, rfl, hexec⟩ := prints_printf hbefore hprints
  have hnext := prints_execlp hexec
  rw [hprograms] at hnext
  cases found with
  | false =>
    obtain ⟨rfl, rfl⟩ := prints_done hnext
    rw [shown_append_kept buffering hbefore]
    cases buffering <;> exact ⟨rfl, rfl⟩
  | true =>
    obtain ⟨rfl, rfl⟩ := prints_line hafter hnext
    cases buffering <;> exact ⟨rfl, rfl⟩

/-- A process that forks and whose two copies do different things: there is no child, or there is
one, and each of them goes on with an empty buffer. -/
theorem prints_fork {zero other : Program String}
    (hprints : Prints buffering programs ⟨pid, p1, [], some (.fork (.ifZero zero other))⟩ texts
      others) :
    Prints buffering programs ⟨pid, -1, [], some other⟩ texts others ∨
      ∃ child > 0, ∃ childTexts childOthers parentOthers,
        others = (child, childTexts) :: childOthers ++ parentOthers ∧
          Prints buffering programs ⟨pid, child, [], some other⟩ texts parentOthers ∧
          Prints buffering programs ⟨child, 0, [], some zero⟩ childTexts childOthers := by
  obtain hnone | ⟨child, hpos, childTexts, childOthers, parentOthers, rfl, hparent, hchild⟩ :=
    hprints.of_fork rfl
  · exact Or.inl (prints_ifZero hnone)
  · have hother := prints_ifZero hparent
    rw [if_neg (Int.ne_of_gt hpos)] at hother
    exact Or.inr ⟨child, hpos, childTexts, childOthers, parentOthers, rfl, hother,
      prints_ifZero hchild⟩

end Turns

/-! ### What is written in the end -/

/-- Where a program has come to that runs with the ones it forks, by a schedule of steps in which
the replies of `fork` are chosen. -/
def finished (buffering : Buffering) (has122 has212 : Bool) (pid p1 : ℤ)
    (program : Program String) (schedule : List (ℕ × Option ℤ)) : Pool String :=
  run (attempt (Pool.next buffering (files has122 has212))) (.start pid p1 program) schedule

/-- The line of a parent that has no child, or its line and those of its child, each written by the
process it is about, in any order. -/
def ForkOutput (pid : ℤ) (parent : ℤ → List Char) (child : ℤ → List (List Char))
    (output : List (ℤ × List Char)) : Prop :=
  output = [(pid, parent (-1))] ∨
    ∃ number > 0, Shuffle output [(pid, [parent number]), (number, child number)]

/-- A program that forks and does different things in the two copies. -/
theorem forkOutput_of_prints {buffering : Buffering} {programs : String → Option (Program String)}
    {pid p1 : ℤ} {zero : Program String} {parent : ℤ → ℤ → List Char}
    {child : ℤ → List (List Char)} {texts : List (List Char)} {others : List (ℤ × List (List Char))}
    {output : List (ℤ × List Char)} (hparent : ∀ p1, IsLine (parent pid p1))
    (hchild : ∀ {number : ℤ} {texts : List (List Char)} {others : List (ℤ × List (List Char))},
      Prints buffering programs ⟨number, 0, [], some zero⟩ texts others →
        texts = child number ∧ others = [])
    (hprints : Prints buffering programs
      ⟨pid, p1, [], some (.fork (.ifZero zero (.printf parent .done)))⟩ texts others)
    (hshuffle : Shuffle output ((pid, texts) :: others)) :
    ForkOutput pid (parent pid) child output := by
  obtain hnone | ⟨number, hpos, childTexts, childOthers, parentOthers, rfl, hother, hzero⟩ :=
    prints_fork hprints
  · obtain ⟨rfl, rfl⟩ := prints_line (hparent (-1)) hnone
    exact Or.inl hshuffle.singleton
  · obtain ⟨rfl, rfl⟩ := prints_line (hparent number) hother
    obtain ⟨rfl, rfl⟩ := hchild hzero
    exact Or.inr ⟨number, hpos, hshuffle⟩

/-- A program that can be executed has at most two steps. -/
theorem weight_files (has122 has212 : Bool) (path : String) :
    ∀ program ∈ files has122 has212 path, program.weight 2 ≤ 2 := by
  intro program hprogram
  rw [files] at hprogram
  split_ifs at hprogram
  · cases hprogram
    exact Nat.le_refl 2
  · cases hprogram
    exact Nat.le_refl 2
  · cases hprogram

theorem files_exp122 (has122 has212 : Bool) :
    files has122 has212 "./exp1.2.2" = if has122 then some exp122 else none := by
  simp [files]

theorem files_exp212 (has122 has212 : Bool) :
    files has122 has212 "./exp2.1.2" = if has212 then some exp212 else none := by
  simp [files]

/-- What the programs have written when all processes have ended, and that they do end. -/
structure ForkExecLaw (buffering : Buffering) (has122 has212 : Bool) (pid p1 : ℤ)
    (schedule : List (ℕ × Option ℤ)) : Prop where
  /-- `exp1.1.c`: two lines, or the one of the parent. -/
  forks : (finished buffering has122 has212 pid p1 exp11 schedule).Ended →
    ForkOutput pid (parentLine pid) (fun number ↦ [childLine number])
      (finished buffering has122 has212 pid p1 exp11 schedule).output
  /-- `exp1.2.1.c`: the line of the parent, and what is shown of the lines of the child. -/
  forksAndExecutes : (finished buffering has122 has212 pid p1 exp121 schedule).Ended →
    ForkOutput pid myChildLine
      (fun _ ↦ execShows buffering has122 callingLine exp122Line)
      (finished buffering has122 has212 pid p1 exp121 schedule).output
  /-- `exp2.1.1.c`: what is shown of the lines of the two programs, in their order. -/
  executes : (finished buffering has122 has212 pid p1 exp211 schedule).Ended →
    (finished buffering has122 has212 pid p1 exp211 schedule).output =
      (execShows buffering has212 exp211Line exp212Line).map fun line ↦ (pid, line)
  /-- No schedule has more than thirteen steps in which something happens. -/
  bounded : ∀ program ∈ [exp11, exp121, exp211],
    effectiveTurns (Pool.next buffering (files has122 has212)) (.start pid p1 program) schedule ≤ 13
  /-- There is a next step until all processes have ended. -/
  goesOn : ∀ program ∈ [exp11, exp121, exp211],
    ¬ (finished buffering has122 has212 pid p1 program schedule).Ended →
      ∃ index, ∃ final, (finished buffering has122 has212 pid p1 program schedule).next buffering
        (files has122 has212) (index, none) = some final

/-- The programs that fork and execute end, and what they have printed is known but for the order
between the processes. -/
theorem forkExec_law (buffering : Buffering) (has122 has212 : Bool) (pid p1 : ℤ)
    (schedule : List (ℕ × Option ℤ)) :
    ForkExecLaw buffering has122 has212 pid p1 schedule where
  forks hended := by
    obtain ⟨texts, others, hprints, hshuffle⟩ := finished_shuffle schedule hended
    exact forkOutput_of_prints (fun _ ↦ isLine_textLine _)
      (fun hchild ↦ prints_line (isLine_textLine _) hchild) hprints hshuffle
  forksAndExecutes hended := by
    obtain ⟨texts, others, hprints, hshuffle⟩ := finished_shuffle schedule hended
    exact forkOutput_of_prints (fun _ ↦ isLine_textLine _)
      (fun hchild ↦ prints_exec (files_exp122 has122 has212) (isLine_textLine _)
        (isLine_textLine _) hchild) hprints hshuffle
  executes hended := by
    obtain ⟨texts, others, hprints, hshuffle⟩ := finished_shuffle schedule hended
    obtain ⟨rfl, rfl⟩ := prints_exec (files_exp212 has122 has212) (isLine_textLine _)
      (isLine_textLine _) hprints
    exact hshuffle.singleton
  bounded := by
    intro program hprogram
    have hsteps := @effectiveTurns_le_weight _ buffering _ _ (weight_files has122 has212)
      (.start pid p1 program) schedule
    have hweight : ∀ program ∈ [exp11, exp121, exp211], program.weight 2 ≤ 13 := by decide
    exact Nat.le_trans hsteps (hweight program hprogram)
  goesOn _ _ hnot := exists_next_of_not_ended hnot

/-- The child first, whose own line is lost, with the output in a file. -/
theorem exp121_toFile : ∃ schedule, (finished .full true true 5 0 exp121 schedule).Ended ∧
    ForkOutput 5 myChildLine (fun _ ↦ [exp122Line])
      (finished .full true true 5 0 exp121 schedule).output := by
  let schedule : List (ℕ × Option ℤ) :=
    (0, some 6) :: List.replicate 5 (1, none) ++ List.replicate 3 (0, none)
  have hended : (finished .full true true 5 0 exp121 schedule).Ended := by
    unfold Pool.Ended
    decide
  exact ⟨schedule, hended, (forkExec_law .full true true 5 0 schedule).forksAndExecutes hended⟩

end KernelExperiments.Processes
