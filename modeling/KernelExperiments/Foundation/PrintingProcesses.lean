import KernelExperiments.Foundation.Rounds
import Mathlib.Algebra.Ring.Nat
import Mathlib.Data.Int.Notation

/-!
# Processes that print to one place

Programs that call `printf`, `fork` and `execlp` and return. Each process has a buffer for what it
prints, which is written in whole lines or, when the output is not a terminal, only at the end; a
forked process starts with a copy of the buffer, and a program that replaces another one with an
empty one. `Pool.next` is one step of one process of a pool whose processes write to one output.

Processes do not wait for each other, so what a pool writes is a `Shuffle` of what its processes
write, each run on its own (`Prints`): `finished_shuffle` says so for every interleaving that ends.
And every interleaving does end: each step leaves less to do (`effectiveTurns_le_weight`), and there
is a next one until all processes have ended (`exists_next_of_not_ended`).

## Scope

A full buffer is longer than all that a process prints.
-/

set_option autoImplicit false
set_option relaxedAutoImplicit false

namespace KernelExperiments.Foundation.Printing

/-! ### Shuffles -/

section Shuffle

variable {Tag Item : Type*}

/-- The items of the parts, each part in its order. -/
inductive Shuffle : List (Tag × Item) → List (Tag × List Item) → Prop
  | nil {parts : List (Tag × List Item)} (hempty : ∀ part ∈ parts, part.2 = []) :
      Shuffle [] parts
  | cons {tag : Tag} {item : Item} {items : List Item} {merged : List (Tag × Item)}
      {parts others : List (Tag × List Item)} (hperm : parts.Perm ((tag, item :: items) :: others))
      (hrest : Shuffle merged ((tag, items) :: others)) : Shuffle ((tag, item) :: merged) parts

variable {merged : List (Tag × Item)} {parts others : List (Tag × List Item)}

theorem Shuffle.perm (hshuffle : Shuffle merged parts) (hperm : parts.Perm others) :
    Shuffle merged others := by
  cases hshuffle with
  | nil hempty => exact .nil fun part hpart ↦ hempty part (hperm.mem_iff.mpr hpart)
  | cons hparts hrest => exact .cons (hperm.symm.trans hparts) hrest

/-- More items come in front of one part. -/
theorem Shuffle.prepend {tag : Tag} {items : List Item} {before after : List (Tag × List Item)}
    (hshuffle : Shuffle merged (before ++ (tag, items) :: after)) (written : List Item) :
    Shuffle (written.map (fun item ↦ (tag, item)) ++ merged)
      (before ++ (tag, written ++ items) :: after) := by
  induction written with
  | nil => exact hshuffle
  | cons item rest ih => exact .cons List.perm_middle (ih.perm List.perm_middle)

/-- The only part. -/
theorem Shuffle.singleton {tag : Tag} {items : List Item}
    (hshuffle : Shuffle merged [(tag, items)]) :
    merged = items.map fun item ↦ (tag, item) := by
  induction merged generalizing items with
  | nil =>
    cases hshuffle with
    | nil hempty =>
      obtain rfl : items = [] := hempty _ (List.mem_singleton.mpr rfl)
      rfl
  | cons first rest ih =>
    cases hshuffle with
    | cons hperm hrest =>
      obtain ⟨heq, rfl⟩ := List.cons.inj (List.singleton_perm.mp hperm).symm
      cases heq
      rw [ih hrest]
      rfl

end Shuffle

/-! ### Programs and processes -/

/-- A program: `printf` of a text in which `getpid()` and `p1` may stand, `p1 = fork()`,
`if (p1 == 0)`, `execlp`, which returns if it fails, and the end of `main`. -/
inductive Program (Path : Type*)
  | printf (text : ℤ → ℤ → List Char) (rest : Program Path)
  | fork (rest : Program Path)
  | ifZero (zero other : Program Path)
  | execlp (path : Path) (rest : Program Path)
  | done

/-- A process: its number, its variable `p1`, the buffer of `stdout`, and what it has left to do,
nothing when it has ended. -/
structure Process (Path : Type*) where
  pid : ℤ
  p1 : ℤ
  buffer : List Char
  program : Option (Program Path)

/-- When the buffer is written: up to the end of a line, or at the end of the process only. -/
inductive Buffering
  | line
  | full
  deriving DecidableEq

/-- What is written of the buffer when something has been printed, and what stays. -/
def Buffering.split (buffering : Buffering) (buffer : List Char) : List Char × List Char :=
  match buffering with
  | .full => ([], buffer)
  | .line =>
    let pending := (buffer.reverse.takeWhile (· ≠ '\n')).reverse
    (buffer.take (buffer.length - pending.length), pending)

/-- A write to the output, if there is anything to write. -/
def chunk (text : List Char) : List (List Char) := if text = [] then [] else [text]

/-- What a step of a process gives: the process, what it has written, and the process it has
forked. -/
structure Turn (Path : Type*) where
  next : Process Path
  written : List (List Char)
  forked : Option (Process Path)

variable {Path : Type*}

/-- A step of a process. `reply` is what `fork` would return to it: the number of the new process,
or nothing when there is none; `files` are the programs that can be executed. -/
def Process.turn (buffering : Buffering) (files : Path → Option (Program Path))
    (process : Process Path) (reply : Option ℤ) : Option (Turn Path) :=
  match process.program with
  | none => none
  | some (.printf text rest) =>
    let (written, pending) := buffering.split (process.buffer ++ text process.pid process.p1)
    some ⟨{ process with buffer := pending, program := some rest }, chunk written, none⟩
  | some (.fork rest) =>
    match reply with
    | none => some ⟨{ process with p1 := -1, program := some rest }, [], none⟩
    | some pid =>
      if 0 < pid then
        some ⟨{ process with p1 := pid, program := some rest }, [],
          some ⟨pid, 0, process.buffer, some rest⟩⟩
      else none
  | some (.ifZero zero other) =>
    some ⟨{ process with program := some (if process.p1 = 0 then zero else other) }, [], none⟩
  | some (.execlp path rest) =>
    match files path with
    | none => some ⟨{ process with program := some rest }, [], none⟩
    | some program => some ⟨{ process with buffer := [], program := some program }, [], none⟩
  | some .done => some ⟨{ process with buffer := [], program := none }, chunk process.buffer, none⟩

/-- The processes, in the order in which they were forked, and what has been written, with the
number of the process that wrote it. -/
structure Pool (Path : Type*) where
  processes : List (Process Path)
  output : List (ℤ × List Char)

/-- A step of the process at a place of the pool. -/
def Pool.next (buffering : Buffering) (files : Path → Option (Program Path)) (pool : Pool Path)
    (actor : ℕ × Option ℤ) : Option (Pool Path) :=
  match pool.processes[actor.1]? with
  | none => none
  | some process =>
    match process.turn buffering files actor.2 with
    | none => none
    | some turn => some {
        processes := pool.processes.set actor.1 turn.next ++ turn.forked.toList
        output := pool.output ++ turn.written.map fun text ↦ (process.pid, text) }

/-- The pool of one process. -/
def Pool.start (pid p1 : ℤ) (program : Program Path) : Pool Path :=
  ⟨[⟨pid, p1, [], some program⟩], []⟩

/-- All processes have ended. -/
def Pool.Ended (pool : Pool Path) : Prop := ∀ process ∈ pool.processes, process.program = none

/-- What a process writes from now on when it runs on its own, and what the processes write that it
forks, each with its number. -/
inductive Prints (buffering : Buffering) (files : Path → Option (Program Path)) :
    Process Path → List (List Char) → List (ℤ × List (List Char)) → Prop
  | ended {process : Process Path} (hended : process.program = none) :
      Prints buffering files process [] []
  | step {process next : Process Path} {reply : Option ℤ} {written texts : List (List Char)}
      {others : List (ℤ × List (List Char))}
      (hturn : process.turn buffering files reply = some ⟨next, written, none⟩)
      (hnext : Prints buffering files next texts others) :
      Prints buffering files process (written ++ texts) others
  | forks {process next forked : Process Path} {reply : Option ℤ}
      {written texts forkedTexts : List (List Char)}
      {others forkedOthers : List (ℤ × List (List Char))}
      (hturn : process.turn buffering files reply = some ⟨next, written, some forked⟩)
      (hnext : Prints buffering files next texts others)
      (hforked : Prints buffering files forked forkedTexts forkedOthers) :
      Prints buffering files process (written ++ texts)
        ((forked.pid, forkedTexts) :: forkedOthers ++ others)

/-- What several processes write. -/
inductive PrintsAll (buffering : Buffering) (files : Path → Option (Program Path)) :
    List (Process Path) → List (ℤ × List (List Char)) → Prop
  | nil : PrintsAll buffering files [] []
  | cons {process : Process Path} {rest : List (Process Path)} {texts : List (List Char)}
      {others parts : List (ℤ × List (List Char))}
      (hfirst : Prints buffering files process texts others)
      (hrest : PrintsAll buffering files rest parts) :
      PrintsAll buffering files (process :: rest) ((process.pid, texts) :: others ++ parts)

variable {buffering : Buffering} {files : Path → Option (Program Path)}

/-! ### Interleavings are shuffles -/

theorem prints_append {first second : List (Process Path)}
    {parts : List (ℤ × List (List Char))}
    (hprints : PrintsAll buffering files (first ++ second) parts) :
    ∃ firstParts secondParts, parts = firstParts ++ secondParts ∧
      PrintsAll buffering files first firstParts ∧
      PrintsAll buffering files second secondParts := by
  induction first generalizing parts with
  | nil => exact ⟨[], parts, rfl, .nil, hprints⟩
  | cons process rest ih =>
    cases hprints with
    | cons hfirst hrest =>
      obtain ⟨restParts, secondParts, rfl, hrestParts, hsecond⟩ := ih hrest
      exact ⟨_, secondParts, (List.append_assoc _ _ _).symm, .cons hfirst hrestParts, hsecond⟩

theorem PrintsAll.append {first second : List (Process Path)}
    {firstParts secondParts : List (ℤ × List (List Char))}
    (hfirst : PrintsAll buffering files first firstParts)
    (hsecond : PrintsAll buffering files second secondParts) :
    PrintsAll buffering files (first ++ second) (firstParts ++ secondParts) := by
  induction hfirst with
  | nil => exact hsecond
  | cons hprocess _ ih =>
    rw [List.cons_append, List.append_assoc]
    exact .cons hprocess ih

/-- Processes that have ended write nothing more. -/
theorem printsAll_of_ended {processes : List (Process Path)}
    (hended : ∀ process ∈ processes, process.program = none) :
    ∃ parts, PrintsAll buffering files processes parts ∧
      Shuffle ([] : List (ℤ × List Char)) parts := by
  induction processes with
  | nil => exact ⟨[], .nil, .nil (List.forall_mem_nil _)⟩
  | cons process rest ih =>
    obtain ⟨hprocess, hrest⟩ := List.forall_mem_cons.mp hended
    obtain ⟨parts, hparts, hshuffle⟩ := ih hrest
    refine ⟨_, .cons (.ended hprocess) hparts, .nil ?_⟩
    cases hshuffle with
    | nil hempty => exact List.forall_mem_cons.mpr ⟨rfl, hempty⟩

/-- A process keeps its number. -/
theorem pid_of_turn {process : Process Path} {reply : Option ℤ} {turn : Turn Path}
    (hturn : process.turn buffering files reply = some turn) : turn.next.pid = process.pid := by
  unfold Process.turn at hturn
  split at hturn
  · cases hturn
  · cases hturn
    rfl
  · split at hturn
    · cases hturn
      rfl
    · split_ifs at hturn
      cases hturn
      rfl
  · cases hturn
    rfl
  · split at hturn <;> cases hturn <;> rfl
  · cases hturn
    rfl

/-- A step of the pool is a step of one of its processes. -/
theorem exists_turn_of_next {pool final : Pool Path} {actor : ℕ × Option ℤ}
    (hnext : pool.next buffering files actor = some final) :
    ∃ before process after turn, pool.processes = before ++ process :: after ∧
      process.turn buffering files actor.2 = some turn ∧
      final = ⟨before ++ turn.next :: after ++ turn.forked.toList,
        pool.output ++ turn.written.map fun text ↦ (process.pid, text)⟩ := by
  unfold Pool.next at hnext
  cases hprocess : pool.processes[actor.1]? with
  | none =>
    rw [hprocess] at hnext
    cases hnext
  | some process =>
    rw [hprocess] at hnext
    dsimp only at hnext
    cases hturn : process.turn buffering files actor.2 with
    | none =>
      rw [hturn] at hnext
      cases hnext
    | some turn =>
      rw [hturn] at hnext
      obtain ⟨hlt, hget⟩ := List.getElem?_eq_some_iff.mp hprocess
      refine ⟨pool.processes.take actor.1, process, pool.processes.drop (actor.1 + 1), turn, ?_,
        hturn, ?_⟩
      · rw [← hget, ← List.drop_eq_getElem_cons hlt, List.take_append_drop]
      · rw [← Option.some.inj hnext, List.set_eq_take_append_cons_drop, if_pos hlt]

/-- What the processes of a pool have written when all have ended is what they had written, and then
a shuffle of what each of them writes on its own. -/
theorem exists_shuffle (schedule : List (ℕ × Option ℤ)) {pool : Pool Path}
    (hended : (run (attempt (Pool.next buffering files)) pool schedule).Ended) :
    ∃ merged parts, (run (attempt (Pool.next buffering files)) pool schedule).output =
        pool.output ++ merged ∧ PrintsAll buffering files pool.processes parts ∧
      Shuffle merged parts := by
  induction schedule generalizing pool with
  | nil =>
    obtain ⟨parts, hparts, hshuffle⟩ := printsAll_of_ended hended
    exact ⟨[], parts, (List.append_nil _).symm, hparts, hshuffle⟩
  | cons actor rest ih =>
    rw [run_cons] at hended ⊢
    cases hnext : pool.next buffering files actor with
    | none =>
      rw [attempt_of_none hnext] at hended ⊢
      exact ih hended
    | some final =>
      rw [attempt_of_some hnext] at hended ⊢
      obtain ⟨merged, parts, houtput, hparts, hshuffle⟩ := ih hended
      obtain ⟨before, process, after, ⟨next, written, forked⟩, hpool, hturn, rfl⟩ :=
        exists_turn_of_next hnext
      have hpid : next.pid = process.pid := pid_of_turn hturn
      obtain ⟨front, forkedParts, rfl, hfront, hforked⟩ := prints_append hparts
      obtain ⟨beforeParts, restParts, rfl, hbefore, hrest⟩ := prints_append hfront
      cases hrest with
      | @cons _ _ texts others afterParts hprints hafter =>
      rw [hpid, List.append_assoc, List.cons_append, List.cons_append] at hshuffle
      have hwritten := hshuffle.prepend written
      rw [hpool]
      cases forked with
      | none =>
        cases hforked
        rw [List.append_nil] at hwritten
        exact ⟨_, _, by rw [houtput, List.append_assoc],
          hbefore.append (.cons (.step hturn hprints) hafter), hwritten⟩
      | some forked =>
        cases hforked with
        | @cons _ _ forkedTexts forkedOthers _ hforked hnil =>
        cases hnil
        refine ⟨_, _, by rw [houtput, List.append_assoc],
          hbefore.append (.cons (.forks hturn hprints hforked) hafter), hwritten.perm ?_⟩
        have hcomm :
            (others ++ afterParts ++ ((forked.pid, forkedTexts) :: forkedOthers ++ [])).Perm
              ((forked.pid, forkedTexts) :: forkedOthers ++ others ++ afterParts) := by
          rw [List.append_nil, List.append_assoc _ others]
          exact List.perm_append_comm
        exact (hcomm.cons _).append_left _

/-- What one process and those it forks have written when all have ended is a shuffle of what each
of them writes on its own. -/
theorem finished_shuffle {pid p1 : ℤ} {program : Program Path} (schedule : List (ℕ × Option ℤ))
    (hended : (run (attempt (Pool.next buffering files)) (.start pid p1 program) schedule).Ended) :
    ∃ texts others, Prints buffering files ⟨pid, p1, [], some program⟩ texts others ∧
      Shuffle (run (attempt (Pool.next buffering files)) (.start pid p1 program) schedule).output
        ((pid, texts) :: others) := by
  obtain ⟨merged, parts, houtput, hparts, hshuffle⟩ := exists_shuffle schedule hended
  cases hparts with
  | @cons _ _ texts others _ hprints hnil =>
  cases hnil
  rw [List.append_nil] at hshuffle
  rw [houtput]
  exact ⟨texts, others, hprints, hshuffle⟩

/-! ### What a process writes on its own -/

/-- A process that has ended. -/
theorem Prints.of_ended {process : Process Path} {texts : List (List Char)}
    {others : List (ℤ × List (List Char))} (hprints : Prints buffering files process texts others)
    (hended : process.program = none) : texts = [] ∧ others = [] := by
  have hnone : ∀ reply, process.turn buffering files reply = none := by
    intro reply
    rw [Process.turn, hended]
  cases hprints with
  | ended _ => exact ⟨rfl, rfl⟩
  | step hturn _ => cases (hnone _).symm.trans hturn
  | forks hturn _ _ => cases (hnone _).symm.trans hturn

/-- A step in which no process is forked. -/
theorem Prints.of_turn {process next : Process Path} {written texts : List (List Char)}
    {others : List (ℤ × List (List Char))} (hprints : Prints buffering files process texts others)
    (hturn : ∀ reply, process.turn buffering files reply = some ⟨next, written, none⟩) :
    ∃ rest, texts = written ++ rest ∧ Prints buffering files next rest others := by
  cases hprints with
  | ended hended =>
    have hnone : process.turn buffering files none = none := by rw [Process.turn, hended]
    cases hnone.symm.trans (hturn none)
  | step hother hnext =>
    cases (hturn _).symm.trans hother
    exact ⟨_, rfl, hnext⟩
  | forks hother _ _ => cases (hturn _).symm.trans hother

/-- A `fork` fails, or there is one more process. -/
theorem Prints.of_fork {process : Process Path} {rest : Program Path} {texts : List (List Char)}
    {others : List (ℤ × List (List Char))} (hprints : Prints buffering files process texts others)
    (hfork : process.program = some (.fork rest)) :
    Prints buffering files { process with p1 := -1, program := some rest } texts others ∨
      ∃ pid > 0, ∃ forkedTexts forkedOthers restOthers,
        others = (pid, forkedTexts) :: forkedOthers ++ restOthers ∧
          Prints buffering files { process with p1 := pid, program := some rest } texts restOthers ∧
          Prints buffering files ⟨pid, 0, process.buffer, some rest⟩ forkedTexts forkedOthers := by
  cases hprints with
  | ended hended => cases hended.symm.trans hfork
  | @step _ _ reply _ _ _ hturn hnext =>
    rw [Process.turn, hfork] at hturn
    dsimp only at hturn
    split at hturn
    · cases hturn
      exact Or.inl hnext
    · split_ifs at hturn
      cases hturn
  | @forks _ _ _ reply _ _ _ _ _ hturn hnext hforked =>
    rw [Process.turn, hfork] at hturn
    dsimp only at hturn
    split at hturn
    · cases hturn
    · split_ifs at hturn with hpos
      cases hturn
      exact Or.inr ⟨_, hpos, _, _, _, rfl, hnext, hforked⟩

/-! ### Interleavings end -/

/-- The steps that a program takes with the processes it forks, at most. `bound` is for a program
that it executes. -/
def Program.weight (bound : ℕ) : Program Path → ℕ
  | .printf _ rest => 1 + rest.weight bound
  | .fork rest => 1 + 2 * rest.weight bound
  | .ifZero zero other => 1 + max (zero.weight bound) (other.weight bound)
  | .execlp _ rest => 1 + bound + rest.weight bound
  | .done => 1

/-- The steps that a process takes with the processes it forks, at most. -/
def Process.weight (bound : ℕ) (process : Process Path) : ℕ :=
  match process.program with
  | none => 0
  | some program => program.weight bound

/-- The steps that are left, at most. -/
def Pool.weight (bound : ℕ) (pool : Pool Path) : ℕ :=
  (pool.processes.map (Process.weight bound)).sum

/-- A step leaves less to do. -/
theorem weight_of_turn {bound : ℕ}
    (hfiles : ∀ path, ∀ program ∈ files path, program.weight bound ≤ bound)
    {process : Process Path} {reply : Option ℤ} {turn : Turn Path}
    (hturn : process.turn buffering files reply = some turn) :
    turn.next.weight bound + (turn.forked.toList.map (Process.weight bound)).sum <
      process.weight bound := by
  unfold Process.turn at hturn
  unfold Process.weight
  cases hprogram : process.program with
  | none => simp only [hprogram, reduceCtorEq] at hturn
  | some program =>
    rw [hprogram] at hturn
    dsimp only at hturn ⊢
    cases program with
    | printf text rest =>
      cases hturn
      change rest.weight bound + 0 < 1 + rest.weight bound
      omega
    | fork rest =>
      dsimp only at hturn
      split at hturn
      · cases hturn
        change rest.weight bound + 0 < 1 + 2 * rest.weight bound
        omega
      · split_ifs at hturn
        cases hturn
        change rest.weight bound + (rest.weight bound + 0) < 1 + 2 * rest.weight bound
        omega
    | ifZero zero other =>
      cases hturn
      change (if process.p1 = 0 then zero else other).weight bound + 0 <
        1 + max (zero.weight bound) (other.weight bound)
      split_ifs <;> omega
    | execlp path rest =>
      dsimp only at hturn
      split at hturn
      · cases hturn
        change rest.weight bound + 0 < 1 + bound + rest.weight bound
        omega
      · rename_i program hfile
        cases hturn
        have hprogram := hfiles path program hfile
        change program.weight bound + 0 < 1 + bound + rest.weight bound
        omega
    | done =>
      cases hturn
      exact Nat.zero_lt_one

theorem weight_next {bound : ℕ}
    (hfiles : ∀ path, ∀ program ∈ files path, program.weight bound ≤ bound)
    {pool final : Pool Path} {actor : ℕ × Option ℤ}
    (hnext : pool.next buffering files actor = some final) :
    final.weight bound < pool.weight bound := by
  obtain ⟨before, process, after, turn, hpool, hturn, rfl⟩ := exists_turn_of_next hnext
  have hless := weight_of_turn hfiles hturn
  unfold Pool.weight
  rw [hpool]
  simp only [List.map_append, List.map_cons, List.sum_append, List.sum_cons]
  omega

/-- An interleaving has no more steps than there are left to do. -/
theorem effectiveTurns_le_weight {bound : ℕ}
    (hfiles : ∀ path, ∀ program ∈ files path, program.weight bound ≤ bound)
    (pool : Pool Path) (schedule : List (ℕ × Option ℤ)) :
    effectiveTurns (Pool.next buffering files) pool schedule ≤ pool.weight bound := by
  have hpaid := @effectiveTurns_add_measure_le _ _ (Pool.next buffering files) (fun _ ↦ True)
    (Pool.weight bound) (fun _ _ _ _ _ ↦ trivial) (fun _ _ _ hnext _ ↦ weight_next hfiles hnext)
    pool trivial schedule
  omega

/-- A process that has not ended can go on, whatever `fork` returns. -/
theorem exists_turn {process : Process Path} (hnot : process.program ≠ none) :
    ∃ turn, process.turn buffering files none = some turn := by
  unfold Process.turn
  split
  · exact absurd ‹_› hnot
  · exact ⟨_, rfl⟩
  · exact ⟨_, rfl⟩
  · exact ⟨_, rfl⟩
  · split <;> exact ⟨_, rfl⟩
  · exact ⟨_, rfl⟩

/-- A pool that has not ended can go on. -/
theorem exists_next_of_not_ended {pool : Pool Path} (hnot : ¬ pool.Ended) :
    ∃ index, ∃ final, pool.next buffering files (index, none) = some final := by
  obtain ⟨process, hprocess, hprogram⟩ : ∃ process ∈ pool.processes, process.program ≠ none := by
    by_contra hall
    exact hnot fun process hprocess ↦ by_contra fun hprogram ↦ hall ⟨process, hprocess, hprogram⟩
  obtain ⟨index, hindex⟩ := List.mem_iff_getElem?.mp hprocess
  obtain ⟨turn, hturn⟩ := @exists_turn _ buffering files process hprogram
  have hsome : (pool.next buffering files (index, none)).isSome := by
    unfold Pool.next
    rw [hindex]
    dsimp only
    rw [hturn]
    rfl
  exact ⟨index, Option.isSome_iff_exists.mp hsome⟩

end KernelExperiments.Foundation.Printing
