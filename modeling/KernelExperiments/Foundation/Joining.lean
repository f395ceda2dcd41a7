import KernelExperiments.Foundation.Rounds

/-!
# A thread that is joined

`main` creates a thread, does something, waits for the thread to exit, and does something more;
meanwhile the thread does something of its own. What they do is to print lines and to sleep. The
lines go to one log, each with its `Speaker`, and `Joining.next` is a step of one of the two.

Until the thread is joined the log is any merge of the lines of the two. After it only `main` is
left: what it says comes behind all that either of them has said before (`Invariant`). Every
interleaving comes to the end of `main` (`returned_of_rounds`), when all has been said, or what is
said when no thread could be created (`Invariant.saidAll`).
-/

set_option autoImplicit false
set_option relaxedAutoImplicit false

namespace KernelExperiments.Foundation.Joining

/-! ### The program and its steps -/

/-- Who prints a line. -/
inductive Speaker
  | main
  | thread
  deriving DecidableEq

/-- A statement that is run without a wait for the other one. -/
inductive Action (Line : Type*)
  | printf (line : Line)
  | sleep

/-- What the thread does, and what `main` does until it joins the thread, from then on, and when
there is no thread. -/
structure Program (Line : Type*) where
  thread : List (Action Line)
  before : List (Action Line)
  after : List (Action Line)
  failed : List (Action Line)

/-- Where `main` is, with what it has left to do there. -/
inductive MainPc (Line : Type*)
  | create
  | before (rest : List (Action Line))
  | after (rest : List (Action Line))
  | failed (rest : List (Action Line))

/-- The state of the two: where `main` is, what the thread has left to do if there is one, and the
lines printed. -/
structure State (Line : Type*) where
  mainPc : MainPc Line
  thread : Option (List (Action Line))
  log : List (Speaker × Line)

variable {Line : Type*}

/-- The state before the thread is created. -/
def State.initial : State Line := ⟨.create, none, []⟩

/-- The lines of a statement. -/
def Action.lines : Action Line → List Line
  | .printf line => [line]
  | .sleep => []

/-- The lines of some statements. -/
def lines (actions : List (Action Line)) : List Line := actions.flatMap Action.lines

/-- A statement is run by one of the two. -/
def say (log : List (Speaker × Line)) (speaker : Speaker) (action : Action Line) :
    List (Speaker × Line) :=
  log ++ action.lines.map fun line ↦ (speaker, line)

/-- A step of `main` or of the thread. `created` says whether the thread can be created. -/
def next (created : Bool) (program : Program Line) (state : State Line) :
    Speaker → Option (State Line)
  | .thread =>
    match state.thread with
    | none | some [] => none
    | some (action :: rest) => some { state with
        thread := some rest
        log := say state.log .thread action }
  | .main =>
    match state.mainPc with
    | .create =>
      if created then some { state with
        mainPc := .before program.before
        thread := some program.thread }
      else some { state with mainPc := .failed program.failed }
    | .before (action :: rest) => some { state with
        mainPc := .before rest
        log := say state.log .main action }
    | .before [] =>
      match state.thread with
      | some [] => some { state with mainPc := .after program.after }
      | _ => none
    | .after (action :: rest) => some { state with
        mainPc := .after rest
        log := say state.log .main action }
    | .failed (action :: rest) => some { state with
        mainPc := .failed rest
        log := say state.log .main action }
    | .after [] | .failed [] => none

/-- What a step can do. -/
inductive Step (created : Bool) (program : Program Line) (state : State Line) : State Line → Prop
  | thread {action : Action Line} {rest : List (Action Line)}
      (hthread : state.thread = some (action :: rest)) :
      Step created program state
        { state with thread := some rest, log := say state.log .thread action }
  | create (hpc : state.mainPc = .create) (hcreated : created = true) :
      Step created program state
        { state with mainPc := .before program.before, thread := some program.thread }
  | fail (hpc : state.mainPc = .create) (hcreated : created = false) :
      Step created program state { state with mainPc := .failed program.failed }
  | before {action : Action Line} {rest : List (Action Line)}
      (hpc : state.mainPc = .before (action :: rest)) :
      Step created program state
        { state with mainPc := .before rest, log := say state.log .main action }
  | join (hpc : state.mainPc = .before []) (hexited : state.thread = some []) :
      Step created program state { state with mainPc := .after program.after }
  | after {action : Action Line} {rest : List (Action Line)}
      (hpc : state.mainPc = .after (action :: rest)) :
      Step created program state
        { state with mainPc := .after rest, log := say state.log .main action }
  | failed {action : Action Line} {rest : List (Action Line)}
      (hpc : state.mainPc = .failed (action :: rest)) :
      Step created program state
        { state with mainPc := .failed rest, log := say state.log .main action }

theorem step_of_next {created : Bool} {program : Program Line} {state final : State Line}
    {speaker : Speaker} (hnext : next created program state speaker = some final) :
    Step created program state final := by
  cases speaker with
  | thread =>
    dsimp only [next] at hnext
    split at hnext
    · cases hnext
    · cases hnext
    · rename_i hthread
      cases hnext
      exact .thread hthread
  | main =>
    dsimp only [next] at hnext
    split at hnext
    · rename_i hpc
      split at hnext
      · rename_i hcreated
        cases hnext
        exact .create hpc hcreated
      · rename_i hcreated
        cases hnext
        exact .fail hpc (Bool.eq_false_iff.mpr hcreated)
    · rename_i hpc
      cases hnext
      exact .before hpc
    · rename_i hpc
      split at hnext
      · rename_i hexited
        cases hnext
        exact .join hpc hexited
      · cases hnext
    · rename_i hpc
      cases hnext
      exact .after hpc
    · rename_i hpc
      cases hnext
      exact .failed hpc
    · cases hnext
    · cases hnext

/-- The lines that one of the two has said. -/
def saidBy (speaker : Speaker) (log : List (Speaker × Line)) : List Line :=
  (log.filter fun entry ↦ entry.1 = speaker).map Prod.snd

theorem saidBy_append_self (log : List (Speaker × Line)) (speaker : Speaker) (said : List Line) :
    saidBy speaker (log ++ said.map fun line ↦ (speaker, line)) = saidBy speaker log ++ said := by
  have hall : (said.map fun line ↦ (speaker, line)).filter (fun entry ↦ entry.1 = speaker) =
      said.map fun line ↦ (speaker, line) := by
    simp
  rw [saidBy, List.filter_append, hall, List.map_append, List.map_map]
  exact congrArg (saidBy speaker log ++ ·) (List.map_id _)

theorem saidBy_append_of_ne {speaker other : Speaker} (hne : other ≠ speaker)
    (log : List (Speaker × Line)) (said : List Line) :
    saidBy speaker (log ++ said.map fun line ↦ (other, line)) = saidBy speaker log := by
  have hnone : (said.map fun line ↦ (other, line)).filter (fun entry ↦ entry.1 = speaker) = [] := by
    simp [hne]
  rw [saidBy, List.filter_append, hnone, List.append_nil, saidBy]

theorem main_ne_thread : Speaker.main ≠ .thread := by decide

/-- A statement adds its lines to those of the one who runs it. -/
theorem saidBy_say_self (log : List (Speaker × Line)) (speaker : Speaker) (action : Action Line) :
    saidBy speaker (say log speaker action) = saidBy speaker log ++ action.lines :=
  saidBy_append_self log speaker action.lines

theorem saidBy_say_of_ne {speaker other : Speaker} (hne : other ≠ speaker)
    (log : List (Speaker × Line)) (action : Action Line) :
    saidBy speaker (say log other action) = saidBy speaker log :=
  saidBy_append_of_ne hne log action.lines

/-! ### What is said when -/

/-- The log holds what the two have said, and after the thread is joined what `main` says comes
behind it. -/
def Invariant (program : Program Line) (state : State Line) : Prop :=
  match state.mainPc with
  | .create => state.thread = none ∧ state.log = []
  | .before rest => ∃ threadRest, state.thread = some threadRest ∧
      saidBy .main state.log ++ lines rest = lines program.before ∧
      saidBy .thread state.log ++ lines threadRest = lines program.thread
  | .after rest => state.thread = some [] ∧ ∃ merged said,
      state.log = merged ++ said.map (fun line ↦ (.main, line)) ∧
      saidBy .main merged = lines program.before ∧ saidBy .thread merged = lines program.thread ∧
      said ++ lines rest = lines program.after
  | .failed rest => state.thread = none ∧ ∃ said,
      state.log = said.map (fun line ↦ (.main, line)) ∧ said ++ lines rest = lines program.failed

variable {created : Bool} {program : Program Line} {state final : State Line}

theorem invariant_initial (program : Program Line) : Invariant program State.initial := ⟨rfl, rfl⟩

/-- A statement of the thread is run while `main` has not joined it. -/
theorem Invariant.thread_next (hinv : Invariant program state) {action : Action Line}
    {rest : List (Action Line)} (hthread : state.thread = some (action :: rest)) :
    Invariant program { state with thread := some rest, log := say state.log .thread action } := by
  unfold Invariant at hinv ⊢
  dsimp only
  split at hinv
  · cases hthread.symm.trans hinv.1
  · obtain ⟨threadRest, hrest, hmain, hsaid⟩ := hinv
    cases hthread.symm.trans hrest
    refine ⟨rest, rfl, ?_, ?_⟩
    · rw [saidBy_say_of_ne main_ne_thread.symm, hmain]
    · rw [saidBy_say_self, List.append_assoc, ← hsaid]
      rfl
  · cases hthread.symm.trans hinv.1
  · cases hthread.symm.trans hinv.1

/-- More lines of `main` at the end of the log. -/
theorem say_append (merged : List (Speaker × Line)) (said : List Line) (action : Action Line) :
    say (merged ++ said.map fun line ↦ (.main, line)) .main action =
      merged ++ (said ++ action.lines).map fun line ↦ (.main, line) := by
  rw [say, List.append_assoc, List.map_append]

theorem lines_cons (action : Action Line) (rest : List (Action Line)) :
    lines (action :: rest) = action.lines ++ lines rest := List.flatMap_cons

/-- A step keeps the invariant. -/
theorem invariant_next (created : Bool) (program : Program Line) (state : State Line)
    (speaker : Speaker) (final : State Line)
    (hnext : next created program state speaker = some final)
    (hinv : Invariant program state) : Invariant program final := by
  cases step_of_next hnext with
  | thread hthread => exact hinv.thread_next hthread
  | create hpc _ =>
    rw [Invariant, hpc] at hinv
    exact ⟨program.thread, rfl, by rw [hinv.2]; rfl, by rw [hinv.2]; rfl⟩
  | fail hpc _ =>
    rw [Invariant, hpc] at hinv
    exact ⟨hinv.1, [], hinv.2, rfl⟩
  | before hpc =>
    rw [Invariant, hpc] at hinv
    obtain ⟨threadRest, hthread, hmain, hsaid⟩ := hinv
    refine ⟨threadRest, hthread, ?_, ?_⟩
    · rw [saidBy_say_self, List.append_assoc, ← lines_cons, hmain]
    · rw [saidBy_say_of_ne main_ne_thread, hsaid]
  | join hpc hexited =>
    rw [Invariant, hpc] at hinv
    obtain ⟨threadRest, hthread, hmain, hsaid⟩ := hinv
    cases hthread.symm.trans hexited
    refine ⟨hthread, state.log, [], (List.append_nil _).symm, ?_, ?_, rfl⟩
    · rw [← hmain]
      exact (List.append_nil _).symm
    · rw [← hsaid]
      exact (List.append_nil _).symm
  | @after action rest hpc =>
    rw [Invariant, hpc] at hinv
    obtain ⟨hthread, merged, said, hlog, hmain, hsaid, hafter⟩ := hinv
    refine ⟨hthread, merged, said ++ action.lines, ?_, hmain, hsaid, ?_⟩
    · rw [← say_append, hlog]
    · rw [List.append_assoc, ← lines_cons, hafter]
  | @failed action rest hpc =>
    rw [Invariant, hpc] at hinv
    obtain ⟨hthread, said, hlog, hfailed⟩ := hinv
    refine ⟨hthread, said ++ action.lines, ?_, ?_⟩
    · have hsay := say_append [] said action
      rw [List.nil_append, List.nil_append] at hsay
      rw [← hsay, hlog]
    · rw [List.append_assoc, ← lines_cons, hfailed]

/-- `main` is done. -/
def MainPc.Returned : MainPc Line → Prop
  | .after [] | .failed [] => True
  | _ => False

/-- What has been said when `main` is done: what it says when there is no thread, or a merge of the
lines of the two and then what `main` says when it has joined the thread. -/
def SaidAll (created : Bool) (program : Program Line) (log : List (Speaker × Line)) : Prop :=
  if created then ∃ merged,
    log = merged ++ (lines program.after).map (fun line ↦ (.main, line)) ∧
      saidBy .main merged = lines program.before ∧ saidBy .thread merged = lines program.thread
  else log = (lines program.failed).map fun line ↦ (.main, line)

/-- Whether the thread could be created is seen by where `main` is. -/
def MainPc.Agrees (created : Bool) : MainPc Line → Prop
  | .create => True
  | .before _ | .after _ => created = true
  | .failed _ => created = false

theorem agrees_next (created : Bool) (program : Program Line) (state : State Line)
    (speaker : Speaker) (final : State Line)
    (hnext : next created program state speaker = some final)
    (hagrees : state.mainPc.Agrees created) : final.mainPc.Agrees created := by
  cases step_of_next hnext with
  | thread _ => exact hagrees
  | create _ hcreated | fail _ hcreated => exact hcreated
  | before hpc | join hpc _ | after hpc | failed hpc =>
    rw [hpc] at hagrees
    exact hagrees

/-- When `main` is done all has been said. -/
theorem Invariant.saidAll (hinv : Invariant program state) (hagrees : state.mainPc.Agrees created)
    (hreturned : state.mainPc.Returned) : SaidAll created program state.log := by
  unfold Invariant at hinv
  cases hpc : state.mainPc with
  | create | before _ =>
    rw [hpc] at hreturned
    exact hreturned.elim
  | after rest =>
    rw [hpc] at hinv hagrees hreturned
    obtain ⟨hthread, merged, said, hlog, hmain, hsaid, hafter⟩ := hinv
    obtain rfl : created = true := hagrees
    cases rest with
    | cons action rest => exact hreturned.elim
    | nil =>
      obtain rfl : said = lines program.after := (List.append_nil said).symm.trans hafter
      exact ⟨merged, hlog, hmain, hsaid⟩
  | failed rest =>
    rw [hpc] at hinv hagrees hreturned
    obtain ⟨hthread, said, hlog, hfailed⟩ := hinv
    obtain rfl : created = false := hagrees
    cases rest with
    | cons action rest => exact hreturned.elim
    | nil =>
      obtain rfl : said = lines program.failed := (List.append_nil said).symm.trans hfailed
      exact hlog

/-- Each of the two says its lines in their order. -/
theorem Invariant.prefix_of_created (hinv : Invariant program state)
    (hagrees : state.mainPc.Agrees true) :
    saidBy .main state.log <+: lines program.before ++ lines program.after ∧
      saidBy .thread state.log <+: lines program.thread := by
  unfold Invariant at hinv
  cases hpc : state.mainPc with
  | create =>
    rw [hpc] at hinv
    rw [hinv.2]
    exact ⟨List.nil_prefix, List.nil_prefix⟩
  | before rest =>
    rw [hpc] at hinv
    obtain ⟨threadRest, -, hmain, hsaid⟩ := hinv
    exact ⟨⟨lines rest ++ lines program.after, by rw [← List.append_assoc, hmain]⟩,
      ⟨lines threadRest, hsaid⟩⟩
  | after rest =>
    rw [hpc] at hinv
    obtain ⟨-, merged, said, hlog, hmain, hsaid, hafter⟩ := hinv
    rw [hlog, saidBy_append_self, saidBy_append_of_ne main_ne_thread, hmain, hsaid, ← hafter]
    exact ⟨⟨lines rest, List.append_assoc _ _ _⟩, List.prefix_rfl⟩
  | failed rest =>
    rw [hpc] at hagrees
    cases hagrees

/-! ### The end -/

/-- The steps of `main` that are left, and those of the thread if it is still to be created. -/
def MainPc.stepsLeft (program : Program Line) : MainPc Line → ℕ
  | .create => 1 + max (program.before.length + 1 + program.after.length + program.thread.length)
      program.failed.length
  | .before rest => rest.length + 1 + program.after.length
  | .after rest | .failed rest => rest.length

/-- The steps that are left, at most. -/
def State.stepsLeft (program : Program Line) (state : State Line) : ℕ :=
  state.mainPc.stepsLeft program + (state.thread.getD []).length

/-- A step leaves less to do. -/
theorem stepsLeft_next (hinv : Invariant program state) {speaker : Speaker}
    (hnext : next created program state speaker = some final) :
    final.stepsLeft program < state.stepsLeft program := by
  unfold State.stepsLeft
  cases step_of_next hnext with
  | thread hthread =>
    rw [hthread]
    exact Nat.lt_succ_self _
  | create hpc _ =>
    rw [Invariant, hpc] at hinv
    rw [hpc, hinv.1]
    dsimp only [MainPc.stepsLeft, Option.getD_some]
    omega
  | fail hpc _ | before hpc | join hpc _ | after hpc | failed hpc =>
    rw [hpc]
    dsimp only [MainPc.stepsLeft, List.length_cons]
    omega

/-- When nobody can go on `main` is done: it does not wait for a thread that has exited. -/
theorem Invariant.returned_of_stuck (hinv : Invariant program state)
    (hstuck : Stuck (next created program) state) : state.mainPc.Returned := by
  have hmain := hstuck .main
  unfold Invariant at hinv
  unfold next at hmain
  cases hpc : state.mainPc with
  | create =>
    rw [hpc] at hmain
    dsimp only at hmain
    split at hmain <;> cases hmain
  | before rest =>
    rw [hpc] at hinv hmain
    obtain ⟨threadRest, hthread, -, -⟩ := hinv
    cases rest with
    | cons action rest => cases hmain
    | nil =>
      have hturn := hstuck .thread
      unfold next at hturn
      rw [hthread] at hmain hturn
      cases threadRest with
      | nil => cases hmain
      | cons action threadRest => cases hturn
  | after rest | failed rest =>
    rw [hpc] at hmain
    cases rest with
    | nil => trivial
    | cons action rest => cases hmain

variable (created) (program)

/-- The invariant holds after every schedule. -/
theorem invariant_run (schedule : List Speaker) :
    Invariant program (run (attempt (next created program)) .initial schedule) :=
  interleaving_invariant (invariant_initial program) (invariant_next created program) schedule

theorem agrees_run (schedule : List Speaker) :
    (run (attempt (next created program)) State.initial schedule).mainPc.Agrees created := by
  let agrees (state : State Line) : Prop := state.mainPc.Agrees created
  have hstart : agrees State.initial := trivial
  exact interleaving_invariant hstart (agrees_next created program) schedule

/-- A schedule has no more steps than there are in the program. -/
theorem effectiveTurns_le (schedule : List Speaker) :
    effectiveTurns (next created program) State.initial schedule ≤
      State.initial.stepsLeft program := by
  have hpaid := effectiveTurns_add_measure_le (invariant_next created program)
    (fun _ _ _ hnext hinv ↦ stepsLeft_next hinv hnext) (invariant_initial program) schedule
  omega

/-- After as many rounds `main` is done. -/
theorem returned_of_rounds {rounds : List (List Speaker)} (hfair : FairRounds rounds)
    (hmany : State.initial.stepsLeft program ≤ rounds.length) :
    (run (attempt (next created program)) State.initial rounds.flatten).mainPc.Returned := by
  have hstuck := stuck_of_rounds (invariant_next created program)
    (fun _ _ _ hnext hinv ↦ stepsLeft_next hinv hnext) (invariant_initial program) hfair hmany
  exact (invariant_run created program rounds.flatten).returned_of_stuck hstuck

end KernelExperiments.Foundation.Joining
