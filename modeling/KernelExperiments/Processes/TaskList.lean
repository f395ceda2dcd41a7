import KernelExperiments.Foundation.Interleaving
import KernelExperiments.Foundation.LinkedRing
import Mathlib.Data.List.Sort

/-!
# A walk over the task list while it changes

The module of `exp1_8.c` walks the list of the kernel's tasks and prints each of them. It holds a
spinlock meanwhile, "to prevent changes", but the lock is the module's own: no other code takes it,
and on the other processors tasks go on being forked and going away. What the walk meets is
therefore a list that changes under it. A fork puts the new task at the end of the list, an exit
takes a task out by joining its neighbours and leaves the links of the task itself, and the module
takes the three steps of `list_for_each` again and again: it follows a link, compares, prints.

The lines that are printed are in the order in which the tasks were created, and none is printed
twice; they are of tasks that were in the list when the walk began or have come since; every task
that is in the list all along is printed; and the total is the number of the lines. Nothing more is
sure: a task that has gone away may be printed after it has gone. Where no task comes or goes, the
lines are the list. The walk ends unless tasks keep coming: after a fork it has two more steps to
take at most (`walk_law`).

## Scope

A task is known by its place in the order of creation. It keeps its process number and its name
while the walk is on, and the memory of a task that has gone away is kept while interrupts are off.
The exchange of a task in the list for another thread of its own when that thread calls `exec` is
left out, and `count` does not overflow.
-/

set_option autoImplicit false
set_option relaxedAutoImplicit false

namespace KernelExperiments.Processes.TaskList

open Foundation

/-! ### The list and the module -/

/-- What the module reads of a task. -/
structure TaskStruct where
  pid : ℤ
  comm : String

/-- Where the module is in `task_info_init`. -/
inductive ModulePc
  | start
  | follow (node : Option ℕ)
  | compare (list : Option ℕ)
  | finished
  deriving DecidableEq

/-- The links of the list, with `&init_task.tasks` as their head, the tasks that are in it and the
number of tasks created so far; and the module with its lines and the tasks they are of. -/
structure State where
  ring : LinkedRing ℕ
  tasks : List ℕ
  created : ℕ
  pc : ModulePc
  count : ℕ
  log : List String
  printed : List ℕ

/-- Only `init_task` is there, and the module has not been loaded. -/
def State.boot : State := ⟨.empty, [], 0, .start, 0, [], []⟩

def startLine : String := "Start printing all process informations.\n"

def taskLine (task : TaskStruct) : String :=
  "PID: " ++ toString task.pid ++ ", Name: " ++ task.comm ++ "\n"

def totalLine (count : ℕ) : String :=
  "Print completed. Total processes: " ++ toString count ++ "\n"

/-- A step of `task_info_init`. -/
def taskInfoInit (task : ℕ → TaskStruct) (state : State) : Option State :=
  match state.pc with
  | .start => some { state with pc := .follow none, log := state.log ++ [startLine] }
  | .follow node => some { state with pc := .compare (state.ring.next node) }
  | .compare (some id) =>
    some { state with
      pc := .follow (some id)
      count := state.count + 1
      log := state.log ++ [taskLine (task id)]
      printed := state.printed ++ [id] }
  | .compare none =>
    some { state with pc := .finished, log := state.log ++ [totalLine state.count] }
  | .finished => none

/-- A new task at the end of the list. -/
def fork (state : State) : State :=
  { state with
    ring := state.ring.addTail state.created
    tasks := state.tasks ++ [state.created]
    created := state.created + 1 }

/-- A task goes away. -/
def exit (id : ℕ) (state : State) : Option State :=
  if id ∈ state.tasks then
    some { state with ring := state.ring.del id, tasks := state.tasks.erase id }
  else none

inductive Actor
  | module
  | fork
  | exit (id : ℕ)
  deriving DecidableEq

/-- The next step of an actor. -/
def next (task : ℕ → TaskStruct) (state : State) : Actor → Option State
  | .module => taskInfoInit task state
  | .fork => some (fork state)
  | .exit id => exit id state

/-! ### What the list keeps -/

/-- The links go over the tasks in the order of their creation, and no link, not even one of a task
that has gone away, leads back. -/
structure State.Ordered (state : State) : Prop where
  holds : state.ring.Holds state.tasks
  sorted : state.tasks.Pairwise (· < ·)
  tasks_lt : ∀ id ∈ state.tasks, id < state.created
  link_lt : ∀ node following, state.ring.next node = some following →
    following < state.created ∧ ∀ id ∈ node, id < following

theorem ordered_boot : State.boot.Ordered where
  holds := LinkedRing.holds_empty
  sorted := List.Pairwise.nil
  tasks_lt := nofun
  link_lt := nofun

variable {task : ℕ → TaskStruct} {state final : State} {id following : ℕ} {node : Option ℕ}

/-- An exit of a task that is in the list. -/
theorem exit_eq_some (hexit : exit id state = some final) :
    id ∈ state.tasks ∧
      final = { state with ring := state.ring.del id, tasks := state.tasks.erase id } := by
  unfold exit at hexit
  split at hexit
  · rename_i hmem
    exact ⟨hmem, (Option.some.inj hexit).symm⟩
  · cases hexit

/-- A fork leaves the links as they are, but for the one to the new task and the one from it. -/
theorem State.Ordered.next_fork (hordered : state.Ordered) (node : Option ℕ) :
    (fork state).ring.next node =
      if node = state.tasks.getLast? then some state.created
      else if node = some state.created then none else state.ring.next node := by
  have hprev := hordered.holds.prev_head
  unfold fork LinkedRing.addTail
  dsimp only
  rw [hprev, Function.update_apply, Function.update_apply]

/-- A link after a fork was there before, or it leads from the last task to the new one. -/
theorem State.Ordered.link_fork (hordered : state.Ordered)
    (hlink : (fork state).ring.next node = some following) :
    state.ring.next node = some following ∨
      node = state.tasks.getLast? ∧ following = state.created := by
  rw [hordered.next_fork] at hlink
  split at hlink
  · rename_i hlast
    exact Or.inr ⟨hlast, (Option.some.inj hlink).symm⟩
  · split at hlink
    · cases hlink
    · exact Or.inl hlink

/-- A link after an exit was there before, or it replaces two that led over the task. -/
theorem State.Ordered.link_exit (hordered : state.Ordered) (hexit : exit id state = some final)
    (node : Option ℕ) :
    final.ring.next node = state.ring.next node ∨
      state.ring.next node = some id ∧ final.ring.next node = state.ring.next (some id) := by
  obtain ⟨hmem, rfl⟩ := exit_eq_some hexit
  unfold LinkedRing.del
  dsimp only
  rw [Function.update_apply]
  split
  · rename_i hprev
    rw [hprev]
    exact Or.inr ⟨hordered.holds.next_prev hmem, rfl⟩
  · exact Or.inl rfl

theorem State.Ordered.fork (hordered : state.Ordered) : (fork state).Ordered where
  holds := hordered.holds.addTail fun hmem ↦ (hordered.tasks_lt _ hmem).false
  sorted := by
    refine List.pairwise_append.mpr ⟨hordered.sorted, List.pairwise_singleton _ _, ?_⟩
    intro earlier hearlier new hnew
    rw [List.mem_singleton.mp hnew]
    exact hordered.tasks_lt earlier hearlier
  tasks_lt := by
    intro id hid
    rcases List.mem_append.mp hid with hold | hnew
    · exact Nat.lt_succ_of_lt (hordered.tasks_lt id hold)
    · rw [List.mem_singleton.mp hnew]
      exact Nat.lt_succ_self _
  link_lt := by
    intro node following hlink
    rcases hordered.link_fork hlink with hold | ⟨rfl, rfl⟩
    · obtain ⟨hlt, hahead⟩ := hordered.link_lt node following hold
      exact ⟨Nat.lt_succ_of_lt hlt, hahead⟩
    · exact ⟨Nat.lt_succ_self _, fun id hid ↦ hordered.tasks_lt id (List.mem_of_getLast? hid)⟩

theorem State.Ordered.exit (hordered : state.Ordered) (hexit : exit id state = some final) :
    final.Ordered := by
  have hlinks := hordered.link_exit hexit
  obtain ⟨hmem, rfl⟩ := exit_eq_some hexit
  refine ⟨hordered.holds.del hmem, hordered.sorted.sublist List.erase_sublist,
    fun other hother ↦ hordered.tasks_lt other (List.mem_of_mem_erase hother), ?_⟩
  intro node following hlink
  rcases hlinks node with hold | ⟨hfirst, hsecond⟩
  · exact hordered.link_lt node following (hold.symm.trans hlink)
  · obtain ⟨hlt, hahead⟩ := hordered.link_lt (some id) following (hsecond.symm.trans hlink)
    have hbefore := (hordered.link_lt node id hfirst).2
    exact ⟨hlt, fun other hother ↦ (hbefore other hother).trans (hahead id rfl)⟩

/-- The module only reads the list. -/
theorem taskInfoInit_list (hstep : taskInfoInit task state = some final) :
    final.ring = state.ring ∧ final.tasks = state.tasks ∧ final.created = state.created := by
  unfold taskInfoInit at hstep
  split at hstep
  all_goals first
    | cases hstep; exact ⟨rfl, rfl, rfl⟩
    | cases hstep

theorem State.Ordered.of_list (hordered : state.Ordered) (hring : final.ring = state.ring)
    (htasks : final.tasks = state.tasks) (hcreated : final.created = state.created) :
    final.Ordered where
  holds := by rw [hring, htasks]; exact hordered.holds
  sorted := by rw [htasks]; exact hordered.sorted
  tasks_lt := by rw [htasks, hcreated]; exact hordered.tasks_lt
  link_lt := by rw [hring, hcreated]; exact hordered.link_lt

/-- Every step keeps the list in order. -/
theorem ordered_next (state : State) (actor : Actor) (final : State)
    (hnext : next task state actor = some final) (hordered : state.Ordered) : final.Ordered := by
  cases actor with
  | module =>
    obtain ⟨hring, htasks, hcreated⟩ := taskInfoInit_list hnext
    exact hordered.of_list hring htasks hcreated
  | fork =>
    cases hnext
    exact hordered.fork
  | exit id => exact hordered.exit hnext

/-! ### What is printed -/

/-- The task was in the list at first or has come since. -/
def State.Meets (initial : State) (id : ℕ) : Prop := id ∈ initial.tasks ∨ initial.created ≤ id

/-- The lines so far, when those of `printed` have been printed. -/
def ModulePc.log (task : ℕ → TaskStruct) (printed : List ℕ) : ModulePc → List String
  | .start => []
  | .follow _ | .compare _ => startLine :: printed.map fun id ↦ taskLine (task id)
  | .finished =>
    (startLine :: printed.map fun id ↦ taskLine (task id)) ++ [totalLine printed.length]

/-- Where the module stands: at the task it printed last, or in front of a later one. -/
def State.Stands (initial state : State) : Prop :=
  match state.pc with
  | .start => state.printed = []
  | .follow node => state.printed.getLast? = node
  | .compare list =>
    ∀ id ∈ list, initial.Meets id ∧ id < state.created ∧ ∀ earlier ∈ state.printed, earlier < id
  | .finished => True

/-- What holds while the module walks the list that was `initial` at first. -/
structure Walk (task : ℕ → TaskStruct) (initial state : State) : Prop where
  ordered : state.Ordered
  meets_link : ∀ node following, (∀ id ∈ node, initial.Meets id) →
    state.ring.next node = some following → initial.Meets following
  created_le : initial.created ≤ state.created
  printed_lt : ∀ id ∈ state.printed, initial.Meets id ∧ id < state.created
  increasing : state.printed.Pairwise (· < ·)
  count_eq : state.count = state.printed.length
  log_eq : state.log = state.pc.log task state.printed
  stands : initial.Stands state

variable {initial : State}

/-- At first every link of the head and of a task that is in the list leads to such a task. -/
theorem State.Ordered.meets_link (hordered : initial.Ordered)
    (hnode : ∀ id ∈ node, initial.Meets id) (hlink : initial.ring.next node = some following) :
    initial.Meets following := by
  refine Or.inl (hordered.holds.next_mem (fun id hid ↦ ?_) hlink)
  rcases hnode id hid with hmem | hnew
  · exact hmem
  · obtain ⟨hlt, hahead⟩ := hordered.link_lt node following hlink
    exact absurd (hahead id hid) (by omega)

/-- The walk begins. -/
theorem walk_start (hordered : initial.Ordered) (hpc : initial.pc = .start)
    (hprinted : initial.printed = []) (hcount : initial.count = 0) (hlog : initial.log = []) :
    Walk task initial initial where
  ordered := hordered
  meets_link := fun _ _ hnode hlink ↦ hordered.meets_link hnode hlink
  created_le := le_rfl
  printed_lt := by rw [hprinted]; exact nofun
  increasing := by rw [hprinted]; exact List.Pairwise.nil
  count_eq := by rw [hprinted, hcount]; rfl
  log_eq := by rw [hlog, hpc]; rfl
  stands := by unfold State.Stands; rw [hpc]; exact hprinted

theorem State.Stands.mono (hstands : initial.Stands state) (hpc : final.pc = state.pc)
    (hprinted : final.printed = state.printed) (hcreated : state.created ≤ final.created) :
    initial.Stands final := by
  unfold State.Stands at hstands ⊢
  rw [hpc, hprinted]
  split
  · rename_i hstart
    rwa [hstart] at hstands
  · rename_i hfollow
    rwa [hfollow] at hstands
  · rename_i hcompare
    rw [hcompare] at hstands
    intro id hid
    obtain ⟨hmeets, hlt, hlater⟩ := hstands id hid
    exact ⟨hmeets, hlt.trans_le hcreated, hlater⟩
  · trivial

/-- A task comes while the module walks. -/
theorem Walk.fork (hwalk : Walk task initial state) : Walk task initial (fork state) where
  ordered := hwalk.ordered.fork
  meets_link := by
    intro node following hnode hlink
    rcases hwalk.ordered.link_fork hlink with hold | ⟨-, rfl⟩
    · exact hwalk.meets_link node following hnode hold
    · exact Or.inr hwalk.created_le
  created_le := Nat.le_succ_of_le hwalk.created_le
  printed_lt := fun id hid ↦
    ⟨(hwalk.printed_lt id hid).1, Nat.lt_succ_of_lt (hwalk.printed_lt id hid).2⟩
  increasing := hwalk.increasing
  count_eq := hwalk.count_eq
  log_eq := hwalk.log_eq
  stands := hwalk.stands.mono rfl rfl (Nat.le_succ _)

/-- A task goes away while the module walks. -/
theorem Walk.exit (hwalk : Walk task initial state) (hexit : exit id state = some final) :
    Walk task initial final := by
  have hordered := hwalk.ordered.exit hexit
  have hlinks := hwalk.ordered.link_exit hexit
  obtain ⟨-, rfl⟩ := exit_eq_some hexit
  refine ⟨hordered, ?_, hwalk.created_le, hwalk.printed_lt, hwalk.increasing, hwalk.count_eq,
    hwalk.log_eq, hwalk.stands.mono rfl rfl le_rfl⟩
  intro node following hnode hlink
  rcases hlinks node with hold | ⟨hfirst, hsecond⟩
  · exact hwalk.meets_link node following hnode (hold.symm.trans hlink)
  · have hmiddle := hwalk.meets_link node id hnode hfirst
    refine hwalk.meets_link (some id) following ?_ (hsecond.symm.trans hlink)
    rintro other ⟨⟩
    exact hmiddle

/-- What comes behind the last of an increasing list comes behind all of it. -/
theorem lt_of_getLast? {printed : List ℕ} (hincreasing : printed.Pairwise (· < ·))
    (hlast : printed.getLast? = node) (hahead : ∀ id ∈ node, id < following) :
    ∀ earlier ∈ printed, earlier < following := by
  intro earlier hearlier
  rcases List.eq_nil_or_concat printed with rfl | ⟨before, last, rfl⟩
  · exact absurd hearlier List.not_mem_nil
  · rw [List.concat_eq_append] at hincreasing hlast hearlier
    rw [List.getLast?_concat] at hlast
    have hlt := hahead last hlast.symm
    rcases List.mem_append.mp hearlier with hbefore | hself
    · have hle := (List.pairwise_append.mp hincreasing).2.2 earlier hbefore last
        (List.mem_singleton.mpr rfl)
      exact hle.trans hlt
    · rwa [List.mem_singleton.mp hself]

/-- The module follows a link. -/
theorem Walk.follow (hwalk : Walk task initial state) (hlast : state.printed.getLast? = node)
    (hlink : state.ring.next node = some following) :
    initial.Meets following ∧ following < state.created ∧
      ∀ earlier ∈ state.printed, earlier < following := by
  obtain ⟨hlt, hahead⟩ := hwalk.ordered.link_lt node following hlink
  refine ⟨hwalk.meets_link node following (fun id hid ↦ ?_) hlink, hlt,
    lt_of_getLast? hwalk.increasing hlast hahead⟩
  exact (hwalk.printed_lt id (List.mem_of_getLast? (hlast.trans hid))).1

/-- The module prints the task it stands in front of. -/
theorem Walk.print (hwalk : Walk task initial state) (hpc : state.pc = .compare (some id)) :
    Walk task initial { state with
      pc := .follow (some id)
      count := state.count + 1
      log := state.log ++ [taskLine (task id)]
      printed := state.printed ++ [id] } := by
  have hstands := hwalk.stands
  have hlog := hwalk.log_eq
  unfold State.Stands at hstands
  rw [hpc] at hstands hlog
  obtain ⟨hmeets, hlt, hlater⟩ := hstands id rfl
  refine ⟨hwalk.ordered.of_list rfl rfl rfl, hwalk.meets_link, hwalk.created_le, ?_, ?_, ?_, ?_, ?_⟩
  · intro other hother
    rcases List.mem_append.mp hother with hold | hnew
    · exact hwalk.printed_lt other hold
    · rw [List.mem_singleton.mp hnew]
      exact ⟨hmeets, hlt⟩
  · refine List.pairwise_append.mpr ⟨hwalk.increasing, List.pairwise_singleton _ _, ?_⟩
    intro earlier hearlier new hnew
    rw [List.mem_singleton.mp hnew]
    exact hlater earlier hearlier
  · rw [List.length_append, List.length_singleton, hwalk.count_eq]
  · dsimp only
    rw [hlog, ModulePc.log, ModulePc.log, List.map_append, List.cons_append, List.map_singleton]
  · exact List.getLast?_concat

/-- A step of the module. -/
theorem Walk.module (hwalk : Walk task initial state)
    (hstep : taskInfoInit task state = some final) : Walk task initial final := by
  obtain ⟨hring, htasks, hcreated⟩ := taskInfoInit_list hstep
  have hordered := hwalk.ordered.of_list hring htasks hcreated
  have hstands := hwalk.stands
  have hlog := hwalk.log_eq
  have hcount := hwalk.count_eq
  unfold State.Stands at hstands
  unfold taskInfoInit at hstep
  cases hpc : state.pc with
  | start =>
    rw [hpc] at hstep hstands hlog
    cases hstep
    refine ⟨hordered, hwalk.meets_link, hwalk.created_le, hwalk.printed_lt, hwalk.increasing,
      hcount, ?_, ?_⟩
    · dsimp only at hstands ⊢
      rw [hlog, hstands]
      rfl
    · exact List.getLast?_eq_none_iff.mpr hstands
  | follow node =>
    rw [hpc] at hstep hstands hlog
    cases hstep
    exact ⟨hordered, hwalk.meets_link, hwalk.created_le, hwalk.printed_lt, hwalk.increasing, hcount,
      hlog, fun following hlink ↦ hwalk.follow hstands hlink⟩
  | compare list =>
    cases list with
    | some id =>
      rw [hpc] at hstep
      cases hstep
      exact hwalk.print hpc
    | none =>
      rw [hpc] at hstep hlog
      cases hstep
      refine ⟨hordered, hwalk.meets_link, hwalk.created_le, hwalk.printed_lt, hwalk.increasing,
        hcount, ?_, trivial⟩
      dsimp only
      rw [hlog, hcount]
      rfl
  | finished =>
    rw [hpc] at hstep
    cases hstep

theorem walk_next (state : State) (actor : Actor) (final : State)
    (hnext : next task state actor = some final) (hwalk : Walk task initial state) :
    Walk task initial final := by
  cases actor with
  | module => exact hwalk.module hnext
  | fork =>
    cases hnext
    exact hwalk.fork
  | exit id => exact hwalk.exit hnext

/-! ### What is not missed -/

/-- The walk has not gone past a task that stays in the list: the links in front of it lead to it
or to one in front of it, and so does the way from where the module stands. -/
structure Ahead (initial : State) (id : ℕ) (state : State) : Prop where
  mem : id ∈ state.tasks
  link : ∀ node, (∀ earlier ∈ node, initial.Meets earlier ∧ earlier < id) →
    ∃ following ≤ id, state.ring.next node = some following
  stands : id ∈ state.printed ∨
    match state.pc with
    | .start => True
    | .follow node => ∀ earlier ∈ node, earlier < id
    | .compare list => ∃ following ≤ id, list = some following
    | .finished => False

/-- The first of an increasing list is in front of all of it. -/
theorem exists_head_le {tasks : List ℕ} (hsorted : tasks.Pairwise (· < ·)) (hmem : id ∈ tasks) :
    ∃ first ≤ id, tasks.head? = some first := by
  cases tasks with
  | nil => exact absurd hmem List.not_mem_nil
  | cons first rest =>
    refine ⟨first, ?_, rfl⟩
    rcases List.mem_cons.mp hmem with rfl | hrest
    · exact le_rfl
    · exact (List.rel_of_pairwise_cons hsorted hrest).le

/-- At first every task is ahead. -/
theorem ahead_start (hordered : initial.Ordered) (hpc : initial.pc = .start)
    (hmem : id ∈ initial.tasks) : Ahead initial id initial := by
  refine ⟨hmem, fun node hnode ↦ ?_, Or.inr (by rw [hpc]; trivial)⟩
  cases node with
  | none =>
    rw [hordered.holds.next_head]
    exact exists_head_le hordered.sorted hmem
  | some earlier =>
    obtain ⟨hmeets, hlt⟩ := hnode earlier rfl
    have hearlier : earlier ∈ initial.tasks := by
      rcases hmeets with hold | hnew
      · exact hold
      · have hcreated := hordered.tasks_lt id hmem
        omega
    obtain ⟨before, after, htasks⟩ := List.append_of_mem hearlier
    have hsorted := hordered.sorted
    have hholds := hordered.holds
    rw [htasks] at hsorted hholds hmem
    obtain ⟨-, hrest, hcross⟩ := List.pairwise_append.mp hsorted
    rw [hholds.next_entry]
    refine exists_head_le (List.pairwise_cons.mp hrest).2 ?_
    rcases List.mem_append.mp hmem with hbefore | hself
    · have hback := hcross id hbefore earlier List.mem_cons_self
      omega
    · rcases List.mem_cons.mp hself with rfl | hafter
      · exact absurd hlt (Nat.lt_irrefl _)
      · exact hafter

/-- A new task comes behind all that are in the list. -/
theorem Ahead.fork (hahead : Ahead initial id state) (hordered : state.Ordered) :
    Ahead initial id (fork state) := by
  refine ⟨List.mem_append_left _ hahead.mem, fun node hnode ↦ ?_, hahead.stands⟩
  have hlast : node ≠ state.tasks.getLast? := by
    intro hsame
    have hbehind := lt_of_getLast? hordered.sorted hsame.symm fun earlier hearlier ↦
      (hnode earlier hearlier).2
    exact (hbehind id hahead.mem).false
  have hnew : node ≠ some state.created := by
    rintro rfl
    have hlt := (hnode _ rfl).2
    have hcreated := hordered.tasks_lt id hahead.mem
    omega
  rw [hordered.next_fork, if_neg hlast, if_neg hnew]
  exact hahead.link node hnode

/-- Another task goes away. -/
theorem Ahead.exit {other : ℕ} (hahead : Ahead initial id state)
    (hwalk : Walk task initial state) (hne : other ≠ id) (hexit : exit other state = some final) :
    Ahead initial id final := by
  have hlinks := hwalk.ordered.link_exit hexit
  obtain ⟨-, rfl⟩ := exit_eq_some hexit
  refine ⟨(List.mem_erase_of_ne hne.symm).mpr hahead.mem, fun node hnode ↦ ?_, hahead.stands⟩
  obtain ⟨following, hle, hlink⟩ := hahead.link node hnode
  rcases hlinks node with hold | ⟨hfirst, hsecond⟩
  · exact ⟨following, hle, hold.trans hlink⟩
  · have hmeets := hwalk.meets_link node other (fun earlier hearlier ↦ (hnode earlier hearlier).1)
      hfirst
    have hsame : following = other := Option.some.inj (hlink.symm.trans hfirst)
    rw [hsecond]
    refine hahead.link (some other) ?_
    rintro earlier ⟨⟩
    exact ⟨hmeets, by omega⟩

/-- A step of the module does not go past the task. -/
theorem Ahead.module (hahead : Ahead initial id state) (hwalk : Walk task initial state)
    (hstep : taskInfoInit task state = some final) : Ahead initial id final := by
  obtain ⟨hring, htasks, -⟩ := taskInfoInit_list hstep
  refine ⟨htasks ▸ hahead.mem, by rw [hring]; exact hahead.link, ?_⟩
  have hstands := hahead.stands
  have hplace := hwalk.stands
  unfold State.Stands at hplace
  unfold taskInfoInit at hstep
  cases hpc : state.pc with
  | start =>
    rw [hpc] at hstep
    cases hstep
    exact Or.inr nofun
  | follow node =>
    rw [hpc] at hstep hstands hplace
    cases hstep
    refine hstands.imp_right fun hbefore ↦ ?_
    have hmeets : ∀ earlier ∈ node, initial.Meets earlier :=
      fun earlier hearlier ↦ (hwalk.printed_lt _ (List.mem_of_getLast? (hplace.trans hearlier))).1
    exact hahead.link node fun earlier hearlier ↦ ⟨hmeets earlier hearlier, hbefore _ hearlier⟩
  | compare list =>
    rw [hpc] at hstep hstands
    rcases hstands with hprinted | ⟨following, hle, rfl⟩
    · cases list with
      | some other =>
        cases hstep
        exact Or.inl (List.mem_append_left _ hprinted)
      | none =>
        cases hstep
        exact Or.inl hprinted
    · cases hstep
      rcases hle.eq_or_lt with rfl | hlt
      · exact Or.inl (List.mem_append_right _ List.mem_cons_self)
      · refine Or.inr ?_
        rintro earlier ⟨⟩
        exact hlt
  | finished =>
    rw [hpc] at hstep
    cases hstep

/-! ### The end of the walk -/

/-- The turns the module has had. -/
def State.turns (state : State) : ℕ :=
  match state.pc with
  | .start => 0
  | .follow _ => 1 + 2 * state.printed.length
  | .compare _ => 2 + 2 * state.printed.length
  | .finished => 3 + 2 * state.printed.length

theorem turns_taskInfoInit (hwalk : Walk task initial state)
    (hstep : taskInfoInit task state = some final) : final.turns = state.turns + 1 := by
  have hstands := hwalk.stands
  unfold State.Stands at hstands
  unfold taskInfoInit at hstep
  unfold State.turns
  cases hpc : state.pc with
  | start =>
    rw [hpc] at hstep hstands
    cases hstep
    dsimp only at hstands ⊢
    rw [hstands]
    rfl
  | follow node =>
    rw [hpc] at hstep
    cases hstep
    dsimp only
    omega
  | compare list =>
    rw [hpc] at hstep
    cases list with
    | some other =>
      cases hstep
      dsimp only
      rw [List.length_append, List.length_singleton]
      omega
    | none =>
      cases hstep
      dsimp only
      omega
  | finished =>
    rw [hpc] at hstep
    cases hstep

/-- The module stops at its end only. -/
theorem taskInfoInit_eq_none_iff : taskInfoInit task state = none ↔ state.pc = .finished := by
  unfold taskInfoInit
  cases state.pc with
  | start | follow => exact iff_of_false nofun nofun
  | compare list => cases list <;> exact iff_of_false nofun nofun
  | finished => exact iff_of_true rfl rfl

/-- What the other actors do leaves the module where it is. -/
theorem module_attempt {actor : Actor} (hne : actor ≠ .module) :
    (attempt (next task) state actor).pc = state.pc ∧
      (attempt (next task) state actor).count = state.count ∧
      (attempt (next task) state actor).log = state.log ∧
      (attempt (next task) state actor).printed = state.printed := by
  cases actor with
  | module => exact absurd rfl hne
  | fork => exact ⟨rfl, rfl, rfl, rfl⟩
  | exit id =>
    cases hnext : next task state (.exit id) with
    | none =>
      rw [attempt_of_none hnext]
      exact ⟨rfl, rfl, rfl, rfl⟩
    | some final =>
      obtain ⟨-, rfl⟩ := exit_eq_some hnext
      rw [attempt_of_some hnext]
      exact ⟨rfl, rfl, rfl, rfl⟩

/-- A module that has come to its end stays there. -/
theorem finished_attempt (state : State) (actor : Actor) (hpc : state.pc = .finished) :
    (attempt (next task) state actor).pc = .finished := by
  by_cases hmodule : actor = .module
  · have hnone : next task state actor = none := by
      rw [hmodule]
      exact taskInfoInit_eq_none_iff.mpr hpc
    rwa [attempt_of_none hnone]
  · rw [(module_attempt hmodule).1, hpc]

/-- While the walk is on, the module has had as many turns as it was given. -/
theorem turns_run (during : List Actor) (hwalk : Walk task initial state)
    (hpc : (run (attempt (next task)) state during).pc ≠ .finished) :
    (run (attempt (next task)) state during).turns = state.turns + during.count .module := by
  induction during generalizing state with
  | nil => rfl
  | cons actor rest ih =>
    have hgoes : state.pc ≠ .finished := fun hfinished ↦
      hpc (run_invariant finished_attempt hfinished (actor :: rest))
    rw [run_cons] at hpc ⊢
    rw [ih (attempt_invariant walk_next state actor hwalk) hpc]
    by_cases hmodule : actor = .module
    · rw [hmodule, List.count_cons_self]
      cases hnext : next task state .module with
      | some final =>
        rw [attempt_of_some hnext, turns_taskInfoInit hwalk hnext]
        omega
      | none => exact absurd (taskInfoInit_eq_none_iff.mp hnext) hgoes
    · obtain ⟨hsame, -, -, hprinted⟩ := @module_attempt task state actor hmodule
      rw [List.count_cons_of_ne hmodule]
      unfold State.turns
      rw [hsame, hprinted]

/-- Each fork creates one task. -/
theorem created_run (task : ℕ → TaskStruct) (state : State) (during : List Actor) :
    (run (attempt (next task)) state during).created = state.created + during.count .fork := by
  induction during generalizing state with
  | nil => rfl
  | cons actor rest ih =>
    rw [run_cons, ih]
    have hsame : ∀ other, other ≠ Actor.fork →
        (attempt (next task) state other).created = state.created := by
      intro other hother
      cases hnext : next task state other with
      | none => rw [attempt_of_none hnext]
      | some final =>
        rw [attempt_of_some hnext]
        cases other with
        | module => exact (taskInfoInit_list hnext).2.2
        | fork => exact absurd rfl hother
        | exit id =>
          obtain ⟨-, rfl⟩ := exit_eq_some hnext
          rfl
    by_cases hfork : actor = .fork
    · rw [hfork, List.count_cons_self]
      change state.created + 1 + _ = _
      omega
    · rw [List.count_cons_of_ne hfork, hsame actor hfork]

/-- No more tasks are printed than were there and have come. -/
theorem Walk.length_printed_le (hwalk : Walk task initial state) :
    state.printed.length ≤ initial.tasks.length + (state.created - initial.created) := by
  have hsubset : state.printed ⊆
      initial.tasks ++ List.range' initial.created (state.created - initial.created) := by
    intro id hid
    obtain ⟨hmeets, hlt⟩ := hwalk.printed_lt id hid
    rcases hmeets with hold | hnew
    · exact List.mem_append_left _ hold
    · refine List.mem_append_right _ (List.mem_range'_1.mpr ⟨hnew, ?_⟩)
      omega
  have hnodup : state.printed.Nodup := hwalk.increasing.imp Nat.ne_of_lt
  have hlength := (List.subperm_of_subset hnodup hsubset).length_le
  rwa [List.length_append, List.length_range'] at hlength

/-! ### The walk as a whole -/

/-- The module has not been loaded. -/
def State.Unloaded (state : State) : Prop :=
  state.pc = .start ∧ state.count = 0 ∧ state.log = [] ∧ state.printed = []

/-- When the module is loaded the list is in order, and nothing has been printed. -/
theorem walk_boot (task : ℕ → TaskStruct) {before : List Actor} (hbefore : Actor.module ∉ before) :
    let initial := run (attempt (next task)) .boot before
    initial.pc = .start ∧ Walk task initial initial := by
  have hordered := interleaving_invariant ordered_boot (@ordered_next task) before
  have hothers : ∀ actor ∈ before, actor ≠ .module :=
    fun actor hactor hsame ↦ hbefore (hsame ▸ hactor)
  have hstep : ∀ state actor, State.Unloaded state → actor ≠ .module →
      State.Unloaded (attempt (next task) state actor) := by
    intro state actor hstate hne
    obtain ⟨hpc, hcount, hlog, hprinted⟩ := @module_attempt task state actor hne
    unfold State.Unloaded
    rwa [hpc, hcount, hlog, hprinted]
  obtain ⟨hpc, hcount, hlog, hprinted⟩ :=
    run_induction hstep ⟨rfl, rfl, rfl, rfl⟩ (along_of_mem (attempt (next task)) hothers .boot)
  exact ⟨hpc, walk_start hordered hpc hprinted hcount hlog⟩

/-- A task that does not go away is not gone past. -/
theorem ahead_run {during : List Actor} (hwalk : Walk task initial state)
    (hahead : Ahead initial id state) (hstays : Actor.exit id ∉ during) :
    Ahead initial id (run (attempt (next task)) state during) := by
  have hothers : ∀ actor ∈ during, actor ≠ .exit id :=
    fun actor hactor hsame ↦ hstays (hsame ▸ hactor)
  have hstep : ∀ state actor, Walk task initial state ∧ Ahead initial id state →
      actor ≠ .exit id → Walk task initial (attempt (next task) state actor) ∧
        Ahead initial id (attempt (next task) state actor) := by
    rintro state actor ⟨hwalk, hahead⟩ hne
    refine ⟨attempt_invariant walk_next state actor hwalk, ?_⟩
    cases hnext : next task state actor with
    | none => rwa [attempt_of_none hnext]
    | some final =>
      rw [attempt_of_some hnext]
      cases actor with
      | module => exact hahead.module hwalk hnext
      | fork =>
        cases hnext
        exact hahead.fork hwalk.ordered
      | exit other =>
        exact hahead.exit hwalk (fun hsame ↦ hne (hsame ▸ rfl)) hnext
  exact (run_induction hstep ⟨hwalk, hahead⟩ (along_of_mem _ hothers state)).2

/-- What the lines of a walk are, when the list was `initial` at first and `during` is what happened
meanwhile. -/
structure WalkLaw (task : ℕ → TaskStruct) (initial final : State) (during : List Actor) : Prop where
  increasing : final.printed.Pairwise (· < ·)
  meets : ∀ id ∈ final.printed, initial.Meets id ∧ id < final.created
  all : final.pc = .finished → ∀ id ∈ initial.tasks, .exit id ∉ during → id ∈ final.printed
  log_eq : final.pc = .finished → final.log =
    (startLine :: final.printed.map fun id ↦ taskLine (task id)) ++
      [totalLine final.printed.length]
  quiet : final.pc = .finished → (∀ actor ∈ during, actor = .module) →
    final.printed = initial.tasks
  ends : 2 * (initial.tasks.length + during.count .fork) + 3 ≤ during.count .module →
    final.pc = .finished

/-- A walk in which nothing else happens prints the list. -/
theorem Walk.printed_eq {final : State} (hwalk : Walk task initial final)
    (hcreated : final.created = initial.created)
    (hall : ∀ id ∈ initial.tasks, id ∈ final.printed) (hsorted : initial.tasks.Pairwise (· < ·)) :
    final.printed = initial.tasks := by
  refine hwalk.increasing.eq_of_mem_iff hsorted fun id ↦ ⟨fun hid ↦ ?_, hall id⟩
  obtain ⟨hmeets, hlt⟩ := hwalk.printed_lt id hid
  rcases hmeets with hmem | hnew
  · exact hmem
  · omega

/-- Whatever tasks came and went before the module was loaded, and whatever comes and goes while it
walks the list: the lines are in the order of creation and of tasks that were there or have come,
no task that stays is missed, the total is right, and the walk ends unless tasks keep coming. -/
theorem walk_law (task : ℕ → TaskStruct) {before : List Actor} (hbefore : Actor.module ∉ before)
    (during : List Actor) :
    let initial := run (attempt (next task)) .boot before
    WalkLaw task initial (run (attempt (next task)) initial during) during := by
  intro initial
  obtain ⟨hpc, hstart⟩ := walk_boot task hbefore
  have hwalk : Walk task initial (run (attempt (next task)) initial during) :=
    interleaving_invariant hstart walk_next during
  have hcreated := created_run task initial during
  have hall : (run (attempt (next task)) initial during).pc = .finished →
      ∀ id ∈ initial.tasks, Actor.exit id ∉ during →
        id ∈ (run (attempt (next task)) initial during).printed := by
    intro hfinished id hmem hstays
    have hahead := ahead_run hstart (ahead_start hstart.ordered hpc hmem) hstays
    have hstands := hahead.stands
    rw [hfinished] at hstands
    exact hstands.resolve_right not_false
  refine ⟨hwalk.increasing, hwalk.printed_lt, hall, fun hfinished ↦ ?_, fun hfinished hquiet ↦ ?_,
    fun hmany ↦ ?_⟩
  · have hlog := hwalk.log_eq
    rwa [hfinished] at hlog
  · have hnone : during.count .fork = 0 :=
      List.count_eq_zero.mpr fun hfork ↦ nomatch hquiet _ hfork
    refine hwalk.printed_eq (by omega) (fun id hmem ↦ hall hfinished id hmem ?_)
      hstart.ordered.sorted
    exact fun hexit ↦ nomatch hquiet _ hexit
  · by_contra hgoes
    have hturns := @turns_run task initial initial during hstart hgoes
    have hlength := hwalk.length_printed_le
    have hbound : (run (attempt (next task)) initial during).turns ≤
        2 + 2 * (run (attempt (next task)) initial during).printed.length := by
      unfold State.turns
      split <;> first | omega | exact absurd ‹_› hgoes
    omega

/-- Of the tasks 0, 1 and 2 the second goes away before the walk, and the first when it has been
printed; the new task 3 comes in time. The lines are of 0, 2 and 3, which were never in the list
together. -/
theorem walk_meanwhile :
    let task : ℕ → TaskStruct := fun id ↦ ⟨id + 1, "task"⟩
    let initial := run (attempt (next task)) .boot [.fork, .fork, .fork, .exit 1]
    let during : List Actor := List.replicate 3 .module ++ [.exit 0, .fork] ++
      List.replicate 13 .module
    let final := run (attempt (next task)) initial during
    WalkLaw task initial final during ∧ final.pc = .finished ∧ final.printed = [0, 2, 3] ∧
      initial.tasks = [0, 2] ∧ final.tasks = [2, 3] := by
  refine ⟨walk_law _ (by decide) _, ?_, ?_, ?_, ?_⟩
  · rfl
  · rfl
  · rfl
  · rfl

end KernelExperiments.Processes.TaskList
