import Mathlib.Data.List.Basic
import Mathlib.Data.List.Nodup

/-!
# Linked nodes in a memory

Nodes with a data field and a pointer to the next node, allocated one after the other. A field of a
new node has not been written: it is `none` until the first write. A pointer is an address or
`NULL`, and the address of a node is its place in the order of allocation. An access through a
pointer that is no node, and a read of a field that was not written, is a fault, and the memory
keeps a list of them (`Memory.faults`); what such a read returns is not meant to be used.

`Memory.Segment start path finish` says that following the next fields from the pointer `start`
leads over the nodes of `path`, in order, to the pointer `finish`. Segments compose
(`segment_append`), a change of other nodes keeps them and their data (`Memory.Segment.of_node_eq`,
`dataAlong_of_node_eq`), and a segment that ends in `NULL` goes over no node twice
(`Memory.Segment.nodup`): such a chain has no cycle.
-/

set_option autoImplicit false
set_option relaxedAutoImplicit false

namespace KernelExperiments.Foundation

variable {Data : Type*}

/-! ### Nodes -/

/-- A field of a node. -/
inductive Field
  | data
  | next
  deriving DecidableEq

/-- A node, with the fields that have been written. -/
structure Node (Data : Type*) where
  data : Option Data
  next : Option (Option ℕ)

/-- A node as it is allocated. -/
def Node.blank : Node Data := ⟨none, none⟩

/-- A faulty access. -/
structure Fault where
  pointer : Option ℕ
  field : Field
  deriving DecidableEq

/-- The nodes by address, and the faulty accesses so far. -/
structure Memory (Data : Type*) where
  nodes : List (Node Data)
  faults : List Fault

/-- The node that a pointer points to. -/
def Memory.node (memory : Memory Data) (pointer : Option ℕ) : Option (Node Data) :=
  pointer.bind fun address ↦ memory.nodes[address]?

/-- The data in the memory, by address. -/
def Memory.stored (memory : Memory Data) : List Data := memory.nodes.filterMap Node.data

/-- A new node. -/
def Memory.malloc (memory : Memory Data) : Memory Data × Option ℕ :=
  ({ memory with nodes := memory.nodes ++ [.blank] }, some memory.nodes.length)

/-- The memory after a faulty access. -/
def Memory.fault (memory : Memory Data) (pointer : Option ℕ) (field : Field) : Memory Data :=
  { memory with faults := memory.faults ++ [⟨pointer, field⟩] }

/-- A write to a field of the node that a pointer points to. -/
def Memory.write (memory : Memory Data) (pointer : Option ℕ) (field : Field)
    (change : Node Data → Node Data) : Memory Data :=
  match pointer with
  | none => memory.fault none field
  | some address =>
    if address < memory.nodes.length then
      { memory with nodes := memory.nodes.modify address change }
    else memory.fault pointer field

/-- `pointer->data = value`. -/
def Memory.writeData (memory : Memory Data) (pointer : Option ℕ) (value : Data) : Memory Data :=
  memory.write pointer .data fun node ↦ { node with data := some value }

/-- `pointer->next = value`. -/
def Memory.writeNext (memory : Memory Data) (pointer value : Option ℕ) : Memory Data :=
  memory.write pointer .next fun node ↦ { node with next := some value }

/-- `pointer->data`. -/
def Memory.readData [Inhabited Data] (memory : Memory Data) (pointer : Option ℕ) :
    Memory Data × Data :=
  match (memory.node pointer).bind Node.data with
  | some value => (memory, value)
  | none => (memory.fault pointer .data, default)

/-- `pointer->next`. -/
def Memory.readNext (memory : Memory Data) (pointer : Option ℕ) : Memory Data × Option ℕ :=
  match (memory.node pointer).bind Node.next with
  | some next => (memory, next)
  | none => (memory.fault pointer .next, none)

/-! ### Accesses without faults -/

/-- A node with others in front of it and behind it. -/
theorem node_at_length (before after : List (Node Data)) (node : Node Data) (faults : List Fault) :
    (⟨before ++ node :: after, faults⟩ : Memory Data).node (some before.length) = some node := by
  simp [Memory.node]

/-- The nodes in front do not depend on those behind them. -/
theorem node_of_lt {before after other : List (Node Data)} {faults otherFaults : List Fault}
    {address : ℕ} (hlt : address < before.length) :
    (⟨before ++ other, otherFaults⟩ : Memory Data).node (some address) =
      (⟨before ++ after, faults⟩ : Memory Data).node (some address) := by
  change (before ++ other)[address]? = (before ++ after)[address]?
  rw [List.getElem?_append_left hlt, List.getElem?_append_left hlt]

theorem readData_of_written [Inhabited Data] {memory : Memory Data} {pointer : Option ℕ}
    {value : Data} (hwritten : (memory.node pointer).bind Node.data = some value) :
    memory.readData pointer = (memory, value) := by
  rw [Memory.readData, hwritten]

theorem readNext_of_written {memory : Memory Data} {pointer next : Option ℕ}
    (hwritten : (memory.node pointer).bind Node.next = some next) :
    memory.readNext pointer = (memory, next) := by
  rw [Memory.readNext, hwritten]

/-- A write to a node with others in front of it and behind it. -/
theorem write_at_length (before after : List (Node Data)) (node : Node Data) (faults : List Fault)
    (field : Field) (change : Node Data → Node Data) :
    (⟨before ++ node :: after, faults⟩ : Memory Data).write (some before.length) field change =
      ⟨before ++ change node :: after, faults⟩ := by
  have hlt : before.length < (before ++ node :: after).length := by
    rw [List.length_append, List.length_cons]
    omega
  have hmodify : (before ++ node :: after).modify before.length change =
      before ++ change node :: after := by
    clear hlt
    induction before with
    | nil => rfl
    | cons first rest ih => exact congrArg (first :: ·) ih
  simp only [Memory.write, if_pos hlt, hmodify]

/-! ### Segments -/

/-- Following the next fields from `start` leads over the nodes of the path to `finish`. -/
def Memory.Segment (memory : Memory Data) : Option ℕ → List ℕ → Option ℕ → Prop
  | start, [], finish => start = finish
  | start, address :: rest, finish =>
    start = some address ∧ ∃ next, (memory.node start).bind Node.next = some next ∧
      memory.Segment next rest finish

/-- The data fields of the nodes of a path, in order. -/
def Memory.dataAlong (memory : Memory Data) (path : List ℕ) : List (Option Data) :=
  path.map fun address ↦ (memory.node (some address)).bind Node.data

theorem segment_append {memory : Memory Data} {start finish : Option ℕ} {first second : List ℕ} :
    memory.Segment start (first ++ second) finish ↔
      ∃ middle, memory.Segment start first middle ∧ memory.Segment middle second finish := by
  induction first generalizing start with
  | nil => exact ⟨fun hsecond ↦ ⟨start, rfl, hsecond⟩, fun ⟨_, hstart, hsecond⟩ ↦ hstart ▸ hsecond⟩
  | cons address rest ih =>
    constructor
    · rintro ⟨hstart, next, hnext, hrest⟩
      obtain ⟨middle, hfirst, hsecond⟩ := ih.mp hrest
      exact ⟨middle, ⟨hstart, next, hnext, hfirst⟩, hsecond⟩
    · rintro ⟨middle, ⟨hstart, next, hnext, hfirst⟩, hsecond⟩
      exact ⟨hstart, next, hnext, ih.mpr ⟨middle, hfirst, hsecond⟩⟩

/-- A segment over a node starts at one whose next field has been written. -/
theorem Memory.Segment.exists_start {memory : Memory Data} {start finish : Option ℕ}
    {path : List ℕ} {last : ℕ} (hsegment : memory.Segment start (path ++ [last]) finish) :
    ∃ address next, start = some address ∧ (memory.node start).bind Node.next = some next := by
  cases path with
  | nil => exact ⟨last, _, hsegment.1, hsegment.2.choose_spec.1⟩
  | cons address rest => exact ⟨address, _, hsegment.1, hsegment.2.choose_spec.1⟩

/-- A segment depends on the nodes of its path only. -/
theorem Memory.Segment.of_node_eq {memory other : Memory Data} {start finish : Option ℕ}
    {path : List ℕ} (hsegment : memory.Segment start path finish)
    (hnode : ∀ address ∈ path, other.node (some address) = memory.node (some address)) :
    other.Segment start path finish := by
  induction path generalizing start with
  | nil => exact hsegment
  | cons address rest ih =>
    obtain ⟨rfl, next, hnext, hrest⟩ := hsegment
    obtain ⟨hfirst, hothers⟩ := List.forall_mem_cons.mp hnode
    exact ⟨rfl, next, by rw [hfirst, hnext], ih hrest hothers⟩

theorem dataAlong_append (memory : Memory Data) (first second : List ℕ) :
    memory.dataAlong (first ++ second) = memory.dataAlong first ++ memory.dataAlong second :=
  List.map_append

theorem dataAlong_of_node_eq {memory other : Memory Data} {path : List ℕ}
    (hnode : ∀ address ∈ path, other.node (some address) = memory.node (some address)) :
    other.dataAlong path = memory.dataAlong path :=
  List.map_congr_left fun address haddress ↦ by rw [hnode address haddress]

/-- There is only one way to `NULL`. -/
theorem Memory.Segment.path_unique {memory : Memory Data} {start : Option ℕ} {path other : List ℕ}
    (hpath : memory.Segment start path none) (hother : memory.Segment start other none) :
    path = other := by
  induction path generalizing start other with
  | nil =>
    cases other with
    | nil => rfl
    | cons address rest => cases hpath.symm.trans hother.1
  | cons address rest ih =>
    obtain ⟨rfl, next, hnext, hrest⟩ := hpath
    cases other with
    | nil => cases hother
    | cons second others =>
      obtain ⟨hsame, otherNext, hotherNext, hothers⟩ := hother
      cases hsame
      cases hnext.symm.trans hotherNext
      rw [ih hrest hothers]

/-- A chain that ends in `NULL` goes over no node twice. -/
theorem Memory.Segment.nodup {memory : Memory Data} {start : Option ℕ} {path : List ℕ}
    (hpath : memory.Segment start path none) : path.Nodup := by
  induction path generalizing start with
  | nil => exact List.nodup_nil
  | cons address rest ih =>
    obtain ⟨rfl, next, hnext, hrest⟩ := hpath
    refine List.nodup_cons.mpr ⟨fun hagain ↦ ?_, ih hrest⟩
    -- the way from the second visit on would be as long as the whole one
    obtain ⟨before, after, rfl⟩ := List.append_of_mem hagain
    obtain ⟨middle, -, hloop⟩ := segment_append.mp hrest
    have hmiddle : middle = some address := hloop.1
    have hwhole : memory.Segment (some address) (address :: (before ++ address :: after)) none :=
      ⟨rfl, next, hnext, hrest⟩
    have hsame := hwhole.path_unique (hmiddle ▸ hloop)
    have hlength := congrArg List.length hsame
    simp only [List.length_cons, List.length_append] at hlength
    omega

end KernelExperiments.Foundation
