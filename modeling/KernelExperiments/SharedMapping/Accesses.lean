import KernelExperiments.Foundation.WriteLog
import KernelExperiments.SharedMapping.PageIdentity
import KernelExperiments.SharedMapping.Protection

/-!
# Loads and stores through the mapping

A process that has mapped the device reads and writes the area by plain loads and stores. On the
first access to a page the kernel asks `map_fault` for a kernel page and enters it in the page table
of the process; later accesses go to the entry. A store to a private mapping first gives the process
a copy of the page. `Processes` is the state of all this, and `accessStep` and `accessResult` say
what an event does and what a load or a store gives to its process.

`SharedObject` is what the mapping is for: an array of bytes behind all mappings, and the private
pages that processes have written to. It knows nothing of page tables and of the fault handler; the
byte behind an address is the one that `mmap` promises, at `VmArea.deviceOffset`.

## Scope

A load is allowed where the vma has any of `VM_READ`, `VM_WRITE` and `VM_EXEC`, a store where it has
`VM_WRITE`. There is memory for copies and page tables. Copies of an address space by `fork` are
left out.
-/

set_option autoImplicit false
set_option relaxedAutoImplicit false

namespace KernelExperiments.SharedMapping

open Foundation

variable {w : ℕ} {Page Byte : Type*}

/-! ### Pages and places of a vma -/

/-- The number of the user page of an address. -/
def pageNumber (address : BitVec w) : ℕ := address.toNat / 4096

/-- The position of an address in its page. -/
def pagePosition (address : BitVec w) : Fin 4096 :=
  ⟨address.toNat % 4096, Nat.mod_lt _ (by decide)⟩

/-- The vma holds the user page of a number. -/
def VmArea.HoldsPage (vma : VmArea w) (number : ℕ) : Prop :=
  vma.vmStart.toNat ≤ 4096 * number ∧ 4096 * number < vma.vmEnd.toNat

/-- The page of the device behind a user page of the vma. -/
def VmArea.devicePage (vma : VmArea w) (number : ℕ) : ℕ :=
  vma.vmPgoff.toNat + (number - vma.vmStart.toNat / 4096)

/-- The byte of the device behind an address of the vma. -/
def VmArea.deviceOffset (vma : VmArea w) (address : BitVec w) : ℕ :=
  4096 * vma.vmPgoff.toNat + (address.toNat - vma.vmStart.toNat)

instance decidableContains (vma : VmArea w) (address : BitVec w) :
    Decidable (vma.Contains address) :=
  inferInstanceAs (Decidable (_ ∧ _))

/-- The vma of an address, among those of a process. -/
def findVma (vmas : List (VmArea w)) (address : BitVec w) : Option (VmArea w) :=
  vmas.find? fun vma ↦ decide (vma.Contains address)

/-- `VM_READ`, `VM_WRITE` and `VM_EXEC`. -/
def vmAccess (w : ℕ) : BitVec w := BitVec.ofNat w 0x7

/-- The call takes a user page away from its process. -/
def MapOp.Removes (number : ℕ) : MapOp w → Prop
  | .munmap start finish =>
    ValidRange start finish ∧ start.toNat ≤ 4096 * number ∧ 4096 * number < finish.toNat
  | .mprotect _ _ _ => False

instance decidableRemoves (number : ℕ) : (op : MapOp w) → Decidable (op.Removes number)
  | .munmap _ _ => inferInstanceAs (Decidable (_ ∧ _ ∧ _))
  | .mprotect _ _ _ => inferInstanceAs (Decidable False)

/-! ### The processes and their page tables -/

/-- What a user page is mapped to: a page of the kernel, or a page of the process alone. -/
inductive PageEntry (Page Byte : Type*)
  | kernel (page : Page)
  | copy (bytes : Fin 4096 → Byte)

/-- The vmas over the device and the page table of each process, and the contents of the kernel's
pages. -/
structure Processes (w : ℕ) (Page Byte : Type*) where
  vmas : DeviceVmas w
  entries : ℕ → ℕ → Option (PageEntry Page Byte)
  memory : Page → Fin 4096 → Byte

/-- A process maps the device or cuts its mappings, loads a byte, or stores one. -/
inductive ProcessEvent (w : ℕ) (Byte : Type*)
  | device (event : DeviceEvent w)
  | load (process : ℕ) (address : BitVec w)
  | store (process : ℕ) (address : BitVec w) (value : Byte)

/-- What an access gives to its process: a byte, nothing, or a signal. -/
inductive AccessResult (Byte : Type*)
  | loaded (value : Byte)
  | done
  | sigsegv
  | sigbus
  deriving DecidableEq

/-- A table of what processes have at their pages, after one page of one process has changed. -/
def setEntry {Entry : Type*} (entries : ℕ → ℕ → Option Entry) (process number : ℕ)
    (entry : Entry) : ℕ → ℕ → Option Entry :=
  Function.update entries process (Function.update (entries process) number (some entry))

/-- A table of what processes have at their pages, after a call of one process. -/
def cutEntries {Entry : Type*} (entries : ℕ → ℕ → Option Entry) :
    DeviceEvent w → ℕ → ℕ → Option Entry
  | .mmap _ => entries
  | .call process op => Function.update entries process fun number ↦
      if op.Removes number then none else entries process number

/-- The contents of a mapped page. -/
def PageEntry.bytes (memory : Page → Fin 4096 → Byte) : PageEntry Page Byte → Fin 4096 → Byte
  | .kernel page => memory page
  | .copy bytes => bytes

/-- The page of the process alone, if the entry is one. -/
def PageEntry.copy? : PageEntry Page Byte → Option (Fin 4096 → Byte)
  | .kernel _ => none
  | .copy bytes => some bytes

/-- The entry for an address: the one in the page table, or else what `map_fault` installs. -/
def Processes.entryFor (area : VmallocArea w Page) (state : Processes w Page Byte) (process : ℕ)
    (vma : VmArea w) (address : BitVec w) : Option (PageEntry Page Byte) :=
  match state.entries process (pageNumber address) with
  | some entry => some entry
  | none => (area.installed vma address).map .kernel

/-- A load. -/
def Processes.load (area : VmallocArea w Page) (state : Processes w Page Byte) (process : ℕ)
    (address : BitVec w) : Processes w Page Byte × AccessResult Byte :=
  match findVma (state.vmas process) address with
  | none => (state, .sigsegv)
  | some vma =>
    if vma.Has (vmAccess w) then
      match state.entryFor area process vma address with
      | none => (state, .sigbus)
      | some entry =>
        ({ state with entries := setEntry state.entries process (pageNumber address) entry },
          .loaded (entry.bytes state.memory (pagePosition address)))
    else (state, .sigsegv)

/-- A store. In a shared vma it goes to the page of the entry, in a private one to a copy. -/
def Processes.store [DecidableEq Page] (area : VmallocArea w Page) (state : Processes w Page Byte)
    (process : ℕ) (address : BitVec w) (value : Byte) :
    Processes w Page Byte × AccessResult Byte :=
  match findVma (state.vmas process) address with
  | none => (state, .sigsegv)
  | some vma =>
    if vma.Has (vmWrite w) then
      match state.entryFor area process vma address with
      | none => (state, .sigbus)
      | some entry =>
        let written := Function.update (entry.bytes state.memory) (pagePosition address) value
        match entry with
        | .kernel page =>
          if vma.Has (vmShared w) then
            ({ state with
                entries := setEntry state.entries process (pageNumber address) (.kernel page)
                memory := Function.update state.memory page written }, .done)
          else
            ({ state with
                entries := setEntry state.entries process (pageNumber address) (.copy written) },
              .done)
        | .copy _ =>
          ({ state with
              entries := setEntry state.entries process (pageNumber address) (.copy written) },
            .done)
    else (state, .sigsegv)

/-- An event: the state it leads to, and what it gives to its process. -/
def Processes.event [DecidableEq Page] (area : VmallocArea w Page)
    (state : Processes w Page Byte) :
    ProcessEvent w Byte → Processes w Page Byte × AccessResult Byte
  | .device event =>
    ({ state with
        vmas := deviceStep state.vmas event
        entries := cutEntries state.entries event }, .done)
  | .load process address => state.load area process address
  | .store process address value => state.store area process address value

/-- The state after an event. -/
def accessStep [DecidableEq Page] (area : VmallocArea w Page) (state : Processes w Page Byte)
    (event : ProcessEvent w Byte) : Processes w Page Byte := (state.event area event).1

/-- What an event gives to its process. -/
def accessResult [DecidableEq Page] (area : VmallocArea w Page) (state : Processes w Page Byte)
    (event : ProcessEvent w Byte) : AccessResult Byte := (state.event area event).2

/-! ### The object behind the mappings -/

/-- The bytes of the device, and the pages that processes have for themselves. -/
structure SharedObject (w : ℕ) (Byte : Type*) where
  vmas : DeviceVmas w
  bytes : ℕ → Byte
  copies : ℕ → ℕ → Option (Fin 4096 → Byte)

/-- The page of a process at an address: its own, or the one of the device. -/
def SharedObject.pageBytes (object : SharedObject w Byte) (process : ℕ) (vma : VmArea w)
    (address : BitVec w) : Fin 4096 → Byte :=
  (object.copies process (pageNumber address)).getD
    (blocks 4096 object.bytes (vma.devicePage (pageNumber address)))

/-- An event of the object: a load reads the page of the process, a store to a shared vma writes one
byte of the device, and a store to a private vma one of the process's own page. -/
def SharedObject.event (object : SharedObject w Byte) :
    ProcessEvent w Byte → SharedObject w Byte × AccessResult Byte
  | .device event =>
    ({ object with
        vmas := deviceStep object.vmas event
        copies := cutEntries object.copies event }, .done)
  | .load process address =>
    match findVma (object.vmas process) address with
    | none => (object, .sigsegv)
    | some vma =>
      if vma.Has (vmAccess w) then
        (object, .loaded (object.pageBytes process vma address (pagePosition address)))
      else (object, .sigsegv)
  | .store process address value =>
    match findVma (object.vmas process) address with
    | none => (object, .sigsegv)
    | some vma =>
      if vma.Has (vmWrite w) then
        if vma.Has (vmShared w) then
          ({ object with
              bytes := applyWrite object.bytes ⟨vma.deviceOffset address, 1, fun _ ↦ value⟩ },
            .done)
        else
          ({ object with
              copies := setEntry object.copies process (pageNumber address)
                (Function.update (object.pageBytes process vma address) (pagePosition address)
                  value) }, .done)
      else (object, .sigsegv)

/-- The object after an event. -/
def objectStep (object : SharedObject w Byte) (event : ProcessEvent w Byte) :
    SharedObject w Byte := (object.event event).1

/-- What an event gives to its process. -/
def objectResult (object : SharedObject w Byte) (event : ProcessEvent w Byte) :
    AccessResult Byte := (object.event event).2

end KernelExperiments.SharedMapping
