import KernelExperiments.Foundation.RingFifo
import KernelExperiments.Foundation.UserCopy
import KernelExperiments.Myfs.Inode

/-!
# The file operations of myfs

`myfs_kernel.c`: `myfs_file_open`, `myfs_file_read`, `myfs_file_write` and `myfs_file_release`,
which every regular file of the file system has. Opening allocates a record for the open file and
checks the permission; reading and writing go to `mydemo_fifo`, one kfifo of 64 bytes that belongs
to the module; closing frees the record.

The kfifo follows its documentation. `kfifo_from_user` and `kfifo_to_user` move as many bytes as
there is room for or as there are; when the user copy faults on the way they return `-EFAULT`, and
the bytes in front of the fault have been put in or taken out.

## Scope

`inode_permission` is a parameter. `kmalloc` gives an address and memory of any content, or nothing.
The log messages are left out, and with them the position of the file, which only they read.
-/

set_option autoImplicit false
set_option relaxedAutoImplicit false

namespace KernelExperiments.Myfs

open Foundation

/-! ### Opening and closing -/

/-- `struct myfs_file_info`. -/
structure MyfsFileInfo where
  openTime : Timespec
  openCount : BitVec 32
  deriving DecidableEq

/-- The live `myfs_file_info` records by address. -/
abbrev Heap := ℕ → Option MyfsFileInfo

/-- `struct file`: its `private_data`, an address or `NULL`. -/
structure File where
  privateData : Option ℕ
  deriving DecidableEq

/-- What the kernel supplies to a call of `myfs_file_open`: the credentials of the caller, the
memory that `kmalloc` returns, and the time. -/
structure OpenCall where
  cred : Cred
  kmalloc : Option (ℕ × MyfsFileInfo)
  now : Timespec

/-- What a call of `myfs_file_open` leaves. -/
structure OpenResult where
  ret : ℤ
  file : File
  heap : Heap

/-- The operator `!` of C. -/
def cNot (value : ℤ) : ℤ := if value = 0 then 1 else 0

/-- `MAY_READ|MAY_WRITE`. -/
def mayReadWrite : BitVec 32 := 4 ||| 2

/-- `myfs_file_open`. The condition of the permission check is
`!inode_permission(..) && !current_uid().val == 0`, and `!` binds tighter than `==`. -/
def myfsFileOpen (inodePermission : Cred → Inode → BitVec 32 → ℤ) (inode : Inode) (file : File)
    (heap : Heap) (call : OpenCall) : OpenResult :=
  match call.kmalloc with
  | none => ⟨enomem, file, heap⟩
  | some (address, memory) =>
    let info := { memory with openTime := call.now }
    let info := { info with openCount := info.openCount + 1 }
    let heap := Function.update heap address (some info)
    let file := { file with privateData := some address }
    if cNot (inodePermission call.cred inode mayReadWrite) ≠ 0 ∧
        cNot call.cred.uid.toNat = 0 then
      ⟨eacces, file, heap⟩
    else ⟨0, file, heap⟩

/-- `myfs_file_release`: the heap without the record, or nothing when the file has no live record
for it to read. -/
def myfsFileRelease (file : File) (heap : Heap) : Option Heap :=
  file.privateData.bind fun address ↦
    (heap address).map fun _ ↦ Function.update heap address none

/-! ### Reading and writing -/

/-- The number of slots of `mydemo_fifo` is not zero. -/
instance neZeroKfifoSize : NeZero 64 := ⟨by decide⟩

/-- `mydemo_fifo`. -/
abbrev Kfifo := Fifo UInt8 64

/-- What `kfifo_from_user` and `kfifo_to_user` leave: the return value, the number of bytes moved,
the bytes in the user buffer of a read, and the queue. -/
structure KfifoResult where
  ret : ℤ
  copied : ℕ
  buffer : List UInt8
  fifo : Kfifo

/-- `kfifo_from_user`, from a user buffer with the bytes `data`. -/
def kfifoFromUser (fifo : Kfifo) (data : List UInt8) (fault : Option ℕ) : KfifoResult :=
  let length := min data.length fifo.room
  let moved := copied length fault
  ⟨if Faults length fault then efault else 0, moved, [], fifo.enqueue (data.take moved)⟩

/-- `kfifo_to_user`. -/
def kfifoToUser (fifo : Kfifo) (count : ℕ) (fault : Option ℕ) : KfifoResult :=
  let length := min count fifo.used
  let moved := copied length fault
  ⟨if Faults length fault then efault else 0, moved, fifo.front moved, fifo.dequeue moved⟩

/-- What a call of `myfs_file_read` or `myfs_file_write` leaves: the return value, the bytes in the
user buffer of a read, and the queue. -/
structure TransferResult where
  ret : ℤ
  buffer : List UInt8
  fifo : Kfifo

/-- `myfs_file_write`. -/
def myfsFileWrite (mydemoFifo : Kfifo) (data : List UInt8) (fault : Option ℕ) : TransferResult :=
  let result := kfifoFromUser mydemoFifo data fault
  if result.ret ≠ 0 then ⟨eio, [], result.fifo⟩ else ⟨result.copied, [], result.fifo⟩

/-- `myfs_file_read`. -/
def myfsFileRead (mydemoFifo : Kfifo) (count : ℕ) (fault : Option ℕ) : TransferResult :=
  let result := kfifoToUser mydemoFifo count fault
  if result.ret ≠ 0 then ⟨eio, result.buffer, result.fifo⟩
  else ⟨result.copied, result.buffer, result.fifo⟩

/-- A write whose user copy does not fault returns the number of bytes that there was room for. -/
theorem myfsFileWrite_none (fifo : Kfifo) (data : List UInt8) :
    myfsFileWrite fifo data none =
      ⟨(min data.length fifo.room : ℕ), [],
        fifo.enqueue (data.take (min data.length fifo.room))⟩ := by
  have hfault : ¬ Faults (min data.length fifo.room) none := Nat.lt_irrefl _
  have hret : ¬ (kfifoFromUser fifo data none).ret ≠ 0 := not_not.mpr (if_neg hfault)
  exact if_neg hret

/-- A read whose user copy does not fault returns the bytes that were there. -/
theorem myfsFileRead_none (fifo : Kfifo) (count : ℕ) :
    myfsFileRead fifo count none =
      ⟨(min count fifo.used : ℕ), fifo.front (min count fifo.used),
        fifo.dequeue (min count fifo.used)⟩ := by
  have hfault : ¬ Faults (min count fifo.used) none := Nat.lt_irrefl _
  have hret : ¬ (kfifoToUser fifo count none).ret ≠ 0 := not_not.mpr (if_neg hfault)
  exact if_neg hret

end KernelExperiments.Myfs
