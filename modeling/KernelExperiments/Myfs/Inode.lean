import Mathlib.Data.Int.Notation
import Mathlib.Data.Nat.Notation

/-!
# Inodes and credentials

The kernel objects that `myfs_kernel.c` passes between its functions: the inode with the fields that
the file system sets or hands on, and the credentials of the calling process. A mode is an `int` of
32 bits in the functions of the file system, and the 16 bits of a `umode_t` in the inode.
-/

set_option autoImplicit false
set_option relaxedAutoImplicit false

namespace KernelExperiments.Myfs

/-! ### Modes and error codes -/

/-- `S_IFMT`. -/
def sIfmt : BitVec 32 := 0o170000

/-- `S_IFREG`. -/
def sIfreg : BitVec 32 := 0o100000

/-- `S_IFDIR`. -/
def sIfdir : BitVec 32 := 0o040000

/-- `S_IRWXU`. -/
def sIrwxu : BitVec 32 := 0o700

/-- `S_IRUGO`. -/
def sIrugo : BitVec 32 := 0o444

/-- `S_IWUSR`. -/
def sIwusr : BitVec 32 := 0o200

/-- `-EPERM`. -/
def eperm : ℤ := -1

/-- `-EIO`. -/
def eio : ℤ := -5

/-- `-ENOMEM`. -/
def enomem : ℤ := -12

/-- `-EACCES`. -/
def eacces : ℤ := -13

/-- `-EFAULT`. -/
def efault : ℤ := -14

/-! ### The objects -/

/-- `struct timespec64`. -/
structure Timespec where
  tvSec : ℤ
  tvNsec : ℤ
  deriving DecidableEq

/-- The credentials of a process: `current_uid`, `current_fsuid`, `current_fsgid` and its groups. -/
structure Cred where
  uid : BitVec 32
  fsuid : BitVec 32
  fsgid : BitVec 32
  groups : List (BitVec 32)

/-- `i_op`. -/
inductive InodeOperations
  | unset
  | simpleDirInodeOperations
  deriving DecidableEq

/-- `i_fop`: not set, the kernel's for directories or for special files, or a table that a caller
handed in, by its address. -/
inductive FileOperations
  | unset
  | simpleDirOperations
  | special
  | table (address : ℕ)
  deriving DecidableEq

/-- `struct inode`. -/
structure Inode where
  iMode : BitVec 16
  iUid : BitVec 32
  iGid : BitVec 32
  iSize : ℕ
  iBlocks : ℕ
  iAtime : Timespec
  iMtime : Timespec
  iCtime : Timespec
  iOp : InodeOperations
  iFop : FileOperations
  iPrivate : ℕ
  iNlink : ℕ
  deriving DecidableEq

end KernelExperiments.Myfs
