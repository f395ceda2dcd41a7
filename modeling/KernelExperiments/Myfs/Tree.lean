import KernelExperiments.Foundation.Runs
import KernelExperiments.Myfs.Inode
import Mathlib.Data.Option.Basic

/-!
# Creating files and directories in myfs

`myfs_kernel.c`: `myfs_creat_file` and `myfs_creat_dir`, which the module itself calls to fill its
file system, and the functions below them down to `myfs_get_inode`.

The dentries of the file system are a list, and the address of a dentry is its place in it. A dentry
is never taken out of the list, for it is never without a reference. A dentry without an inode is
negative: the name has been looked up, and nothing is there. No inode has two dentries, so a dentry
holds its inode. The kernel functions follow their documentation: `lookup_one_len` returns the
dentry of a name, or a new negative one, with a reference taken for the caller, or an error;
`new_inode` gives an inode of link count one or none; `simple_fill_super` leaves an empty root of
link count two.

## Scope

The lock on the directory is left out, for one call runs at a time, and so is the device number,
which is zero in every call. An inode of another type than a file or a directory gets the operations
of its type from `init_special_inode`.
-/

set_option autoImplicit false
set_option relaxedAutoImplicit false

namespace KernelExperiments.Myfs

/-! ### Dentries -/

/-- `struct dentry`: its name, its directory, its inode if it is not negative, and its reference
count. -/
structure Dentry where
  name : String
  parent : Option ℕ
  inode : Option Inode
  count : ℤ
  deriving DecidableEq

/-- The dentries of the file system, and the root of the mount in `myfs_mount`, if there is one. -/
structure Tree where
  dcache : List Dentry
  myfsMount : Option ℕ

/-- A pointer that is an error: its code is negative. -/
structure ErrPtr where
  code : ℤ
  code_neg : code < 0

/-- What the kernel supplies to a creation: the error of `lookup_one_len`, if it fails, whether
`new_inode` succeeds, the credentials of the process and the time. -/
structure KernelCalls where
  lookupError : Option ErrPtr
  newInode : Bool
  cred : Cred
  now : Timespec

/-- The tree with the dentry at an address changed. -/
def Tree.modify (tree : Tree) (dentry : ℕ) (change : Dentry → Dentry) : Tree :=
  { tree with dcache := tree.dcache.modify dentry change }

/-- `dentry->d_inode`. -/
def Tree.dInode (tree : Tree) (dentry : ℕ) : Option Inode :=
  (tree.dcache[dentry]?).bind Dentry.inode

/-- `d_instantiate`. -/
def Tree.dInstantiate (tree : Tree) (dentry : ℕ) (inode : Inode) : Tree :=
  tree.modify dentry fun entry ↦ { entry with inode := some inode }

/-- `dget`. -/
def Tree.dget (tree : Tree) (dentry : ℕ) : Tree :=
  tree.modify dentry fun entry ↦ { entry with count := entry.count + 1 }

/-- A change of the inode of a dentry. -/
def Tree.modifyInode (tree : Tree) (dentry : ℕ) (change : Inode → Inode) : Tree :=
  tree.modify dentry fun entry ↦ { entry with inode := entry.inode.map change }

/-- `inc_nlink`. -/
def incNlink (inode : Inode) : Inode := { inode with iNlink := inode.iNlink + 1 }

/-- The address of the dentry of a name in a directory. -/
def Tree.find (tree : Tree) (parent : ℕ) (name : String) : Option ℕ :=
  tree.dcache.findIdx? fun entry ↦ entry.parent = some parent ∧ entry.name = name

/-- `lookup_one_len`, when it does not fail: the dentry of the name or a new negative one, with a
reference for the caller. -/
def Tree.lookupOneLen (tree : Tree) (name : String) (parent : ℕ) : Tree × ℕ :=
  match tree.find parent name with
  | some dentry => (tree.dget dentry, dentry)
  | none =>
    ({ tree with dcache := tree.dcache ++ [⟨name, some parent, none, 1⟩] }, tree.dcache.length)

/-! ### Inodes -/

/-- `new_inode`: an inode of link count one. -/
def newInode : Inode where
  iMode := 0
  iUid := 0
  iGid := 0
  iSize := 0
  iBlocks := 0
  iAtime := ⟨0, 0⟩
  iMtime := ⟨0, 0⟩
  iCtime := ⟨0, 0⟩
  iOp := .unset
  iFop := .unset
  iPrivate := 0
  iNlink := 1

/-- `init_special_inode`: character and block devices, pipes and sockets get the operations of their
type. -/
def initSpecialInode (inode : Inode) (mode : BitVec 32) : Inode :=
  let type := mode &&& sIfmt
  if type = 0o020000 ∨ type = 0o060000 ∨ type = 0o010000 ∨ type = 0o140000 then
    { inode with iMode := mode.setWidth 16, iFop := .special }
  else { inode with iMode := mode.setWidth 16 }

/-- `VMACACHE_SIZE`. -/
def vmacacheSize : ℕ := 4096

/-- `myfs_get_inode`. -/
def myfsGetInode (kernel : KernelCalls) (mode : BitVec 32) : Option Inode :=
  if kernel.newInode then
    let inode := { newInode with
      iMode := mode.setWidth 16
      iUid := kernel.cred.fsuid
      iGid := kernel.cred.fsgid
      iSize := vmacacheSize
      iBlocks := 0
      iAtime := kernel.now
      iMtime := kernel.now
      iCtime := kernel.now }
    if mode &&& sIfmt = sIfreg then some inode
    else if mode &&& sIfmt = sIfdir then
      some (incNlink { inode with iOp := .simpleDirInodeOperations, iFop := .simpleDirOperations })
    else some (initSpecialInode inode mode)
  else none

/-! ### Creating -/

/-- `myfs_mknod`. -/
def myfsMknod (tree : Tree) (dentry : ℕ) (mode : BitVec 32) (kernel : KernelCalls) : Tree × ℤ :=
  if tree.dInode dentry ≠ none then (tree, eperm)
  else
    match myfsGetInode kernel mode with
    | none => (tree, eperm)
    | some inode => ((tree.dInstantiate dentry inode).dget dentry, 0)

/-- `myfs_mkdir`. -/
def myfsMkdir (tree : Tree) (dir dentry : ℕ) (mode : BitVec 32) (kernel : KernelCalls) : Tree × ℤ :=
  let (tree, res) := myfsMknod tree dentry (mode ||| sIfdir) kernel
  if res = 0 then (tree.modifyInode dir incNlink, res) else (tree, res)

/-- `myfs_creat`. -/
def myfsCreat (tree : Tree) (dentry : ℕ) (mode : BitVec 32) (kernel : KernelCalls) : Tree × ℤ :=
  myfsMknod tree dentry (mode ||| sIfreg) kernel

/-- What `myfs_creat_by_name` returns and leaves: the dentry is the one it stores through its last
argument, when that is neither `NULL` nor an error. -/
structure CreatResult where
  tree : Tree
  error : ℤ
  dentry : Option ℕ

/-- `myfs_creat_by_name`. -/
def myfsCreatByName (tree : Tree) (name : String) (mode : BitVec 32) (parent : Option ℕ)
    (kernel : KernelCalls) : CreatResult :=
  match parent.or tree.myfsMount with
  | none => ⟨tree, efault, none⟩
  | some parent =>
    match kernel.lookupError with
    | some pointer => ⟨tree, pointer.code, none⟩
    | none =>
      let (tree, dentry) := tree.lookupOneLen name parent
      let (tree, error) :=
        if mode &&& sIfmt = sIfdir then myfsMkdir tree parent dentry mode kernel
        else myfsCreat tree dentry mode kernel
      ⟨tree, error, some dentry⟩

/-- The operations and the private data that `myfs_creat_file` gives to the inode, each if it is not
`NULL`. -/
def setFile (data : ℕ) (fops : Option ℕ) (inode : Inode) : Inode :=
  let inode := if data ≠ 0 then { inode with iPrivate := data } else inode
  match fops with
  | none => inode
  | some address => { inode with iFop := .table address }

/-- `myfs_creat_file`. -/
def myfsCreatFile (tree : Tree) (name : String) (mode : BitVec 32) (parent : Option ℕ) (data : ℕ)
    (fops : Option ℕ) (kernel : KernelCalls) : Tree × Option ℕ :=
  let result := myfsCreatByName tree name mode parent kernel
  if result.error ≠ 0 then (result.tree, none)
  else
    match result.dentry with
    | none => (result.tree, none)
    | some dentry => (result.tree.modifyInode dentry (setFile data fops), some dentry)

/-- `myfs_creat_dir`. -/
def myfsCreatDir (tree : Tree) (name : String) (parent : Option ℕ) (kernel : KernelCalls) :
    Tree × Option ℕ :=
  myfsCreatFile tree name (sIfdir ||| sIrwxu ||| sIrugo) parent 0 none kernel

/-! ### Runs of creations -/

/-- The inode of the root as `simple_fill_super` makes it. -/
def rootInode (now : Timespec) : Inode :=
  { newInode with
    iMode := 0o040755
    iSize := vmacacheSize
    iAtime := now
    iMtime := now
    iCtime := now
    iOp := .simpleDirInodeOperations
    iFop := .simpleDirOperations
    iNlink := 2 }

/-- The file system as it is mounted: an empty root. -/
def Tree.mounted (now : Timespec) : Tree where
  dcache := [⟨"/", none, some (rootInode now), 1⟩]
  myfsMount := some 0

/-- A call of `myfs_creat_file` or `myfs_creat_dir`. -/
inductive Creation
  | file (name : String) (mode : BitVec 32) (parent : Option ℕ) (data : ℕ) (fops : Option ℕ)
    (kernel : KernelCalls)
  | dir (name : String) (parent : Option ℕ) (kernel : KernelCalls)

/-- What the call leaves and returns. -/
def Creation.result (tree : Tree) : Creation → Tree × Option ℕ
  | .file name mode parent data fops kernel => myfsCreatFile tree name mode parent data fops kernel
  | .dir name parent kernel => myfsCreatDir tree name parent kernel

/-- The tree after a call. -/
def treeStep (tree : Tree) (creation : Creation) : Tree := (creation.result tree).1

end KernelExperiments.Myfs
