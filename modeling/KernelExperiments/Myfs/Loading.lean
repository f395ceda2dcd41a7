import KernelExperiments.Foundation.ModuleLifecycle
import KernelExperiments.Myfs.Tree

/-!
# Loading and unloading myfs

`myfs_kernel.c`: `myfs_init` registers the file system, mounts it and creates its directories and
files; `myfs_exit` releases the mount and unregisters. `MountLaw` is what the two owe: `myfs_init`
returns zero only with the file system registered and mounted, and an error only with neither;
`myfs_exit` finds a valid mount, drops its reference once, and leaves the file system unregistered,
`myfs_mount` at `NULL` and `myfs_mount_count` at zero.

When `kern_mount` fails, `myfs_init` returns the zero that `register_filesystem` returned, so the
module stays loaded with an error pointer for a mount. And `myfs_exit` hands a count of zero to
`simple_release_fs`, which counts down before it tests for zero: the count ends at minus one and the
pointer is kept (`myfsExit_of_live`). So the law holds in exactly the runs in which no mount fails
after the registration and the module is never unloaded (`mountLaw_iff`).

## Scope

The kernel functions follow their documentation. `register_filesystem` also fails when the file
system is registered already, and `mntput` of a pointer that is not a mount changes nothing of the
state here.
-/

set_option autoImplicit false
set_option relaxedAutoImplicit false

namespace KernelExperiments.Myfs

open Foundation

/-! ### The kernel and the static variables -/

/-- What the kernel holds of the file system: whether it is registered, and the references to its
mounts. -/
structure FsKernel where
  registered : Bool
  mountRefs : ℤ

/-- `myfs_mount`: `NULL`, an error, or a mount of the file system. -/
inductive MountPtr
  | null
  | error (pointer : ErrPtr)
  | mount

/-- The static variables, and the dentries of the file system. -/
structure FsStatics where
  myfsMount : MountPtr
  myfsMountCount : ℤ
  tree : Tree

/-- What decides the kernel calls of `myfs_init`: the return value of `register_filesystem`, the
error of `kern_mount`, if it fails, and the kernel calls of each creation. -/
structure FsCalls where
  registerFilesystem : ℤ
  kernMount : Option ErrPtr
  now : Timespec
  first : KernelCalls
  firstOne : KernelCalls
  firstTwo : KernelCalls
  second : KernelCalls
  secondOne : KernelCalls
  secondTwo : KernelCalls

/-- `-EBUSY`. -/
def ebusy : ℤ := -16

/-- `register_filesystem`. -/
def registerFilesystem (kernel : FsKernel) (ret : ℤ) : ℤ × FsKernel :=
  if kernel.registered then (ebusy, kernel)
  else if ret = 0 then (0, { kernel with registered := true })
  else (ret, kernel)

/-- `unregister_filesystem`. -/
def unregisterFilesystem (kernel : FsKernel) : FsKernel := { kernel with registered := false }

/-- `mntput`. -/
def mntput (kernel : FsKernel) : MountPtr → FsKernel
  | .mount => { kernel with mountRefs := kernel.mountRefs - 1 }
  | _ => kernel

/-- `simple_release_fs(&myfs_mount, &myfs_mount_count)`: the count goes down by one, the pointer is
cleared when it is then zero, and the mount is put. -/
def simpleReleaseFs (kernel : FsKernel) (statics : FsStatics) : ExitOutcome FsKernel FsStatics :=
  let count := statics.myfsMountCount - 1
  { statics := { statics with
      myfsMount := if count = 0 then .null else statics.myfsMount
      myfsMountCount := count }
    kernel := mntput kernel statics.myfsMount }

/-! ### The module -/

/-- The address of `myfs_file_operations`. -/
def myfsFileOperations : ℕ := 1

/-- The creations of `myfs_init`. The files of a directory that was not created go to the root. -/
def createFiles (tree : Tree) (calls : FsCalls) : Tree :=
  let readWrite := sIfreg ||| sIrugo ||| sIwusr
  let readOnly := sIfreg ||| sIrugo
  let fops := some myfsFileOperations
  let (tree, pslot) := myfsCreatDir tree "First" none calls.first
  let (tree, _) := myfsCreatFile tree "one" readWrite pslot 0 fops calls.firstOne
  let (tree, _) := myfsCreatFile tree "two" readOnly pslot 0 fops calls.firstTwo
  let (tree, pslot) := myfsCreatDir tree "Second" none calls.second
  let (tree, _) := myfsCreatFile tree "one" readWrite pslot 0 fops calls.secondOne
  let (tree, _) := myfsCreatFile tree "two" readWrite pslot 0 fops calls.secondTwo
  tree

/-- `myfs_init`. -/
def myfsInit (kernel : FsKernel) (calls : FsCalls) : InitOutcome FsKernel FsStatics :=
  let (retval, kernel) := registerFilesystem kernel calls.registerFilesystem
  if retval = 0 then
    match calls.kernMount with
    | some pointer => ⟨retval, ⟨.error pointer, 0, ⟨[], none⟩⟩, unregisterFilesystem kernel⟩
    | none =>
      ⟨retval, ⟨.mount, 0, createFiles (Tree.mounted calls.now) calls⟩,
        { kernel with mountRefs := kernel.mountRefs + 1 }⟩
  else ⟨retval, ⟨.null, 0, createFiles ⟨[], none⟩ calls⟩, kernel⟩

/-- `myfs_exit`. -/
def myfsExit (kernel : FsKernel) (statics : FsStatics) : ExitOutcome FsKernel FsStatics :=
  let released := simpleReleaseFs kernel statics
  ⟨released.statics, unregisterFilesystem released.kernel⟩

/-- `myfs_kernel.c` as a module. -/
def myfsModule : KernelModule FsKernel FsStatics FsCalls := ⟨myfsInit, myfsExit⟩

/-- The kernel without the file system. -/
def FsKernel.without : FsKernel := ⟨false, 0⟩

/-- The kernel with the file system registered and mounted once. -/
def FsKernel.mounted : FsKernel := ⟨true, 1⟩

/-! ### The law -/

/-- What `myfs_init` and `myfs_exit` owe the kernel and each other. -/
def MountLaw : CallLaws FsKernel FsStatics FsCalls where
  onInit kernel calls :=
    ((myfsInit kernel calls).ret = 0 →
      (myfsInit kernel calls).kernel.registered = true ∧
        0 < (myfsInit kernel calls).kernel.mountRefs ∧
        (myfsInit kernel calls).statics.myfsMount = .mount) ∧
    ((myfsInit kernel calls).ret ≠ 0 →
      (myfsInit kernel calls).kernel.registered = false ∧
        (myfsInit kernel calls).kernel.mountRefs = 0)
  onExit kernel statics :=
    statics.myfsMount = .mount ∧
      (myfsExit kernel statics).kernel.registered = false ∧
      (myfsExit kernel statics).kernel.mountRefs = kernel.mountRefs - 1 ∧
      (myfsExit kernel statics).statics.myfsMount = .null ∧
      (myfsExit kernel statics).statics.myfsMountCount = 0

/-- The condition: no load registers the file system and then fails to mount it, and the module is
not unloaded. -/
def StaysMounted : CallLaws FsKernel FsStatics FsCalls where
  onInit _ calls := calls.registerFilesystem = 0 → calls.kernMount = none
  onExit _ _ := False

/-! ### What the two functions do -/

/-- The three ways through `myfs_init` on a kernel without the file system. -/
theorem myfsInit_cases (calls : FsCalls) :
    calls.registerFilesystem ≠ 0 ∧
        (myfsInit .without calls).ret = calls.registerFilesystem ∧
        (myfsInit .without calls).kernel = .without ∨
      (∃ pointer, calls.registerFilesystem = 0 ∧ calls.kernMount = some pointer ∧
        (myfsInit .without calls).ret = 0 ∧
        (myfsInit .without calls).kernel = .without ∧
        (myfsInit .without calls).statics.myfsMount = .error pointer) ∨
      calls.registerFilesystem = 0 ∧ calls.kernMount = none ∧
        (myfsInit .without calls).ret = 0 ∧
        (myfsInit .without calls).kernel = .mounted ∧
        (myfsInit .without calls).statics.myfsMount = .mount ∧
        (myfsInit .without calls).statics.myfsMountCount = 0 := by
  by_cases hregister : calls.registerFilesystem = 0
  · have hregistered : registerFilesystem .without calls.registerFilesystem =
        (0, ⟨true, 0⟩) := by
      rw [hregister]
      rfl
    cases hmount : calls.kernMount with
    | some pointer =>
      have hinit : myfsInit .without calls = ⟨0, ⟨.error pointer, 0, ⟨[], none⟩⟩, .without⟩ := by
        simp only [myfsInit, hregistered, hmount]
        rfl
      rw [hinit]
      exact Or.inr (Or.inl ⟨pointer, hregister, rfl, rfl, rfl, rfl⟩)
    | none =>
      have hinit : myfsInit .without calls =
          ⟨0, ⟨.mount, 0, createFiles (Tree.mounted calls.now) calls⟩, .mounted⟩ := by
        simp only [myfsInit, hregistered, hmount]
        rfl
      rw [hinit]
      exact Or.inr (Or.inr ⟨hregister, rfl, rfl, rfl, rfl, rfl⟩)
  · have hfailed : registerFilesystem .without calls.registerFilesystem =
        (calls.registerFilesystem, .without) := by
      unfold registerFilesystem
      rw [if_neg (by decide), if_neg hregister]
    have hinit : myfsInit .without calls =
        ⟨calls.registerFilesystem, ⟨.null, 0, createFiles ⟨[], none⟩ calls⟩, .without⟩ := by
      simp only [myfsInit, hfailed, if_neg hregister]
    rw [hinit]
    exact Or.inl ⟨hregister, rfl, rfl⟩

/-- After a load that mounted the file system, `myfs_exit` unregisters it and drops the reference to
the mount; it keeps the pointer and leaves the count at minus one. -/
theorem myfsExit_of_live (tree : Tree) :
    myfsExit .mounted ⟨.mount, 0, tree⟩ = ⟨⟨.mount, -1, tree⟩, .without⟩ := rfl

/-- A load keeps the law exactly if it does not fail between the registration and the mount. -/
theorem mountLaw_onInit_iff (kernel : FsKernel) (calls : FsCalls) (hidle : kernel = .without) :
    MountLaw.onInit kernel calls ↔ StaysMounted.onInit kernel calls := by
  have hnone : FsKernel.without.registered = false := rfl
  rw [hidle]
  unfold MountLaw StaysMounted
  dsimp only
  rcases myfsInit_cases calls with ⟨hregister, hret, hkernel⟩ |
    ⟨pointer, hregister, hmount, hret, hkernel, hpointer⟩ |
    ⟨hregister, hmount, hret, hkernel, hpointer, -⟩
  · rw [hret, hkernel]
    exact iff_of_true ⟨fun hzero ↦ absurd hzero hregister, fun _ ↦ ⟨rfl, rfl⟩⟩
      fun hzero ↦ absurd hzero hregister
  · rw [hret, hkernel, hpointer, hmount]
    refine iff_of_false (fun hlaw ↦ ?_) fun hcondition ↦ ?_
    · cases (hlaw.1 rfl).1
    · cases hcondition hregister
  · rw [hret, hkernel, hpointer, hmount]
    exact iff_of_true ⟨fun _ ↦ ⟨rfl, by decide, rfl⟩, fun hne ↦ absurd rfl hne⟩ fun _ ↦ rfl

/-! ### Exactly when the law holds -/

/-- A run keeps the law exactly if no load of it registers the file system without mounting it and
the module is never unloaded. -/
theorem mountLaw_iff (events : List (ModuleEvent FsCalls)) :
    myfsModule.Obeys MountLaw ⟨.without, none⟩ events ↔
      myfsModule.Obeys StaysMounted ⟨.without, none⟩ events := by
  have hsound : (⟨.without, none⟩ : Machine FsKernel FsStatics).Sound
      (fun kernel ↦ kernel = .without) fun kernel statics ↦
        kernel = .mounted ∧ statics.myfsMount = .mount ∧ statics.myfsMountCount = 0 := rfl
  refine KernelModule.along_iff mountLaw_onInit_iff ?_ ?_ ?_ ?_ hsound events
  · rintro kernel ⟨pointer, count, tree⟩ ⟨hkernel, hmount, hcount⟩
    dsimp only at hmount hcount
    rw [hkernel, hmount, hcount]
    refine iff_of_false (fun hlaw ↦ ?_) fun hfalse ↦ hfalse
    cases hlaw.2.2.2.1
  · rintro kernel calls hidle hcondition hret
    rw [hidle] at hret ⊢
    rcases myfsInit_cases calls with ⟨hregister, hfailed, -⟩ | ⟨pointer, hregister, hmount, -⟩ |
      ⟨-, -, -, hkernel, hpointer, hcount⟩
    · exact absurd (hfailed.symm.trans hret) hregister
    · rw [hcondition hregister] at hmount
      cases hmount
    · exact ⟨hkernel, hpointer, hcount⟩
  · rintro kernel calls hidle hcondition hret
    rw [hidle] at hret ⊢
    rcases myfsInit_cases calls with ⟨-, -, hkernel⟩ | ⟨pointer, -, -, hzero, -⟩ |
      ⟨-, -, hzero, -⟩
    · exact hkernel
    · exact absurd hzero hret
    · exact absurd hzero hret
  · exact fun _ _ _ hfalse ↦ hfalse.elim

/-- A load in which `register_filesystem` and all creations succeed, and `kern_mount` as given. -/
def loadWith (kernMount : Option ErrPtr) : FsCalls :=
  let kernel : KernelCalls := ⟨none, true, ⟨0, 0, 0, []⟩, ⟨0, 0⟩⟩
  ⟨0, kernMount, ⟨0, 0⟩, kernel, kernel, kernel, kernel, kernel, kernel⟩

/-- A load whose mount fails for want of memory breaks the law, and so does a successful load with
the unload after it. -/
theorem not_obeys_mountLaw :
    ¬ myfsModule.Obeys MountLaw ⟨.without, none⟩ [.load (loadWith (some ⟨enomem, by decide⟩))] ∧
      ¬ myfsModule.Obeys MountLaw ⟨.without, none⟩ [.load (loadWith none), .unload] := by
  constructor
  · rintro ⟨hload, -⟩
    cases ((hload rfl).1 rfl).1
  · rintro ⟨-, hunload, -⟩
    cases (hunload _ rfl).2.2.2.1

end KernelExperiments.Myfs
