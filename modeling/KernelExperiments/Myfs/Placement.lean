import KernelExperiments.Myfs.Failures
import KernelExperiments.Myfs.Loading

/-!
# Where the files of a directory are created

`myfs_creat_file` takes for its directory what `myfs_creat_dir` has returned. `DirectoryLaw` says of
such a group of calls that every entry the files get is in the directory that was asked for, and
that there is none when that directory was not created.

But `myfs_creat_dir` returns `NULL` when it fails, and for `myfs_creat_file` a parent `NULL` is the
root. Neither `myfs_init` nor `myfs_creat_file` looks at the difference, so the files of a directory
that was not created end up in the root. The law holds exactly if the directory is created or no
file could have been created in the root either (`directoryLaw_iff`).
-/

set_option autoImplicit false
set_option relaxedAutoImplicit false

namespace KernelExperiments.Myfs

open Foundation

/-! ### Groups of calls -/

/-- A call of `myfs_creat_file`, but for its directory. -/
structure FileRequest where
  name : String
  mode : BitVec 32
  data : ℕ
  fops : Option ℕ
  kernel : KernelCalls

/-- A call of `myfs_creat_dir`, and the files that are then created in what it returns. -/
structure DirRequest where
  name : String
  parent : Option ℕ
  kernel : KernelCalls
  files : List FileRequest

/-- The creation of a file in a directory. -/
def FileRequest.creation (file : FileRequest) (pslot : Option ℕ) : Creation :=
  .file file.name file.mode pslot file.data file.fops file.kernel

/-- The creation of the directory. -/
def DirRequest.creation (request : DirRequest) : Creation :=
  .dir request.name request.parent request.kernel

/-- `pslot = myfs_creat_dir(..)` and the calls of `myfs_creat_file` with `pslot` behind it. -/
def fillStep (tree : Tree) (request : DirRequest) : Tree :=
  let (tree, pslot) := request.creation.result tree
  run treeStep tree (request.files.map fun file ↦ file.creation pslot)

/-- The calls of `myfs_init` for `First`. -/
def FsCalls.firstGroup (calls : FsCalls) : DirRequest where
  name := "First"
  parent := none
  kernel := calls.first
  files :=
    [⟨"one", sIfreg ||| sIrugo ||| sIwusr, 0, some myfsFileOperations, calls.firstOne⟩,
      ⟨"two", sIfreg ||| sIrugo, 0, some myfsFileOperations, calls.firstTwo⟩]

/-- The calls of `myfs_init` for `Second`. -/
def FsCalls.secondGroup (calls : FsCalls) : DirRequest where
  name := "Second"
  parent := none
  kernel := calls.second
  files :=
    [⟨"one", sIfreg ||| sIrugo ||| sIwusr, 0, some myfsFileOperations, calls.secondOne⟩,
      ⟨"two", sIfreg ||| sIrugo ||| sIwusr, 0, some myfsFileOperations, calls.secondTwo⟩]

/-- The groups of calls in `myfs_init`. -/
def FsCalls.requests (calls : FsCalls) : List DirRequest := [calls.firstGroup, calls.secondGroup]

/-- The tree in which `myfs_init` begins to create, if it gets there: the mounted one, or none when
the file system could not be registered. -/
def creationStart (kernel : FsKernel) (calls : FsCalls) : Option Tree :=
  if (registerFilesystem kernel calls.registerFilesystem).1 = 0 then
    match calls.kernMount with
    | some _ => none
    | none => some (Tree.mounted calls.now)
  else some ⟨[], none⟩

/-- `myfs_init` leaves what the two groups leave. -/
theorem tree_myfsInit (kernel : FsKernel) (calls : FsCalls) :
    (myfsInit kernel calls).statics.tree =
      (creationStart kernel calls).elim ⟨[], none⟩ fun start ↦
        run fillStep start calls.requests := by
  unfold myfsInit creationStart
  dsimp only
  by_cases hret : (registerFilesystem kernel calls.registerFilesystem).1 = 0
  · rw [if_pos hret, if_pos hret]
    cases calls.kernMount with
    | some pointer => rfl
    | none => rfl
  · rw [if_neg hret, if_neg hret]
    rfl

/-! ### The law -/

/-- The files are created in the directory that was asked for, and nowhere if there is none. -/
structure DirectoryLaw (tree : Tree) (request : DirRequest) : Prop where
  inside : ∀ address entry,
    Creates (treeStep tree request.creation) (fillStep tree request) address entry →
      ∃ pslot dir, (request.creation.result tree).2 = some pslot ∧ entry.parent = some pslot ∧
        (fillStep tree request).entry pslot = some dir ∧ dir.inode.IsDirectory ∧
        dir.name = request.name ∧ dir.parent = request.creation.directory tree
  failed : (request.creation.result tree).2 = none → ∀ address entry,
    ¬ Creates (treeStep tree request.creation) (fillStep tree request) address entry

/-- Every group of `myfs_init` keeps the law. -/
def InitDirectoryLaw (kernel : FsKernel) (calls : FsCalls) : Prop :=
  ∀ start, creationStart kernel calls = some start →
    Along fillStep DirectoryLaw start calls.requests

/-- The directory is created, or none of the files could be created in the root. -/
def DirRequest.StaysInside (tree : Tree) (request : DirRequest) : Prop :=
  ¬ request.creation.Fails tree ∨ ∀ file ∈ request.files, (file.creation none).Fails tree

instance decidableStaysInside (tree : Tree) (request : DirRequest) :
    Decidable (request.StaysInside tree) :=
  inferInstanceAs (Decidable (_ ∨ _))

/-- The kernel calls of a creation succeed. -/
def KernelCalls.Succeed (kernel : KernelCalls) : Prop :=
  kernel.lookupError = none ∧ kernel.newInode = true

/-- `myfs_init` has nowhere to create anything, or of each group it can create the directory or no
file. -/
def FsCalls.StaysInside (kernel : FsKernel) (calls : FsCalls) : Prop :=
  kernel.registered = true ∨ calls.registerFilesystem ≠ 0 ∨ calls.kernMount ≠ none ∨
    (calls.first.Succeed ∨ ¬ calls.firstOne.Succeed ∧ ¬ calls.firstTwo.Succeed) ∧
      (calls.second.Succeed ∨ ¬ calls.secondOne.Succeed ∧ ¬ calls.secondTwo.Succeed)

/-! ### Runs of creations -/

theorem keeps_run (tree : Tree) (creations : List Creation) :
    tree.Keeps (run treeStep tree creations) := by
  induction creations generalizing tree with
  | nil => exact fun address old hold ↦ ⟨old, hold, Entry.SameFile.refl old⟩
  | cons creation rest ih => exact (keeps_treeStep tree creation).trans (ih _)

/-- What is created in a run is in the directory that all its creations have. -/
theorem parent_of_creates_run {dir : ℕ} {creations : List Creation}
    (hparent : ∀ creation ∈ creations, creation.parent = some dir) {tree : Tree} {address : ℕ}
    {entry : Entry} (hcreates : Creates tree (run treeStep tree creations) address entry) :
    entry.parent = some dir := by
  induction creations generalizing tree with
  | nil => cases hcreates.1.symm.trans hcreates.2
  | cons creation rest ih =>
    obtain ⟨hfresh, hentry⟩ := hcreates
    obtain ⟨hfirst, hrest⟩ := List.forall_mem_cons.mp hparent
    cases hnext : (treeStep tree creation).entry address with
    | none => exact ih hrest ⟨hnext, hentry⟩
    | some created =>
      obtain ⟨-, -, -, hplaced⟩ := placed_of_creates ⟨hfresh, hnext⟩
      obtain ⟨last, hlast, hsame⟩ := keeps_run _ rest address created hnext
      cases hlast.symm.trans hentry
      rw [hsame.parent_eq, hplaced, Creation.directory, hfirst, Option.some_or]

/-- A run of creations that all fail changes no entry. -/
theorem entry_run_of_fails {creations : List Creation} {tree : Tree}
    (hfails : ∀ creation ∈ creations, creation.Fails tree) (address : ℕ) :
    (run treeStep tree creations).entry address = tree.entry address := by
  induction creations generalizing tree with
  | nil => rfl
  | cons creation rest ih =>
    obtain ⟨hfirst, hrest⟩ := List.forall_mem_cons.mp hfails
    rw [run_cons, ih fun other hother ↦ (fails_treeStep_of_fails hfirst other).mpr
      (hrest other hother), entry_treeStep_of_fails hfirst]

/-- A run with a creation that would not fail at its beginning creates an entry. -/
theorem exists_creates_run {creations : List Creation} {tree : Tree} {creation : Creation}
    (hmem : creation ∈ creations) (hsucceeds : ¬ creation.Fails tree) :
    ∃ address entry, Creates tree (run treeStep tree creations) address entry := by
  induction creations generalizing tree with
  | nil => cases hmem
  | cons first rest ih =>
    rw [run_cons]
    by_cases hfirst : first.Fails tree
    · have hrest : creation ∈ rest := by
        refine (List.mem_cons.mp hmem).resolve_left ?_
        rintro rfl
        exact hsucceeds hfirst
      obtain ⟨address, entry, hfresh, hentry⟩ :=
        ih hrest fun hfails ↦ hsucceeds ((fails_treeStep_of_fails hfirst creation).mp hfails)
      exact ⟨address, entry, (entry_treeStep_of_fails hfirst address).symm.trans hfresh, hentry⟩
    · obtain ⟨dir, dentry, -, -, hsucceeded⟩ := succeeded_of_not_fails hfirst
      obtain ⟨created, hcreated, -⟩ := hsucceeded.created
      obtain ⟨last, hlast, -⟩ := keeps_run _ rest dentry created hcreated
      exact ⟨dentry, last, hsucceeded.fresh, hlast⟩

/-! ### One group of calls -/

/-- The directory that a group has created is still there at its end. -/
theorem exists_directory {tree : Tree} {request : DirRequest}
    (hcreated : ¬ request.creation.Fails tree) :
    ∃ pslot dir, (request.creation.result tree).2 = some pslot ∧ tree.entry pslot = none ∧
      (fillStep tree request).entry pslot = some dir ∧ dir.inode.IsDirectory ∧
      dir.name = request.name ∧ dir.parent = request.creation.directory tree := by
  have hkind : request.creation.MakesDirectory := by
    show (sIfdir ||| sIrwxu ||| sIrugo) &&& sIfmt = sIfdir
    decide
  obtain ⟨parent, pslot, hparent, hreturned, hsucceeded⟩ := succeeded_of_not_fails hcreated
  obtain ⟨made, hmade, hname, hplaced, htype⟩ := hsucceeded.created
  obtain ⟨dir, hdir, hsame⟩ := keeps_run (treeStep tree request.creation)
    (request.files.map fun file ↦ file.creation (request.creation.result tree).2) pslot made hmade
  refine ⟨pslot, dir, hreturned, hsucceeded.fresh, hdir, ?_, hsame.name_eq.trans hname, ?_⟩
  · rw [Inode.IsDirectory, hsame.type_eq, htype (Or.inl hkind), hkind]
  · rw [hsame.parent_eq, hplaced, hparent]

/-- A group keeps the law exactly if its directory is created or none of its files could be created
in the root. -/
theorem directoryLaw_iff_staysInside (tree : Tree) (request : DirRequest) :
    DirectoryLaw tree request ↔ request.StaysInside tree := by
  unfold DirRequest.StaysInside
  by_cases hfails : request.creation.Fails tree
  · have hnone := (result_eq_none_iff tree request.creation).mpr hfails
    have hfill : fillStep tree request = run treeStep (treeStep tree request.creation)
        (request.files.map fun file ↦ file.creation none) := by
      rw [← hnone]
      rfl
    rw [or_iff_right (not_not.mpr hfails)]
    constructor
    · intro hlaw file hfile
      by_contra hsucceeds
      rw [← fails_treeStep_of_fails hfails] at hsucceeds
      have hmem : file.creation none ∈ request.files.map fun file ↦ file.creation none :=
        List.mem_map.mpr ⟨file, hfile, rfl⟩
      obtain ⟨address, entry, hcreates⟩ := exists_creates_run hmem hsucceeds
      exact hlaw.failed hnone address entry (hfill ▸ hcreates)
    · intro hfiles
      have hnothing : ∀ address entry,
          ¬ Creates (treeStep tree request.creation) (fillStep tree request) address entry := by
        rintro address entry ⟨hfresh, hentry⟩
        rw [hfill, entry_run_of_fails, hfresh] at hentry
        · cases hentry
        · intro creation hcreation
          obtain ⟨file, hfile, rfl⟩ := List.mem_map.mp hcreation
          exact (fails_treeStep_of_fails hfails _).mpr (hfiles file hfile)
      exact ⟨fun address entry hcreates ↦ absurd hcreates (hnothing address entry),
        fun _ ↦ hnothing⟩
  · refine iff_of_true ?_ (Or.inl hfails)
    obtain ⟨pslot, dir, hreturned, -, hdir, hdirectory, hname, hparent⟩ := exists_directory hfails
    refine ⟨fun address entry hcreates ↦ ⟨pslot, dir, hreturned, ?_, hdir, hdirectory, hname,
      hparent⟩, fun hnone ↦ absurd ((result_eq_none_iff tree request.creation).mp hnone) hfails⟩
    refine parent_of_creates_run ?_ hcreates
    intro creation hcreation
    obtain ⟨file, -, rfl⟩ := List.mem_map.mp hcreation
    exact hreturned

/-! ### The groups of `myfs_init` -/

theorem myfsMount_fillStep (tree : Tree) (request : DirRequest) :
    (fillStep tree request).myfsMount = tree.myfsMount := by
  have hrun : ∀ (creations : List Creation) (tree : Tree),
      (run treeStep tree creations).myfsMount = tree.myfsMount := by
    intro creations
    induction creations with
    | nil => exact fun _ ↦ rfl
    | cons creation rest ih => exact fun tree ↦ (ih _).trans (myfsMount_treeStep tree creation)
  exact (hrun _ _).trans (myfsMount_treeStep tree request.creation)

/-- Without a mount nothing is created. -/
theorem staysInside_of_not_mounted {tree : Tree} (hmount : tree.myfsMount = none)
    (request : DirRequest) : request.StaysInside tree :=
  Or.inr fun _ _ ↦ Or.inl hmount

/-- A new name is created exactly if the kernel calls succeed. -/
theorem fails_iff_of_not_holds {tree : Tree} {creation : Creation} {dir : ℕ}
    (hdir : creation.directory tree = some dir)
    (hfresh : tree.holds dir creation.name = false) :
    creation.Fails tree ↔ ¬ creation.kernel.Succeed := by
  unfold Creation.Fails KernelCalls.Succeed
  constructor
  · rintro (hnone | hlookup | hinode | hholds) ⟨hfound, hnew⟩
    · cases hdir.symm.trans hnone
    · exact hlookup hfound
    · cases hnew.symm.trans hinode
    · rw [hdir, Option.any_some] at hholds
      cases hfresh.symm.trans hholds
  · intro hfails
    by_cases hlookup : creation.kernel.lookupError = none
    · exact Or.inr (Or.inr (Or.inl (Bool.eq_false_iff.mpr fun hnew ↦ hfails ⟨hlookup, hnew⟩)))
    · exact Or.inr (Or.inl hlookup)

/-- A group of new names in the root stays inside exactly if the directory is created or no file
can be created. -/
theorem staysInside_iff_of_not_holds {tree : Tree} {root : ℕ} {request : DirRequest}
    (hmount : tree.myfsMount = some root) (hparent : request.parent = none)
    (hfresh : tree.holds root request.name = false)
    (hfiles : ∀ file ∈ request.files, tree.holds root file.name = false) :
    request.StaysInside tree ↔
      request.kernel.Succeed ∨ ∀ file ∈ request.files, ¬ file.kernel.Succeed := by
  have hdir : request.creation.directory tree = some root := by
    rw [Creation.directory, DirRequest.creation, Creation.parent, hparent, Option.none_or, hmount]
  unfold DirRequest.StaysInside
  rw [fails_iff_of_not_holds hdir hfresh]
  refine or_congr not_not (forall₂_congr fun file hfile ↦ ?_)
  exact fails_iff_of_not_holds hmount (hfiles file hfile)

/-- What is in a directory after a group that keeps the law was in it before, or is what the group
was to create, if the directory is not the new one. -/
theorem name_of_fillStep {tree : Tree} {request : DirRequest} (hlaw : DirectoryLaw tree request)
    {root : ℕ} (hroot : (tree.entry root).isSome) {address : ℕ} {entry : Entry}
    (hentry : (fillStep tree request).entry address = some entry)
    (hparent : entry.parent = some root) (hfresh : tree.entry address = none) :
    entry.name = request.name := by
  cases hmade : (treeStep tree request.creation).entry address with
  | some made =>
    obtain ⟨-, hname, -⟩ := placed_of_creates ⟨hfresh, hmade⟩
    obtain ⟨last, hlast, hsame⟩ := keeps_run _ _ address made hmade
    cases hlast.symm.trans hentry
    exact hsame.name_eq.trans hname
  | none =>
    obtain ⟨pslot, -, hreturned, hinside, -⟩ := hlaw.inside address entry ⟨hmade, hentry⟩
    have hcreated : ¬ request.creation.Fails tree := by
      rw [← result_eq_none_iff, hreturned]
      exact Option.some_ne_none pslot
    obtain ⟨other, -, hother, hnew, -⟩ := exists_directory hcreated
    cases hreturned.symm.trans hother
    cases hinside.symm.trans hparent
    rw [hnew] at hroot
    cases hroot

/-- The root as it is mounted is empty. -/
theorem holds_mounted (now : Timespec) (name : String) :
    (Tree.mounted now).holds 0 name = false := rfl

/-- A group that keeps the law on the empty root leaves no other name there. -/
theorem holds_fillStep_mounted {now : Timespec} {request : DirRequest}
    (hlaw : DirectoryLaw (Tree.mounted now) request) {name : String} (hname : name ≠ request.name) :
    (fillStep (Tree.mounted now) request).holds 0 name = false := by
  cases hholds : (fillStep (Tree.mounted now) request).holds 0 name with
  | false => rfl
  | true =>
    obtain ⟨address, entry, hentry, hparent, rfl⟩ := exists_entry_of_holds hholds
    cases hbefore : (Tree.mounted now).entry address with
    | none => exact absurd (name_of_fillStep hlaw rfl hentry hparent hbefore) hname
    | some old =>
      -- the only old entry is the root, and that is in no directory
      have hold : old.parent = none := by
        cases address with
        | zero =>
          cases hbefore
          rfl
        | succ address => cases hbefore
      obtain ⟨last, hlast, hsame⟩ := (keeps_treeStep _ request.creation).trans (keeps_run _ _)
        address old hbefore
      cases hlast.symm.trans hentry
      rw [hsame.parent_eq, hold] at hparent
      cases hparent

/-- `register_filesystem` succeeds once. -/
theorem registerFilesystem_eq_zero_iff (kernel : FsKernel) (ret : ℤ) :
    (registerFilesystem kernel ret).1 = 0 ↔ kernel.registered = false ∧ ret = 0 := by
  have hebusy : ebusy ≠ 0 := by decide
  unfold registerFilesystem
  cases kernel.registered with
  | true => exact iff_of_false hebusy fun hfree ↦ Bool.false_ne_true hfree.1.symm
  | false =>
    by_cases hret : ret = 0
    · rw [if_neg Bool.false_ne_true, if_pos hret]
      exact iff_of_true rfl ⟨rfl, hret⟩
    · rw [if_neg Bool.false_ne_true, if_neg hret]
      exact iff_of_false hret fun hzero ↦ hret hzero.2

/-- The condition on the group of `First`, or of `Second`, in a root without its names. -/
theorem staysInside_group_iff {tree : Tree} {dir : String} {kernel one two : KernelCalls}
    {mode otherMode : BitVec 32} {fops : Option ℕ} (hmount : tree.myfsMount = some 0)
    (hfresh : ∀ name ∈ [dir, "one", "two"], tree.holds 0 name = false) :
    DirRequest.StaysInside tree ⟨dir, none, kernel,
        [⟨"one", mode, 0, fops, one⟩, ⟨"two", otherMode, 0, fops, two⟩]⟩ ↔
      kernel.Succeed ∨ ¬ one.Succeed ∧ ¬ two.Succeed := by
  obtain ⟨hdir, hone, htwo⟩ : tree.holds 0 dir = false ∧ tree.holds 0 "one" = false ∧
      tree.holds 0 "two" = false := by simpa using hfresh
  rw [staysInside_iff_of_not_holds hmount rfl hdir (by simp [hone, htwo])]
  simp

/-- On the mounted root, each group has to create its directory or none of its files. -/
theorem along_requests_mounted (calls : FsCalls) :
    Along fillStep DirectoryLaw (Tree.mounted calls.now) calls.requests ↔
      (calls.first.Succeed ∨ ¬ calls.firstOne.Succeed ∧ ¬ calls.firstTwo.Succeed) ∧
        (calls.second.Succeed ∨ ¬ calls.secondOne.Succeed ∧ ¬ calls.secondTwo.Succeed) := by
  rw [FsCalls.requests, along_cons, along_cons, and_iff_left (along_nil _)]
  refine (and_congr_right fun hlaw ↦ ?_).trans (and_congr_left' ?_)
  · rw [directoryLaw_iff_staysInside]
    refine staysInside_group_iff ((myfsMount_fillStep _ _).trans rfl) fun name hname ↦ ?_
    have hother : name ≠ "First" := by
      rintro rfl
      revert hname
      decide
    exact holds_fillStep_mounted hlaw hother
  · rw [directoryLaw_iff_staysInside]
    exact staysInside_group_iff rfl fun name _ ↦ holds_mounted calls.now name

/-- The groups of `myfs_init` keep the law exactly if each creates its directory or none of its
files. -/
theorem initDirectoryLaw_iff_staysInside (kernel : FsKernel) (calls : FsCalls) :
    InitDirectoryLaw kernel calls ↔ calls.StaysInside kernel := by
  unfold InitDirectoryLaw FsCalls.StaysInside
  by_cases hret : (registerFilesystem kernel calls.registerFilesystem).1 = 0
  · obtain ⟨hfree, hzero⟩ := (registerFilesystem_eq_zero_iff _ _).mp hret
    cases hmount : calls.kernMount with
    | some pointer =>
      have hstart : creationStart kernel calls = none := by
        rw [creationStart, if_pos hret, hmount]
      rw [hstart]
      exact iff_of_true (fun start hnone ↦ nomatch hnone)
        (Or.inr (Or.inr (Or.inl (Option.some_ne_none pointer))))
    | none =>
      have hstart : creationStart kernel calls = some (Tree.mounted calls.now) := by
        rw [creationStart, if_pos hret, hmount]
      rw [hstart, ← along_requests_mounted, hfree, hzero]
      simp only [Option.some.injEq, forall_eq', Bool.false_eq_true, ne_eq, not_true_eq_false,
        false_or]
  · have hstart : creationStart kernel calls = some ⟨[], none⟩ := by
      rw [creationStart, if_neg hret]
    rw [hstart]
    refine iff_of_true ?_ ?_
    · rintro start ⟨⟩
      have hlaw : ∀ tree : Tree, tree.myfsMount = none → ∀ request, DirectoryLaw tree request :=
        fun tree hmount request ↦ (directoryLaw_iff_staysInside tree request).mpr
          (staysInside_of_not_mounted hmount request)
      exact ⟨hlaw _ rfl _, hlaw _ (myfsMount_fillStep _ _) _, trivial⟩
    · rw [registerFilesystem_eq_zero_iff] at hret
      by_cases hfree : kernel.registered = true
      · exact Or.inl hfree
      · exact Or.inr (Or.inl fun hzero ↦ hret ⟨Bool.eq_false_iff.mpr hfree, hzero⟩)

/-! ### Exactly when the files stay inside -/

/-- A group of calls keeps the law exactly if its directory is created or no file can be created in
the root either. `myfs_init` keeps it exactly if nothing can be created at all, or in each of its
two groups the directory or no file. -/
theorem directoryLaw_iff (tree : Tree) (request : DirRequest) (kernel : FsKernel)
    (calls : FsCalls) :
    (DirectoryLaw tree request ↔ request.StaysInside tree) ∧
      (InitDirectoryLaw kernel calls ↔ calls.StaysInside kernel) :=
  ⟨directoryLaw_iff_staysInside tree request, initDirectoryLaw_iff_staysInside kernel calls⟩

/-- A load in which there is no inode for `First`. -/
def withoutFirst : FsCalls :=
  let kernel : KernelCalls := ⟨none, true, ⟨0, 0, 0, []⟩, ⟨0, 0⟩⟩
  ⟨0, none, ⟨0, 0⟩, { kernel with newInode := false }, kernel, kernel, kernel, kernel, kernel⟩

/-- The files of that load are created in the root. -/
theorem not_directoryLaw_withoutFirst :
    ¬ InitDirectoryLaw .without withoutFirst ∧
      ¬ DirectoryLaw (Tree.mounted ⟨0, 0⟩) withoutFirst.firstGroup := by
  have hgroup : ¬ DirectoryLaw (Tree.mounted ⟨0, 0⟩) withoutFirst.firstGroup := by
    intro hlaw
    -- the negative dentry of `First` is at 1, and `one` is behind it
    exact hlaw.failed rfl 2 _ ⟨rfl, rfl⟩
  refine ⟨fun hlaw ↦ ?_, hgroup⟩
  obtain ⟨hfirst, -⟩ := hlaw (Tree.mounted ⟨0, 0⟩) rfl
  exact hgroup hfirst

end KernelExperiments.Myfs
