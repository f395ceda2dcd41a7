import KernelExperiments.Myfs.FileOperations

/-!
# Who may open a file of myfs

`myfs_file_open` asks `inode_permission` whether the caller may read and write, and means to let
root in besides. `AccessControl` is what it owes a caller whose record could be allocated: zero for
root and for everyone with permission, `-EACCES` for everyone else without it.

`inode_permission` returns zero for yes and a negative code for no, and the code takes its negation
as the reason to refuse; the exception for root is written `!uid == 0`, which holds of every user
but root. So the check refuses the users other than root who have permission and lets in those who
have not (`myfsFileOpen_ret`), and access is controlled exactly when the caller is root
(`accessControl_iff`).
-/

set_option autoImplicit false
set_option relaxedAutoImplicit false

namespace KernelExperiments.Myfs

/-! ### What opening owes a caller -/

/-- `inode_permission`: zero when the caller has the access of the mask to the inode, and a negative
code otherwise. -/
structure InodePermission where
  check : Cred → Inode → BitVec 32 → ℤ
  check_nonpos : ∀ cred inode mask, check cred inode mask ≤ 0

/-- The caller has permission to read and write the inode. -/
def InodePermission.Grants (permission : InodePermission) (cred : Cred) (inode : Inode) : Prop :=
  permission.check cred inode mayReadWrite = 0

/-- The decision of a call of `myfs_file_open`, given by its return value, is the right one for the
caller. -/
structure AccessControl (permission : InodePermission) (cred : Cred) (inode : Inode) (ret : ℤ) :
    Prop where
  allowed : cred.uid = 0 ∨ permission.Grants cred inode → ret = 0
  denied : cred.uid ≠ 0 → permission.check cred inode mayReadWrite < 0 → ret = eacces

/-! ### What opening decides -/

theorem cNot_ne_zero_iff (value : ℤ) : cNot value ≠ 0 ↔ value = 0 := by
  unfold cNot
  by_cases hvalue : value = 0
  · rw [if_pos hvalue]
    exact iff_of_true Int.one_ne_zero hvalue
  · rw [if_neg hvalue]
    exact iff_of_false (fun hzero ↦ hzero rfl) hvalue

/-- Once its record is allocated, a caller is refused exactly when it is not root and has
permission. -/
theorem myfsFileOpen_ret (permission : InodePermission) (inode : Inode) (file : File) (heap : Heap)
    (cred : Cred) (address : ℕ) (memory : MyfsFileInfo) (now : Timespec) :
    (myfsFileOpen permission.check inode file heap ⟨cred, some (address, memory), now⟩).ret = eacces
        ∧ permission.Grants cred inode ∧ cred.uid ≠ 0 ∨
      (myfsFileOpen permission.check inode file heap ⟨cred, some (address, memory), now⟩).ret = 0
        ∧ ¬ (permission.Grants cred inode ∧ cred.uid ≠ 0) := by
  have huid : cNot cred.uid.toNat = 0 ↔ cred.uid ≠ 0 := by
    rw [← not_iff_not, ← ne_eq, cNot_ne_zero_iff, not_ne_iff, Int.natCast_eq_zero]
    exact ⟨fun hzero ↦ BitVec.eq_of_toNat_eq hzero, fun hzero ↦ by rw [hzero]; rfl⟩
  have hcheck : cNot (permission.check cred inode mayReadWrite) ≠ 0 ∧ cNot cred.uid.toNat = 0 ↔
      permission.Grants cred inode ∧ cred.uid ≠ 0 :=
    and_congr (cNot_ne_zero_iff _) huid
  unfold myfsFileOpen
  dsimp only
  by_cases hrefused : permission.Grants cred inode ∧ cred.uid ≠ 0
  · rw [if_pos (hcheck.mpr hrefused)]
    exact Or.inl ⟨rfl, hrefused⟩
  · rw [if_neg fun hcondition ↦ hrefused (hcheck.mp hcondition)]
    exact Or.inr ⟨rfl, hrefused⟩

/-! ### Exactly when access is controlled -/

/-- The decision is the right one exactly when the caller is root. -/
theorem accessControl_iff (permission : InodePermission) (inode : Inode) (file : File) (heap : Heap)
    (cred : Cred) (address : ℕ) (memory : MyfsFileInfo) (now : Timespec) :
    AccessControl permission cred inode
        (myfsFileOpen permission.check inode file heap ⟨cred, some (address, memory), now⟩).ret ↔
      cred.uid = 0 := by
  have hcodes : eacces ≠ 0 := by decide
  constructor
  · rintro ⟨hallowed, hdenied⟩
    by_contra huser
    rcases myfsFileOpen_ret permission inode file heap cred address memory now with
      ⟨hret, hgrants, -⟩ | ⟨hret, hnot⟩
    · rw [hallowed (Or.inr hgrants)] at hret
      exact hcodes hret.symm
    · have hless : permission.check cred inode mayReadWrite < 0 :=
        lt_of_le_of_ne (permission.check_nonpos _ _ _) fun hgrants ↦ hnot ⟨hgrants, huser⟩
      rw [hdenied huser hless] at hret
      exact hcodes hret
  · intro hroot
    refine ⟨fun _ ↦ ?_, fun huser _ ↦ absurd hroot huser⟩
    rcases myfsFileOpen_ret permission inode file heap cred address memory now with
      ⟨-, -, huser⟩ | ⟨hret, -⟩
    · exact absurd hroot huser
    · exact hret

/-! ### A caller without permission -/

/-- The permission check of the kernel for a regular file: the bits of the owner, of the group or of
the others, unless the caller is root. -/
def genericPermission : InodePermission where
  check := fun cred inode mask ↦
    let mode := inode.iMode.setWidth 32
    let bits :=
      if cred.fsuid = inode.iUid then mode >>> 6
      else if cred.fsgid = inode.iGid ∨ inode.iGid ∈ cred.groups then mode >>> 3
      else mode
    if mask &&& ~~~bits &&& 7 = 0 ∨ cred.fsuid = 0 then 0 else eacces
  check_nonpos := by
    intro cred inode mask
    dsimp only
    split_ifs <;> decide

/-- The inode of `First/one`, which root has made: everyone may read, and root may write. -/
def firstOneInode : Inode where
  iMode := (sIfreg ||| sIrugo ||| sIwusr).setWidth 16
  iUid := 0
  iGid := 0
  iSize := 4096
  iBlocks := 0
  iAtime := ⟨0, 0⟩
  iMtime := ⟨0, 0⟩
  iCtime := ⟨0, 0⟩
  iOp := .unset
  iFop := .table 1
  iPrivate := 0
  iNlink := 1

/-- User 1000, who may not write `First/one`, is let in. -/
theorem not_accessControl_user :
    ¬ AccessControl genericPermission ⟨1000, 1000, 1000, []⟩ firstOneInode
      (myfsFileOpen genericPermission.check firstOneInode ⟨none⟩ (fun _ ↦ none)
        ⟨⟨1000, 1000, 1000, []⟩, some (0, ⟨⟨0, 0⟩, 0⟩), ⟨0, 0⟩⟩).ret := by
  intro hcontrol
  have hret := hcontrol.denied (by decide) (by decide)
  revert hret
  decide

end KernelExperiments.Myfs
