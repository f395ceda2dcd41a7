import KernelExperiments.Myfs.Entries

/-!
# When a creation fails

`Creation.Fails` says on the tree before a creation whether it fails: there is no directory for it,
the lookup fails, there is no inode for it, or the name is in the directory already. These are all
the ways in which it returns `NULL` (`result_eq_none_iff`).

A creation that fails changes no entry, and no other creation fails or succeeds for it
(`fails_treeStep_of_fails`). One that succeeds adds one entry, of its name and in its directory, and
keeps all others (`created_of_not_fails`).
-/

set_option autoImplicit false
set_option relaxedAutoImplicit false

namespace KernelExperiments.Myfs

/-- A name is in a directory: the lookup of it finds a dentry that is not negative. -/
def Tree.holds (tree : Tree) (dir : ℕ) (name : String) : Bool :=
  ((tree.find dir name).bind tree.dInode).isSome

/-- The creation fails. -/
def Creation.Fails (tree : Tree) (creation : Creation) : Prop :=
  creation.directory tree = none ∨ creation.kernel.lookupError ≠ none ∨
    creation.kernel.newInode = false ∨
    (creation.directory tree).any fun dir ↦ tree.holds dir creation.name

instance decidableFails (tree : Tree) (creation : Creation) : Decidable (creation.Fails tree) :=
  inferInstanceAs (Decidable (_ ∨ _))

/-! ### What a failure is -/

/-- An inode is there exactly if `new_inode` gives one. -/
theorem isSome_myfsGetInode (kernel : KernelCalls) (mode : BitVec 32) :
    (myfsGetInode kernel mode).isSome = kernel.newInode := by
  unfold myfsGetInode
  cases kernel.newInode with
  | false => rfl
  | true =>
    dsimp only
    rw [if_pos rfl]
    split_ifs <;> rfl

/-- `myfs_mknod` succeeds exactly on a negative dentry for which there is an inode. -/
theorem myfsMknod_eq_zero_iff (tree : Tree) (dentry : ℕ) (mode : BitVec 32) (kernel : KernelCalls) :
    (myfsMknod tree dentry mode kernel).2 = 0 ↔
      tree.dInode dentry = none ∧ kernel.newInode = true := by
  have heperm : eperm ≠ 0 := by decide
  rw [← isSome_myfsGetInode kernel mode]
  unfold myfsMknod
  by_cases hpositive : tree.dInode dentry ≠ none
  · rw [if_pos hpositive]
    exact iff_of_false heperm fun hnegative ↦ hpositive hnegative.1
  · rw [if_neg hpositive]
    cases myfsGetInode kernel mode with
    | none => exact iff_of_false heperm fun hinode ↦ Bool.false_ne_true hinode.2
    | some inode => exact iff_of_true rfl ⟨not_not.mp hpositive, rfl⟩

/-- So do `myfs_mkdir` and `myfs_creat`. -/
theorem myfsMkdir_or_myfsCreat_eq_zero_iff (tree : Tree) (dir dentry : ℕ) (mode : BitVec 32)
    (kernel : KernelCalls) :
    (if mode &&& sIfmt = sIfdir then myfsMkdir tree dir dentry mode kernel
      else myfsCreat tree dentry mode kernel).2 = 0 ↔
      tree.dInode dentry = none ∧ kernel.newInode = true := by
  split_ifs
  · rw [← myfsMknod_eq_zero_iff tree dentry (mode ||| sIfdir)]
    unfold myfsMkdir
    dsimp only
    split_ifs <;> rfl
  · exact myfsMknod_eq_zero_iff tree dentry (mode ||| sIfreg) kernel

/-- A reference is not part of an inode. -/
theorem dInode_dget (tree : Tree) (dentry address : ℕ) :
    (tree.dget dentry).dInode address = tree.dInode address := by
  have hkeeps : ∀ old : Dentry, { old with count := old.count + 1 }.inode = old.inode :=
    fun _ ↦ rfl
  calc (tree.dget dentry).dInode address
      = (((tree.dget dentry).dcache[address]?).map Dentry.inode).bind id := by
        rw [Option.bind_map]
        rfl
    _ = ((tree.dcache[address]?).map Dentry.inode).bind id :=
        congrArg (Option.bind · id) (map_getElem?_modify tree dentry hkeeps address)
    _ = tree.dInode address := by
        rw [Option.bind_map]
        rfl

/-- The dentry that is looked up is negative exactly if the name is not in the directory. -/
theorem dInode_lookupOneLen (tree : Tree) (name : String) (dir : ℕ) :
    (tree.lookupOneLen name dir).1.dInode (tree.lookupOneLen name dir).2 = none ↔
      tree.holds dir name = false := by
  unfold Tree.holds Tree.lookupOneLen
  cases tree.find dir name with
  | some dentry =>
    dsimp only
    rw [dInode_dget, Option.bind_some, Option.isSome_eq_false_iff, Option.isNone_iff_eq_none]
  | none =>
    refine iff_of_true ?_ rfl
    unfold Tree.dInode
    dsimp only
    rw [List.getElem?_append_right (Nat.le_refl _), Nat.sub_self]
    rfl

/-- A creation returns `NULL` exactly if it fails. -/
theorem result_eq_none_iff (tree : Tree) (creation : Creation) :
    (creation.result tree).2 = none ↔ creation.Fails tree := by
  have hefault : efault ≠ 0 := by decide
  rw [result_eq_myfsCreatFile]
  unfold myfsCreatFile myfsCreatByName Creation.Fails
  cases hdir : creation.parent.or tree.myfsMount with
  | none =>
    dsimp only
    rw [if_pos hefault]
    exact iff_of_true rfl (Or.inl hdir)
  | some dir =>
    have hdirectory : creation.directory tree = some dir := hdir
    cases hlookup : creation.kernel.lookupError with
    | some pointer =>
      dsimp only
      rw [if_pos (Int.ne_of_lt pointer.code_neg)]
      exact iff_of_true rfl (Or.inr (Or.inl (Option.some_ne_none pointer)))
    | none =>
      dsimp only
      have hzero := myfsMkdir_or_myfsCreat_eq_zero_iff (tree.lookupOneLen creation.name dir).1 dir
        (tree.lookupOneLen creation.name dir).2 creation.mode creation.kernel
      rw [dInode_lookupOneLen] at hzero
      by_cases hmade : tree.holds dir creation.name = false ∧ creation.kernel.newInode = true
      · rw [if_neg (not_not.mpr (hzero.mpr hmade))]
        refine iff_of_false (Option.some_ne_none _) ?_
        rintro (hnone | hsome | hinode | hpresent)
        · cases hdirectory.symm.trans hnone
        · exact hsome rfl
        · cases hmade.2.symm.trans hinode
        · rw [hdirectory, Option.any_some] at hpresent
          cases hmade.1.symm.trans hpresent
      · rw [if_pos fun hsuccess ↦ hmade (hzero.mp hsuccess)]
        refine iff_of_true rfl (Or.inr (Or.inr ?_))
        cases hpresent : tree.holds dir creation.name with
        | true =>
          rw [hdirectory, Option.any_some]
          exact Or.inr hpresent
        | false =>
          rw [hpresent] at hmade
          exact Or.inl (Bool.eq_false_iff.mpr fun hinode ↦ hmade ⟨rfl, hinode⟩)

/-- A name that is in a directory is that of an entry there. -/
theorem exists_entry_of_holds {tree : Tree} {dir : ℕ} {name : String}
    (hholds : tree.holds dir name = true) :
    ∃ address entry, tree.entry address = some entry ∧ entry.parent = some dir ∧
      entry.name = name := by
  obtain ⟨inode, hinode⟩ := Option.isSome_iff_exists.mp hholds
  obtain ⟨address, hfind, hdentry⟩ := Option.bind_eq_some_iff.mp hinode
  obtain ⟨dentry, hlookup, hplace⟩ := Option.map_eq_some_iff.mp (place_of_find hfind)
  obtain ⟨hparent, hname⟩ := Prod.mk.inj hplace
  unfold Tree.dInode at hdentry
  rw [hlookup, Option.bind_some] at hdentry
  refine ⟨address, ⟨dentry.name, dentry.parent, inode⟩, ?_, hparent, hname⟩
  rw [Tree.entry, hlookup, Option.bind_some, Dentry.entry, hdentry, Option.map_some]

/-! ### What a failure leaves -/

/-- The lookup of a name depends on the places only. -/
theorem find_of_place_eq {tree next : Tree}
    (hplace : ∀ address, next.place address = tree.place address) (dir : ℕ) (name : String) :
    next.find dir name = tree.find dir name := by
  have hplaces : ∀ other : Tree, other.find dir name =
      (other.dcache.map fun dentry ↦ (dentry.parent, dentry.name)).findIdx? fun place ↦
        place.1 = some dir ∧ place.2 = name := by
    intro other
    rw [List.findIdx?_map]
    rfl
  rw [hplaces, hplaces]
  refine congrArg (List.findIdx? _) (List.ext_getElem? fun address ↦ ?_)
  rw [List.getElem?_map, List.getElem?_map]
  exact hplace address

/-- A lookup adds no name to a directory. -/
theorem holds_lookupOneLen (tree : Tree) (name : String) (dir other : ℕ) (otherName : String) :
    (tree.lookupOneLen name dir).1.holds other otherName = tree.holds other otherName := by
  unfold Tree.lookupOneLen Tree.holds
  cases tree.find dir name with
  | some dentry =>
    dsimp only
    rw [find_of_place_eq (place_dget tree dentry)]
    cases tree.find other otherName with
    | none => rfl
    | some found => rw [Option.bind_some, Option.bind_some, dInode_dget]
  | none =>
    -- the new dentry is negative
    have hinode : ∀ address, Tree.dInode
        { tree with dcache := tree.dcache ++ [⟨name, some dir, none, 1⟩] } address =
          tree.dInode address := bind_getElem?_append tree.dcache rfl
    dsimp only
    simp only [Tree.find, List.findIdx?_append]
    cases tree.dcache.findIdx? fun entry ↦ entry.parent = some other ∧ entry.name = otherName with
    | some found => rw [Option.some_or, Option.bind_some, Option.bind_some, hinode]
    | none =>
      rw [Option.none_or, Option.bind_none]
      cases List.findIdx? _ _ with
      | none => rfl
      | some distance =>
        rw [Option.map_some, Option.bind_some, hinode, Tree.dInode,
          List.getElem?_eq_none (Nat.le_add_left _ _)]
        rfl

/-- A creation that fails has looked the name up at most. -/
theorem treeStep_of_fails {tree : Tree} {creation : Creation} (hfails : creation.Fails tree) :
    treeStep tree creation = tree ∨
      ∃ dir, treeStep tree creation = (tree.lookupOneLen creation.name dir).1 := by
  obtain ⟨result, hresult, hstep, houtcome⟩ := exists_outcome tree creation
  have hnone := (result_eq_none_iff tree creation).mpr hfails
  rw [hresult] at hnone
  cases houtcome with
  | notLookedUp _ => exact Or.inl hstep
  | @notCreated dir _ _ => exact Or.inr ⟨dir, hstep⟩
  | created => cases hnone

/-- A creation that fails changes no entry. -/
theorem entry_treeStep_of_fails {tree : Tree} {creation : Creation} (hfails : creation.Fails tree)
    (address : ℕ) : (treeStep tree creation).entry address = tree.entry address := by
  rcases treeStep_of_fails hfails with hsame | ⟨dir, hlooked⟩
  · rw [hsame]
  · rw [hlooked, entry_lookupOneLen]

/-- No creation fails or succeeds because another one has failed. -/
theorem fails_treeStep_of_fails {tree : Tree} {creation : Creation} (hfails : creation.Fails tree)
    (other : Creation) : other.Fails (treeStep tree creation) ↔ other.Fails tree := by
  rcases treeStep_of_fails hfails with hsame | ⟨dir, hlooked⟩
  · rw [hsame]
  · rw [hlooked]
    unfold Creation.Fails Creation.directory
    simp only [myfsMount_lookupOneLen, holds_lookupOneLen]

/-! ### What a success leaves -/

/-- An entry that has kept its name, its directory and its type. -/
structure Entry.SameFile (old new : Entry) : Prop where
  name_eq : new.name = old.name
  parent_eq : new.parent = old.parent
  type_eq : new.inode.type = old.inode.type

/-- What was an entry is one of the same file, and what was none is none. -/
def KeepsFile (before after : Option Entry) : Prop :=
  ∃ keep : Entry → Entry, (∀ old : Entry, old.SameFile (keep old)) ∧ after = before.map keep

/-- Every entry is still there, and is the same file. -/
def Tree.Keeps (before after : Tree) : Prop :=
  ∀ address old, before.entry address = some old →
    ∃ new, after.entry address = some new ∧ old.SameFile new

/-- An entry has been created, and was not there before. -/
def Creates (before after : Tree) (address : ℕ) (entry : Entry) : Prop :=
  before.entry address = none ∧ after.entry address = some entry

/-- A creation has added the entry at `dentry` in the directory `dir`, and has kept the others. -/
structure Succeeded (before after : Tree) (creation : Creation) (dir dentry : ℕ) : Prop where
  fresh : before.entry dentry = none
  created : ∃ entry, after.entry dentry = some entry ∧ entry.name = creation.name ∧
    entry.parent = some dir ∧
    (creation.OfKnownType → entry.inode.type = (creation.mode &&& sIfmt).setWidth 16)
  others : ∀ other, other ≠ dentry → KeepsFile (before.entry other) (after.entry other)

theorem Entry.SameFile.refl (entry : Entry) : entry.SameFile entry := ⟨rfl, rfl, rfl⟩

theorem Entry.SameFile.trans {first second third : Entry} (hfirst : first.SameFile second)
    (hsecond : second.SameFile third) : first.SameFile third where
  name_eq := hsecond.name_eq.trans hfirst.name_eq
  parent_eq := hsecond.parent_eq.trans hfirst.parent_eq
  type_eq := hsecond.type_eq.trans hfirst.type_eq

theorem KeepsFile.trans {first second third : Option Entry} (hfirst : KeepsFile first second)
    (hsecond : KeepsFile second third) : KeepsFile first third := by
  obtain ⟨keep, hkeep, rfl⟩ := hfirst
  obtain ⟨keepOn, hkeepOn, rfl⟩ := hsecond
  exact ⟨keepOn ∘ keep, fun old ↦ (hkeep old).trans (hkeepOn (keep old)), Option.map_map ..⟩

theorem Tree.Keeps.trans {first second third : Tree} (hfirst : first.Keeps second)
    (hsecond : second.Keeps third) : first.Keeps third := by
  intro address old hold
  obtain ⟨middle, hmiddle, hsame⟩ := hfirst address old hold
  obtain ⟨new, hnew, hstill⟩ := hsecond address middle hmiddle
  exact ⟨new, hnew, hsame.trans hstill⟩

/-- A change of an inode that keeps its type keeps the files. -/
theorem keepsFile_modifyInode (tree : Tree) (dentry : ℕ) {change : Inode → Inode}
    (htype : ∀ inode, (change inode).type = inode.type) (address : ℕ) :
    KeepsFile (tree.entry address) ((tree.modifyInode dentry change).entry address) := by
  refine ⟨_, fun old ↦ ?_, entry_modifyInode tree dentry change address⟩
  split_ifs
  · exact ⟨rfl, rfl, htype old.inode⟩
  · exact Entry.SameFile.refl old

/-- An addition keeps the files that are there when the dentry has got its inode. -/
theorem keepsFile_add (tree : Tree) (dir dentry : ℕ) (inode : Inode) (creation : Creation)
    (address : ℕ) :
    KeepsFile ((tree.dInstantiate dentry inode).entry address)
      ((tree.add dir dentry inode creation).entry address) := by
  have hset := setFile_type creation.data creation.fops
  have hlink : ∀ inode, (incNlink inode).type = inode.type := fun _ ↦ rfl
  rw [← entry_dget (tree.dInstantiate dentry inode) dentry]
  unfold Tree.add
  dsimp only
  by_cases hdirectory : creation.MakesDirectory
  · rw [if_pos hdirectory]
    exact (keepsFile_modifyInode _ dir hlink address).trans
      (keepsFile_modifyInode _ dentry hset address)
  · rw [if_neg hdirectory]
    exact keepsFile_modifyInode _ dentry hset address

/-- A creation that does not fail adds one entry, of its name and in its directory. -/
theorem succeeded_of_not_fails {tree : Tree} {creation : Creation}
    (hsucceeds : ¬ creation.Fails tree) :
    ∃ dir dentry, creation.directory tree = some dir ∧
      (creation.result tree).2 = some dentry ∧
      Succeeded tree (treeStep tree creation) creation dir dentry := by
  obtain ⟨result, hresult, hstep, houtcome⟩ := exists_outcome tree creation
  rw [← result_eq_none_iff, hresult] at hsucceeds
  cases houtcome with
  | notLookedUp _ => exact absurd rfl hsucceeds
  | notCreated _ _ => exact absurd rfl hsucceeds
  | @created dir dentry looked inode hdir _ hlooked hnegative hinode =>
    obtain ⟨hfresh, hplace, hentry⟩ := fresh_of_lookupOneLen hlooked hnegative
    refine ⟨dir, dentry, hdir, by rw [hresult], hfresh, ?_, fun other hother ↦ ?_⟩
    · obtain ⟨keep, hkeep, hadd⟩ := keepsFile_add looked dir dentry inode creation dentry
      rw [entry_dInstantiate hplace, if_pos rfl, Option.map_some] at hadd
      obtain ⟨hname, hparent, htype⟩ := hkeep ⟨creation.name, some dir, inode⟩
      rw [hstep]
      exact ⟨_, hadd, hname, hparent, fun hkind ↦ htype.trans (hinode hkind).1⟩
    · have hadd := keepsFile_add looked dir dentry inode creation other
      rw [entry_dInstantiate hplace, if_neg hother, hentry] at hadd
      rwa [hstep]

/-- No creation takes an entry away or makes another file of it. -/
theorem keeps_treeStep (tree : Tree) (creation : Creation) :
    tree.Keeps (treeStep tree creation) := by
  intro address old hold
  by_cases hfails : creation.Fails tree
  · exact ⟨old, by rw [entry_treeStep_of_fails hfails, hold], Entry.SameFile.refl old⟩
  · obtain ⟨dir, dentry, -, -, hsucceeded⟩ := succeeded_of_not_fails hfails
    have hne : address ≠ dentry := by
      rintro rfl
      cases hsucceeded.fresh.symm.trans hold
    obtain ⟨keep, hkeep, hnew⟩ := hsucceeded.others address hne
    exact ⟨keep old, by rw [hnew, hold, Option.map_some], hkeep old⟩

/-- An entry that a creation has created is the one it returns, of its name and in its directory. -/
theorem placed_of_creates {tree : Tree} {creation : Creation} {address : ℕ} {entry : Entry}
    (hcreates : Creates tree (treeStep tree creation) address entry) :
    (creation.result tree).2 = some address ∧ entry.name = creation.name ∧
      (creation.directory tree).isSome ∧ entry.parent = creation.directory tree := by
  obtain ⟨hfresh, hentry⟩ := hcreates
  by_cases hfails : creation.Fails tree
  · rw [entry_treeStep_of_fails hfails, hfresh] at hentry
    cases hentry
  · obtain ⟨dir, dentry, hdir, hreturned, hsucceeded⟩ := succeeded_of_not_fails hfails
    by_cases hsame : address = dentry
    · obtain ⟨created, hcreated, hname, hparent, -⟩ := hsucceeded.created
      rw [← hsame, hentry] at hcreated
      cases hcreated
      exact ⟨by rw [hreturned, hsame], hname, by rw [hdir]; rfl, by rw [hdir, hparent]⟩
    · obtain ⟨keep, -, hnew⟩ := hsucceeded.others address hsame
      rw [hfresh, Option.map_none, hentry] at hnew
      cases hnew

end KernelExperiments.Myfs
