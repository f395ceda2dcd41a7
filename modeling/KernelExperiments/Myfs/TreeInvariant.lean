import KernelExperiments.Myfs.Entries
import Mathlib.Data.Finset.Card
import Mathlib.Data.Finset.Range

/-!
# The directory tree of myfs

`TreeInvariant` says that the entries of the file system are a tree with the right link counts: a
directory has two links and one more for each directory in it, a regular file has one, no directory
holds a name twice, and every entry but the root is in a directory. `CreationEffect` says what one
creation does to the entries: one that returns a dentry has added one entry and changed no other,
except that the directory of a new directory has a link more (`Added`); one that returns `NULL` has
changed no entry at all.

The update is spread over four functions: the name is looked up, the inode is set up, the dentry
gets it, and then the directory gets a link. Between the last two the invariant does not hold, so it
is an invariant of whole creations (`treeInvariant_treeStep`), and of the runs of them
(`run_treeInvariant_and_effects`).

## Scope

A creation is for a directory or a regular file, in an existing directory or in the root
(`Creation.Valid`). Its name may be any, and every lookup and allocation may fail.
-/

set_option autoImplicit false
set_option relaxedAutoImplicit false

namespace KernelExperiments.Myfs

open Foundation

/-! ### The invariant -/

/-- The directories in a directory. -/
def Tree.childDirs (tree : Tree) (parent : ℕ) : Finset ℕ :=
  (Finset.range tree.dcache.length).filter fun address ↦
    (tree.entry address).any fun entry ↦ entry.parent = some parent ∧ entry.inode.IsDirectory

/-- There is a directory at the address. -/
def Tree.HasDirectory (tree : Tree) (address : ℕ) : Prop :=
  ∃ entry, tree.entry address = some entry ∧ entry.inode.IsDirectory

/-- The file system is a tree with the right link counts. -/
structure TreeInvariant (tree : Tree) : Prop where
  nlink_directory : ∀ address entry, tree.entry address = some entry →
    entry.inode.IsDirectory → entry.inode.iNlink = 2 + (tree.childDirs address).card
  nlink_regular : ∀ address entry, tree.entry address = some entry →
    entry.inode.IsRegular → entry.inode.iNlink = 1
  directory_or_regular : ∀ address entry, tree.entry address = some entry →
    entry.inode.IsDirectory ∨ entry.inode.IsRegular
  parent_directory : ∀ address entry parent, tree.entry address = some entry →
    entry.parent = some parent → tree.HasDirectory parent
  root_directory : ∃ root, tree.myfsMount = some root ∧ tree.HasDirectory root
  well_placed : WellPlaced tree

/-- The creation is for a directory or a regular file, and its parent is `NULL` or an existing
directory. -/
def Creation.Valid (tree : Tree) (creation : Creation) : Prop :=
  creation.OfKnownType ∧
    creation.parent.all fun dir ↦ (tree.entry dir).any fun entry ↦ entry.inode.IsDirectory

instance decidableValid (tree : Tree) (creation : Creation) : Decidable (creation.Valid tree) :=
  inferInstanceAs (Decidable (_ ∧ _))

/-! ### The effect of one creation -/

/-- A creation has added the entry at `dentry` in the directory `dir`. -/
structure Added (tree next : Tree) (creation : Creation) (dir dentry : ℕ) : Prop where
  fresh : tree.entry dentry = none
  added : ∃ inode, next.entry dentry = some ⟨creation.name, some dir, inode⟩ ∧
    inode.type = (creation.mode &&& sIfmt).setWidth 16 ∧
    inode.iNlink = if creation.MakesDirectory then 2 else 1
  others : ∀ other, other ≠ dentry → next.entry other = (tree.entry other).map fun entry ↦
    if other = dir ∧ creation.MakesDirectory then { entry with inode := incNlink entry.inode }
    else entry

/-- What a creation does to the entries. -/
structure CreationEffect (tree : Tree) (creation : Creation) : Prop where
  returned : ∀ dentry, (creation.result tree).2 = some dentry →
    ∃ dir, creation.directory tree = some dir ∧
      Added tree (treeStep tree creation) creation dir dentry
  failed : (creation.result tree).2 = none →
    ∀ address, (treeStep tree creation).entry address = tree.entry address

/-! ### Children -/

theorem lt_length_of_entry {tree : Tree} {address : ℕ} {entry : Entry}
    (hentry : tree.entry address = some entry) : address < tree.dcache.length := by
  obtain ⟨dentry, hdentry, -⟩ := Option.bind_eq_some_iff.mp hentry
  exact (List.getElem?_eq_some_iff.mp hdentry).1

theorem mem_childDirs {tree : Tree} {parent address : ℕ} :
    address ∈ tree.childDirs parent ↔ ∃ entry, tree.entry address = some entry ∧
      entry.parent = some parent ∧ entry.inode.IsDirectory := by
  unfold Tree.childDirs
  rw [Finset.mem_filter, Finset.mem_range, Option.any_eq_true]
  constructor
  · rintro ⟨-, entry, hentry, hchild⟩
    exact ⟨entry, hentry, of_decide_eq_true hchild⟩
  · rintro ⟨entry, hentry, hchild⟩
    exact ⟨lt_length_of_entry hentry, entry, hentry, decide_eq_true hchild⟩

/-- The same entries have the same children. -/
theorem childDirs_of_entry_eq {tree next : Tree}
    (hentry : ∀ address, next.entry address = tree.entry address) (parent : ℕ) :
    next.childDirs parent = tree.childDirs parent := by
  ext address
  rw [mem_childDirs, mem_childDirs, hentry]

/-- The invariant is kept by what changes no entry. -/
theorem TreeInvariant.of_entry_eq {tree next : Tree} (htree : TreeInvariant tree)
    (hentry : ∀ address, next.entry address = tree.entry address)
    (hmount : next.myfsMount = tree.myfsMount) (hplaced : WellPlaced next) :
    TreeInvariant next := by
  have hdirectory : ∀ address, next.HasDirectory address ↔ tree.HasDirectory address := by
    intro address
    unfold Tree.HasDirectory
    rw [hentry]
  refine ⟨?_, ?_, ?_, ?_, ?_, hplaced⟩
  · intro address entry haddress
    rw [hentry] at haddress
    rw [childDirs_of_entry_eq hentry]
    exact htree.nlink_directory address entry haddress
  · intro address entry haddress
    rw [hentry] at haddress
    exact htree.nlink_regular address entry haddress
  · intro address entry haddress
    rw [hentry] at haddress
    exact htree.directory_or_regular address entry haddress
  · intro address entry parent haddress hparent
    rw [hentry] at haddress
    exact (hdirectory parent).mpr (htree.parent_directory address entry parent haddress hparent)
  · obtain ⟨root, hroot, hexists⟩ := htree.root_directory
    exact ⟨root, hmount.trans hroot, (hdirectory root).mpr hexists⟩

/-! ### An added entry -/

section Addition

variable {tree next : Tree} {creation : Creation} {dir dentry : ℕ}

/-- What was an entry before is not the new one. -/
theorem Added.ne_of_entry (hadded : Added tree next creation dir dentry) {address : ℕ} {old : Entry}
    (hold : tree.entry address = some old) : address ≠ dentry := by
  rintro rfl
  rw [hadded.fresh] at hold
  cases hold

/-- The new entry was in no directory before. -/
theorem Added.notMem_childDirs (hadded : Added tree next creation dir dentry) (parent : ℕ) :
    dentry ∉ tree.childDirs parent := by
  intro hchild
  obtain ⟨entry, hentry, -⟩ := mem_childDirs.mp hchild
  exact hadded.ne_of_entry hentry rfl

/-- An entry that is not the new one was there before, in the same directory and of the same type,
and has a link more if it is the directory of a new directory. -/
theorem Added.of_next (hadded : Added tree next creation dir dentry) {address : ℕ} {entry : Entry}
    (hentry : next.entry address = some entry) (hne : address ≠ dentry) :
    ∃ old, tree.entry address = some old ∧ entry.parent = old.parent ∧
      entry.inode.type = old.inode.type ∧
      entry.inode.iNlink =
        old.inode.iNlink + if address = dir ∧ creation.MakesDirectory then 1 else 0 := by
  rw [hadded.others address hne] at hentry
  obtain ⟨old, hold, hchanged⟩ := Option.map_eq_some_iff.mp hentry
  refine ⟨old, hold, ?_⟩
  by_cases hlinked : address = dir ∧ creation.MakesDirectory
  · rw [if_pos hlinked] at hchanged ⊢
    subst hchanged
    exact ⟨rfl, rfl, rfl⟩
  · rw [if_neg hlinked] at hchanged ⊢
    subst hchanged
    exact ⟨rfl, rfl, rfl⟩

/-- An entry that was there before is still there, in the same directory and of the same type. -/
theorem Added.of_tree (hadded : Added tree next creation dir dentry) {address : ℕ} {old : Entry}
    (hold : tree.entry address = some old) :
    ∃ entry, next.entry address = some entry ∧ entry.parent = old.parent ∧
      entry.inode.type = old.inode.type := by
  rw [hadded.others address (hadded.ne_of_entry hold), hold]
  refine ⟨_, rfl, ?_⟩
  split_ifs
  · exact ⟨rfl, rfl⟩
  · exact ⟨rfl, rfl⟩

theorem Added.hasDirectory (hadded : Added tree next creation dir dentry) {address : ℕ}
    (hexists : tree.HasDirectory address) : next.HasDirectory address := by
  obtain ⟨old, hold, hdirectory⟩ := hexists
  obtain ⟨entry, hentry, -, htype⟩ := hadded.of_tree hold
  exact ⟨entry, hentry, htype.trans hdirectory⟩

/-- The inode of a creation is a directory or a regular file, as its mode says. -/
theorem type_of_creation {inode : Inode} (hkind : creation.OfKnownType)
    (htype : inode.type = (creation.mode &&& sIfmt).setWidth 16) :
    creation.MakesDirectory ∧ inode.IsDirectory ∧ ¬ inode.IsRegular ∨
      ¬ creation.MakesDirectory ∧ ¬ inode.IsDirectory ∧ inode.IsRegular := by
  unfold Inode.IsDirectory Inode.IsRegular
  rw [htype]
  rcases hkind with hdir | hreg
  · rw [show creation.mode &&& sIfmt = sIfdir from hdir]
    exact Or.inl ⟨hdir, rfl, by decide⟩
  · rw [Creation.MakesDirectory, hreg]
    exact Or.inr ⟨by decide, by decide, rfl⟩

/-- What holds of the new entry, and of every old one as it is now, holds of every entry. -/
theorem Added.forall_entry (hadded : Added tree next creation dir dentry)
    {property : ℕ → Entry → Prop}
    (hnew : ∀ inode : Inode, inode.type = (creation.mode &&& sIfmt).setWidth 16 →
      (inode.iNlink = if creation.MakesDirectory then 2 else 1) →
        property dentry ⟨creation.name, some dir, inode⟩)
    (hold : ∀ address entry old, tree.entry address = some old → entry.parent = old.parent →
      entry.inode.type = old.inode.type →
        entry.inode.iNlink =
            old.inode.iNlink + (if address = dir ∧ creation.MakesDirectory then 1 else 0) →
          property address entry) :
    ∀ address entry, next.entry address = some entry → property address entry := by
  intro address entry hentry
  by_cases hsame : address = dentry
  · obtain ⟨inode, hadd, htype, hnlink⟩ := hadded.added
    subst hsame
    rw [hadd] at hentry
    cases hentry
    exact hnew inode htype hnlink
  · obtain ⟨old, hbefore, hparent, htype, hnlink⟩ := hadded.of_next hentry hsame
    exact hold address entry old hbefore hparent htype hnlink

/-- A new directory is a child of its directory, and no other children change. -/
theorem Added.childDirs (hadded : Added tree next creation dir dentry)
    (hkind : creation.OfKnownType) (parent : ℕ) :
    next.childDirs parent = if parent = dir ∧ creation.MakesDirectory then
      insert dentry (tree.childDirs parent) else tree.childDirs parent := by
  obtain ⟨inode, hnew, htype, -⟩ := hadded.added
  have hdirectory : inode.IsDirectory ↔ creation.MakesDirectory := by
    rcases type_of_creation hkind htype with ⟨hmakes, hdir, -⟩ | ⟨hmakes, hdir, -⟩
    · exact iff_of_true hdir hmakes
    · exact iff_of_false hdir hmakes
  have hdentry : dentry ∈ next.childDirs parent ↔ parent = dir ∧ creation.MakesDirectory := by
    rw [mem_childDirs, ← hdirectory]
    constructor
    · rintro ⟨entry, hentry, hparent, hchild⟩
      rw [hnew] at hentry
      cases hentry
      exact ⟨(Option.some.inj hparent).symm, hchild⟩
    · rintro ⟨rfl, hchild⟩
      exact ⟨_, hnew, rfl, hchild⟩
  have hother : ∀ address, address ≠ dentry →
      (address ∈ next.childDirs parent ↔ address ∈ tree.childDirs parent) := by
    intro address hne
    rw [mem_childDirs, mem_childDirs]
    constructor
    · rintro ⟨entry, hentry, hparent, hchild⟩
      obtain ⟨old, hold, hsame, htypes, -⟩ := hadded.of_next hentry hne
      exact ⟨old, hold, hsame.symm.trans hparent, htypes.symm.trans hchild⟩
    · rintro ⟨old, hold, hparent, hchild⟩
      obtain ⟨entry, hentry, hsame, htypes⟩ := hadded.of_tree hold
      exact ⟨entry, hentry, hsame.trans hparent, htypes.trans hchild⟩
  ext address
  by_cases hne : address = dentry
  · subst hne
    rw [hdentry]
    split_ifs with hlinked
    · exact iff_of_true hlinked (Finset.mem_insert_self _ _)
    · exact iff_of_false hlinked (hadded.notMem_childDirs parent)
  · rw [hother address hne]
    split_ifs with hlinked
    · rw [Finset.mem_insert, or_iff_right hne]
    · exact Iff.rfl

/-- The directory of a new directory has one child more. -/
theorem Added.card_childDirs (hadded : Added tree next creation dir dentry)
    (hkind : creation.OfKnownType) (parent : ℕ) :
    (next.childDirs parent).card = (tree.childDirs parent).card +
      if parent = dir ∧ creation.MakesDirectory then 1 else 0 := by
  rw [hadded.childDirs hkind]
  split_ifs with hlinked
  · exact Finset.card_insert_of_notMem (hadded.notMem_childDirs parent)
  · rfl

/-- Nothing can be in the new entry yet, for it was no directory before. -/
theorem TreeInvariant.childDirs_added (htree : TreeInvariant tree)
    (hadded : Added tree next creation dir dentry) : tree.childDirs dentry = ∅ := by
  refine Finset.eq_empty_of_forall_notMem fun address hchild ↦ ?_
  obtain ⟨entry, hentry, hparent, -⟩ := mem_childDirs.mp hchild
  obtain ⟨old, hold, -⟩ := htree.parent_directory address entry dentry hentry hparent
  exact hadded.ne_of_entry hold rfl

/-- Adding an entry keeps the invariant. -/
theorem TreeInvariant.of_added (htree : TreeInvariant tree)
    (hadded : Added tree next creation dir dentry) (hkind : creation.OfKnownType)
    (hdir : tree.HasDirectory dir) (hmount : next.myfsMount = tree.myfsMount)
    (hplaced : WellPlaced next) : TreeInvariant next := by
  obtain ⟨dirEntry, hdirEntry, hisDir⟩ := hdir
  have hne : dentry ≠ dir := (hadded.ne_of_entry hdirEntry).symm
  have hkinds : ¬ sIfdir.setWidth 16 = sIfreg.setWidth 16 := by decide
  refine ⟨hadded.forall_entry ?_ ?_, hadded.forall_entry ?_ ?_, hadded.forall_entry ?_ ?_, ?_, ?_,
    hplaced⟩
  · intro inode htype hnlink hdirectory
    have hmakes : creation.MakesDirectory := by
      rcases type_of_creation hkind htype with ⟨hmakes, -⟩ | ⟨-, hnot, -⟩
      · exact hmakes
      · exact absurd hdirectory hnot
    rw [hadded.card_childDirs hkind, htree.childDirs_added hadded,
      if_neg fun hlinked ↦ hne hlinked.1, hnlink, if_pos hmakes]
    rfl
  · intro address entry old hold _ htype hnlink hdirectory
    rw [hadded.card_childDirs hkind, hnlink,
      htree.nlink_directory address old hold (htype.symm.trans hdirectory), Nat.add_assoc]
  · intro inode htype hnlink hregular
    have hnot : ¬ creation.MakesDirectory := by
      rcases type_of_creation hkind htype with ⟨-, -, hnot⟩ | ⟨hnot, -⟩
      · exact absurd hregular hnot
      · exact hnot
    rw [hnlink, if_neg hnot]
  · intro address entry old hold _ htype hnlink hregular
    rw [hnlink, htree.nlink_regular address old hold (htype.symm.trans hregular), if_neg]
    rintro ⟨rfl, -⟩
    rw [hold] at hdirEntry
    cases hdirEntry
    exact hkinds (hisDir.symm.trans (htype.symm.trans hregular))
  · intro inode htype _
    rcases type_of_creation hkind htype with ⟨-, hdirectory, -⟩ | ⟨-, -, hregular⟩
    · exact Or.inl hdirectory
    · exact Or.inr hregular
  · intro address entry old hold _ htype _
    rcases htree.directory_or_regular address old hold with hdirectory | hregular
    · exact Or.inl (htype.trans hdirectory)
    · exact Or.inr (htype.trans hregular)
  · have hparents : ∀ address entry, next.entry address = some entry →
        ∀ parent, entry.parent = some parent → next.HasDirectory parent := by
      refine hadded.forall_entry ?_ ?_
      · rintro inode - - _ ⟨⟩
        exact hadded.hasDirectory ⟨dirEntry, hdirEntry, hisDir⟩
      · intro address entry old hold hsame _ _ parent hparent
        exact hadded.hasDirectory
          (htree.parent_directory address old parent hold (hsame.symm.trans hparent))
    exact fun address entry parent hentry ↦ hparents address entry hentry parent
  · obtain ⟨root, hroot, hexists⟩ := htree.root_directory
    exact ⟨root, hmount.trans hroot, hadded.hasDirectory hexists⟩

end Addition

/-! ### Runs of creations -/

/-- The directory of a valid creation exists. -/
theorem Creation.Valid.hasDirectory {tree : Tree} {creation : Creation} (htree : TreeInvariant tree)
    (hvalid : creation.Valid tree) {dir : ℕ} (hdir : creation.directory tree = some dir) :
    tree.HasDirectory dir := by
  obtain ⟨-, hparent⟩ := hvalid
  unfold Creation.directory at hdir
  cases hrequested : creation.parent with
  | none =>
    obtain ⟨root, hroot, hexists⟩ := htree.root_directory
    rw [hrequested, Option.none_or, hroot] at hdir
    rwa [← Option.some.inj hdir]
  | some parent =>
    rw [hrequested, Option.some_or] at hdir
    rw [hrequested, Option.all_some, Option.any_eq_true] at hparent
    obtain ⟨entry, hentry, hdirectory⟩ := hparent
    rw [← Option.some.inj hdir]
    exact ⟨entry, hentry, of_decide_eq_true hdirectory⟩

/-- A creation that does all its steps has added its entry. -/
theorem added_of_created {tree looked : Tree} {creation : Creation} {dir dentry : ℕ} {inode : Inode}
    (hdir : tree.HasDirectory dir)
    (hlooked : tree.lookupOneLen creation.name dir = (looked, dentry))
    (hnegative : looked.dInode dentry = none)
    (htype : inode.type = (creation.mode &&& sIfmt).setWidth 16)
    (hnlink : inode.iNlink = if creation.MakesDirectory then 2 else 1) :
    Added tree (looked.add dir dentry inode creation) creation dir dentry := by
  obtain ⟨hfresh, hplace, hentry⟩ := fresh_of_lookupOneLen hlooked hnegative
  have hne : dir ≠ dentry := by
    rintro rfl
    obtain ⟨old, hold, -⟩ := hdir
    rw [hfresh] at hold
    cases hold
  refine ⟨hfresh, ⟨setFile creation.data creation.fops inode, ?_, ?_, ?_⟩, fun other hother ↦ ?_⟩
  · rw [entry_add hne hplace, if_pos rfl]
  · rw [setFile_type, htype]
  · rw [setFile_iNlink, hnlink]
  · rw [entry_add hne hplace, if_neg hother, hentry]

/-- A valid creation keeps the invariant and has the effect. -/
theorem treeInvariant_treeStep {tree : Tree} {creation : Creation} (htree : TreeInvariant tree)
    (hvalid : creation.Valid tree) :
    TreeInvariant (treeStep tree creation) ∧ CreationEffect tree creation := by
  obtain ⟨result, hresult, hstep, houtcome⟩ := exists_outcome tree creation
  cases houtcome with
  | notLookedUp _ =>
    rw [hstep]
    refine ⟨htree, ⟨fun dentry hreturned ↦ ?_, fun _ address ↦ by rw [hstep]⟩⟩
    rw [hresult] at hreturned
    cases hreturned
  | @notCreated dir hdir _ =>
    obtain ⟨entry, hentry, -⟩ := hvalid.hasDirectory htree hdir
    have hplaced := htree.well_placed.lookupOneLen creation.name (lt_length_of_entry hentry)
    rw [hstep]
    refine ⟨htree.of_entry_eq (entry_lookupOneLen tree creation.name dir)
      (myfsMount_lookupOneLen tree creation.name dir) hplaced, ⟨fun dentry hreturned ↦ ?_,
        fun _ address ↦ by rw [hstep]; exact entry_lookupOneLen tree creation.name dir address⟩⟩
    rw [hresult] at hreturned
    cases hreturned
  | @created dir dentry looked inode hdir _ hlooked hnegative hinode =>
    obtain ⟨htype, hnlink⟩ := hinode hvalid.1
    have hexists := hvalid.hasDirectory htree hdir
    have hadded := added_of_created hexists hlooked hnegative htype hnlink
    have hplaced : WellPlaced (looked.add dir dentry inode creation) := by
      obtain ⟨entry, hentry, -⟩ := hexists
      have hlookup := htree.well_placed.lookupOneLen creation.name (lt_length_of_entry hentry)
      rw [hlooked] at hlookup
      exact hlookup.of_place_eq (place_add looked dir dentry inode creation)
    have hmount := myfsMount_treeStep tree creation
    rw [hstep] at hmount ⊢
    refine ⟨htree.of_added hadded hvalid.1 hexists hmount hplaced,
      ⟨fun other hreturned ↦ ⟨dir, hdir, ?_⟩, fun hfailed ↦ ?_⟩⟩
    · rw [hresult] at hreturned
      cases hreturned
      rwa [hstep]
    · rw [hresult] at hfailed
      cases hfailed

/-- The mounted file system has the invariant. -/
theorem treeInvariant_mounted (now : Timespec) : TreeInvariant (Tree.mounted now) := by
  have hroot : ∀ address entry, (Tree.mounted now).entry address = some entry →
      address = 0 ∧ entry = ⟨"/", none, rootInode now⟩ := by
    intro address entry hentry
    have hlt : address < 1 := lt_length_of_entry hentry
    have hzero : address = 0 := by omega
    subst hzero
    exact ⟨rfl, (Option.some.inj hentry).symm⟩
  have hchildren : ∀ parent, (Tree.mounted now).childDirs parent = ∅ := by
    intro parent
    refine Finset.eq_empty_of_forall_notMem fun address hchild ↦ ?_
    obtain ⟨entry, hentry, hparent, -⟩ := mem_childDirs.mp hchild
    obtain ⟨-, rfl⟩ := hroot address entry hentry
    cases hparent
  have hdirectory : (rootInode now).IsDirectory := by
    show (0o040755 : BitVec 16) &&& sIfmt.setWidth 16 = sIfdir.setWidth 16
    decide
  refine ⟨?_, ?_, ?_, ?_, ⟨0, rfl, _, rfl, hdirectory⟩, ?_, ?_⟩
  · intro address entry hentry _
    obtain ⟨-, rfl⟩ := hroot address entry hentry
    rw [hchildren]
    rfl
  · intro address entry hentry hregular
    obtain ⟨-, rfl⟩ := hroot address entry hentry
    exact absurd (hdirectory.symm.trans hregular) (by decide)
  · intro address entry hentry
    obtain ⟨-, rfl⟩ := hroot address entry hentry
    exact Or.inl hdirectory
  · intro address entry parent hentry hparent
    obtain ⟨-, rfl⟩ := hroot address entry hentry
    cases hparent
  · intro first second place hfirst hsecond
    obtain ⟨dentry, hdentry, -⟩ := Option.map_eq_some_iff.mp hfirst
    obtain ⟨other, hother, -⟩ := Option.map_eq_some_iff.mp hsecond
    have hfirstLt : first < 1 := (List.getElem?_eq_some_iff.mp hdentry).1
    have hsecondLt : second < 1 := (List.getElem?_eq_some_iff.mp hother).1
    omega
  · intro address parent name hplace
    obtain ⟨dentry, hdentry, hpair⟩ := Option.map_eq_some_iff.mp hplace
    have hzero : address = 0 := by
      have hlt : address < 1 := (List.getElem?_eq_some_iff.mp hdentry).1
      omega
    subst hzero
    cases hdentry
    cases hpair

/-- After every run of valid creations on the mounted file system the invariant holds, and every
creation of the run has its effect and no other. -/
theorem run_treeInvariant_and_effects (now : Timespec) {creations : List Creation}
    (hvalid : Along treeStep (fun tree creation ↦ creation.Valid tree) (Tree.mounted now)
      creations) :
    TreeInvariant (run treeStep (Tree.mounted now) creations) ∧
      Along treeStep CreationEffect (Tree.mounted now) creations := by
  have hstep : ∀ tree creation, TreeInvariant tree → creation.Valid tree →
      TreeInvariant (treeStep tree creation) :=
    fun tree creation htree hcreation ↦ (treeInvariant_treeStep htree hcreation).1
  refine ⟨run_induction hstep (treeInvariant_mounted now) hvalid, ?_⟩
  exact along_of_invariant hstep
    (fun tree creation htree hcreation ↦ (treeInvariant_treeStep htree hcreation).2)
    (treeInvariant_mounted now) hvalid

/-- A kernel in which every call succeeds, or in which `new_inode` fails. -/
def kernelWith (newInode : Bool) : KernelCalls := ⟨none, newInode, ⟨0, 0, 0, []⟩, ⟨0, 0⟩⟩

/-- The directory `First` with the file `one`, a second `one` that is refused, and a directory in
`First` for which there is no inode at first. -/
def firstCreations : List Creation :=
  [.dir "First" none (kernelWith true),
    .file "one" (sIfreg ||| sIrugo ||| sIwusr) (some 1) 0 (some 1) (kernelWith true),
    .file "one" (sIfreg ||| sIrugo) (some 1) 0 (some 1) (kernelWith true),
    .dir "inner" (some 1) (kernelWith false),
    .dir "inner" (some 1) (kernelWith true)]

theorem firstCreations_treeInvariant :
    TreeInvariant (run treeStep (Tree.mounted ⟨0, 0⟩) firstCreations) ∧
      Along treeStep CreationEffect (Tree.mounted ⟨0, 0⟩) firstCreations :=
  run_treeInvariant_and_effects ⟨0, 0⟩ (by decide +kernel)

end KernelExperiments.Myfs
