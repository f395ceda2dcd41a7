import KernelExperiments.Myfs.Tree

/-!
# Entries and places

Two views of the dentries of myfs. An entry is a dentry that is not negative, without its reference
count: it is what the file system shows. The place of a dentry, negative or not, is its directory
and its name, and it is what a lookup finds it by; the places form a tree (`WellPlaced`).

Here is what each kernel function does to either view, and, in `creation_outcome`, all that a
creation can do: it gives up before the lookup or after it, or it adds an inode at the dentry that
was looked up (`Tree.add`).
-/

set_option autoImplicit false
set_option relaxedAutoImplicit false

namespace KernelExperiments.Myfs

/-! ### Entries -/

/-- The type bits of an inode. -/
def Inode.type (inode : Inode) : BitVec 16 := inode.iMode &&& sIfmt.setWidth 16

/-- The inode is a directory. -/
def Inode.IsDirectory (inode : Inode) : Prop := inode.type = sIfdir.setWidth 16

instance decidableIsDirectory (inode : Inode) : Decidable inode.IsDirectory :=
  inferInstanceAs (Decidable (_ = _))

/-- The inode is a regular file. -/
def Inode.IsRegular (inode : Inode) : Prop := inode.type = sIfreg.setWidth 16

/-- An entry of the file system: a dentry with an inode, without its reference count. -/
structure Entry where
  name : String
  parent : Option ℕ
  inode : Inode
  deriving DecidableEq

/-- The entry of a dentry that is not negative. -/
def Dentry.entry (dentry : Dentry) : Option Entry :=
  dentry.inode.map fun inode ↦ ⟨dentry.name, dentry.parent, inode⟩

/-- The entry at an address. -/
def Tree.entry (tree : Tree) (address : ℕ) : Option Entry :=
  (tree.dcache[address]?).bind Dentry.entry

/-- The directory and the name of the dentry at an address. -/
def Tree.place (tree : Tree) (address : ℕ) : Option (Option ℕ × String) :=
  (tree.dcache[address]?).map fun dentry ↦ (dentry.parent, dentry.name)

/-! ### What the kernel functions do to the entries -/

/-- The entries after a change of one dentry. -/
theorem entry_modify (tree : Tree) (dentry : ℕ) (change : Dentry → Dentry) (address : ℕ) :
    (tree.modify dentry change).entry address =
      if dentry = address then (tree.dcache[address]?).bind fun old ↦ (change old).entry
      else tree.entry address := by
  unfold Tree.entry Tree.modify
  rw [List.getElem?_modify]
  by_cases hsame : dentry = address
  · simp only [if_pos hsame, Option.map_eq_map, Option.bind_map]
    rfl
  · simp only [if_neg hsame, Option.map_eq_map, Option.map_id']

/-- What is seen of the dentries after a change of one that does not show. -/
theorem map_getElem?_modify {View : Type*} (tree : Tree) (dentry : ℕ) {change : Dentry → Dentry}
    {view : Dentry → View} (hview : ∀ old, view (change old) = view old) (address : ℕ) :
    ((tree.modify dentry change).dcache[address]?).map view =
      (tree.dcache[address]?).map view := by
  unfold Tree.modify
  rw [List.getElem?_modify]
  cases tree.dcache[address]? with
  | none => rfl
  | some old =>
    by_cases hsame : dentry = address
    · simp only [if_pos hsame, Option.map_eq_map, Option.map_some, hview old]
    · simp only [if_neg hsame, Option.map_eq_map, Option.map_some]

/-- The places after a change of one dentry that keeps its place. -/
theorem place_modify (tree : Tree) (dentry : ℕ) {change : Dentry → Dentry}
    (hchange : ∀ old, (change old).parent = old.parent ∧ (change old).name = old.name)
    (address : ℕ) : (tree.modify dentry change).place address = tree.place address := by
  refine map_getElem?_modify tree dentry (fun old ↦ ?_) address
  rw [(hchange old).1, (hchange old).2]

@[simp] theorem place_dget (tree : Tree) (dentry address : ℕ) :
    (tree.dget dentry).place address = tree.place address := by
  refine place_modify tree dentry ?_ address
  exact fun _ ↦ ⟨rfl, rfl⟩

@[simp] theorem place_modifyInode (tree : Tree) (dentry : ℕ) (change : Inode → Inode)
    (address : ℕ) : (tree.modifyInode dentry change).place address = tree.place address := by
  refine place_modify tree dentry ?_ address
  exact fun _ ↦ ⟨rfl, rfl⟩

@[simp] theorem place_dInstantiate (tree : Tree) (dentry : ℕ) (inode : Inode) (address : ℕ) :
    (tree.dInstantiate dentry inode).place address = tree.place address := by
  refine place_modify tree dentry ?_ address
  exact fun _ ↦ ⟨rfl, rfl⟩

/-- A reference is not part of an entry. -/
@[simp] theorem entry_dget (tree : Tree) (dentry address : ℕ) :
    (tree.dget dentry).entry address = tree.entry address := by
  rw [Tree.dget, entry_modify]
  by_cases hsame : dentry = address
  · rw [if_pos hsame]
    rfl
  · rw [if_neg hsame]

/-- The entries after a change of one inode. -/
theorem entry_modifyInode (tree : Tree) (dentry : ℕ) (change : Inode → Inode) (address : ℕ) :
    (tree.modifyInode dentry change).entry address = (tree.entry address).map fun entry ↦
      if address = dentry then { entry with inode := change entry.inode } else entry := by
  rw [Tree.modifyInode, entry_modify]
  by_cases hsame : dentry = address
  · subst hsame
    simp only [if_true, Tree.entry]
    cases tree.dcache[dentry]? with
    | none => rfl
    | some old => cases hinode : old.inode <;> simp [Dentry.entry, hinode]
  · rw [if_neg hsame]
    simp only [if_neg (Ne.symm hsame), Option.map_id']

/-- The entries after a dentry got an inode. -/
theorem entry_dInstantiate {tree : Tree} {dentry : ℕ} {parent : Option ℕ} {name : String}
    (hplace : tree.place dentry = some (parent, name)) (inode : Inode) (address : ℕ) :
    (tree.dInstantiate dentry inode).entry address =
      if address = dentry then some ⟨name, parent, inode⟩ else tree.entry address := by
  obtain ⟨old, hold, hpair⟩ := Option.map_eq_some_iff.mp hplace
  obtain ⟨rfl, rfl⟩ := Prod.mk.inj hpair
  rw [Tree.dInstantiate, entry_modify]
  by_cases hsame : dentry = address
  · subst hsame
    rw [if_pos rfl, if_pos rfl, hold]
    rfl
  · rw [if_neg hsame, if_neg (Ne.symm hsame)]

/-- A dentry without an inode is no entry. -/
theorem entry_eq_none_of_dInode {tree : Tree} {dentry : ℕ} (hnegative : tree.dInode dentry = none) :
    tree.entry dentry = none := by
  unfold Tree.dInode at hnegative
  unfold Tree.entry
  cases hdentry : tree.dcache[dentry]? with
  | none => rfl
  | some old =>
    rw [hdentry, Option.bind_some] at hnegative
    rw [Option.bind_some, Dentry.entry, hnegative, Option.map_none]

/-- What is seen of the dentries with a new one that does not show. -/
theorem bind_getElem?_append {View : Type*} (dcache : List Dentry) {dentry : Dentry}
    {view : Dentry → Option View} (hview : view dentry = none) (address : ℕ) :
    ((dcache ++ [dentry])[address]?).bind view = (dcache[address]?).bind view := by
  by_cases hold : address < dcache.length
  · rw [List.getElem?_append_left hold]
  · rw [List.getElem?_append_right (Nat.not_lt.mp hold),
      List.getElem?_eq_none (Nat.not_lt.mp hold)]
    cases address - dcache.length with
    | zero => exact hview
    | succ distance => rfl

/-- A lookup changes no entry. -/
theorem entry_lookupOneLen (tree : Tree) (name : String) (parent address : ℕ) :
    (tree.lookupOneLen name parent).1.entry address = tree.entry address := by
  unfold Tree.lookupOneLen
  cases tree.find parent name with
  | some dentry => exact entry_dget tree dentry address
  | none => exact bind_getElem?_append tree.dcache rfl address

theorem myfsMount_lookupOneLen (tree : Tree) (name : String) (parent : ℕ) :
    (tree.lookupOneLen name parent).1.myfsMount = tree.myfsMount := by
  unfold Tree.lookupOneLen
  cases tree.find parent name with
  | some dentry => rfl
  | none => rfl

/-- A dentry that is found is in the directory and has the name. -/
theorem place_of_find {tree : Tree} {parent dentry : ℕ} {name : String}
    (hfind : tree.find parent name = some dentry) :
    tree.place dentry = some (some parent, name) := by
  obtain ⟨hlt, hfound, -⟩ := List.findIdx?_eq_some_iff_getElem.mp hfind
  obtain ⟨hparent, hname⟩ := of_decide_eq_true hfound
  unfold Tree.place
  rw [List.getElem?_eq_getElem hlt, Option.map_some, hparent, hname]

/-- A name that is not found is nowhere in the directory. -/
theorem place_ne_of_find_eq_none {tree : Tree} {parent : ℕ} {name : String}
    (hfind : tree.find parent name = none) (address : ℕ) :
    tree.place address ≠ some (some parent, name) := by
  intro hplace
  obtain ⟨dentry, hdentry, hpair⟩ := Option.map_eq_some_iff.mp hplace
  obtain ⟨hparent, hname⟩ := Prod.mk.inj hpair
  have hmissing := List.findIdx?_eq_none_iff.mp hfind dentry (List.mem_of_getElem? hdentry)
  exact of_decide_eq_false hmissing ⟨hparent, hname⟩

/-- A lookup keeps the places, and the dentry it returns is in the directory and has the name. -/
theorem place_lookupOneLen (tree : Tree) (name : String) (parent address : ℕ) :
    (tree.lookupOneLen name parent).1.place address =
      if address = (tree.lookupOneLen name parent).2 then some (some parent, name)
      else tree.place address := by
  unfold Tree.lookupOneLen
  cases hfind : tree.find parent name with
  | some dentry =>
    dsimp only
    rw [place_dget]
    by_cases hsame : address = dentry
    · rw [if_pos hsame, hsame, place_of_find hfind]
    · rw [if_neg hsame]
  | none =>
    unfold Tree.place
    dsimp only
    by_cases hold : address < tree.dcache.length
    · rw [List.getElem?_append_left hold, if_neg (Nat.ne_of_lt hold)]
    · by_cases hsame : address = tree.dcache.length
      · rw [if_pos hsame, hsame, List.getElem?_append_right (Nat.le_refl _), Nat.sub_self]
        rfl
      · rw [if_neg hsame, List.getElem?_eq_none (by rw [List.length_append]; simp; omega),
          List.getElem?_eq_none (Nat.not_lt.mp hold)]

/-- The dentries of the file system are a tree by their places: no directory has a name twice, and a
directory comes before the dentries in it. -/
structure WellPlaced (tree : Tree) : Prop where
  names_unique : ∀ first second place, tree.place first = some place →
    tree.place second = some place → first = second
  parent_lt : ∀ address parent name, tree.place address = some (some parent, name) →
    parent < address

/-- What keeps the places keeps them a tree. -/
theorem WellPlaced.of_place_eq {tree next : Tree} (htree : WellPlaced tree)
    (hplace : ∀ address, next.place address = tree.place address) : WellPlaced next := by
  refine ⟨fun first second place hfirst hsecond ↦ ?_, fun address parent name haddress ↦ ?_⟩
  · rw [hplace] at hfirst hsecond
    exact htree.names_unique first second place hfirst hsecond
  · rw [hplace] at haddress
    exact htree.parent_lt address parent name haddress

/-- A lookup in a directory that exists keeps the dentries a tree. -/
theorem WellPlaced.lookupOneLen {tree : Tree} (htree : WellPlaced tree) (name : String) {dir : ℕ}
    (hdir : dir < tree.dcache.length) : WellPlaced (tree.lookupOneLen name dir).1 := by
  have hfound : ∀ address, tree.place address = some (some dir, name) →
      address = (tree.lookupOneLen name dir).2 := by
    intro address hplace
    cases hfind : tree.find dir name with
    | none => exact absurd hplace (place_ne_of_find_eq_none hfind address)
    | some dentry =>
      rw [htree.names_unique address dentry _ hplace (place_of_find hfind), Tree.lookupOneLen,
        hfind]
  have hbefore : dir < (tree.lookupOneLen name dir).2 := by
    cases hfind : tree.find dir name with
    | none => rwa [Tree.lookupOneLen, hfind]
    | some dentry =>
      rw [Tree.lookupOneLen, hfind]
      exact htree.parent_lt dentry dir name (place_of_find hfind)
  refine ⟨fun first second place hfirst hsecond ↦ ?_, fun address parent other haddress ↦ ?_⟩
  · rw [place_lookupOneLen] at hfirst hsecond
    by_cases hfirstNew : first = (tree.lookupOneLen name dir).2
    · rw [if_pos hfirstNew] at hfirst
      by_cases hsecondNew : second = (tree.lookupOneLen name dir).2
      · rw [hfirstNew, hsecondNew]
      · rw [if_neg hsecondNew, ← hfirst] at hsecond
        exact absurd (hfound second hsecond) hsecondNew
    · rw [if_neg hfirstNew] at hfirst
      by_cases hsecondNew : second = (tree.lookupOneLen name dir).2
      · rw [if_pos hsecondNew, ← hfirst] at hsecond
        exact absurd (hfound first hsecond.symm) hfirstNew
      · rw [if_neg hsecondNew] at hsecond
        exact htree.names_unique first second place hfirst hsecond
  · rw [place_lookupOneLen] at haddress
    by_cases hnew : address = (tree.lookupOneLen name dir).2
    · rw [if_pos hnew] at haddress
      obtain ⟨hparent, -⟩ := Prod.mk.inj (Option.some.inj haddress)
      rwa [hnew, ← Option.some.inj hparent]
    · rw [if_neg hnew] at haddress
      exact htree.parent_lt address parent other haddress

/-! ### What a creation can do -/

/-- The name of a creation. -/
def Creation.name : Creation → String
  | .file name _ _ _ _ _ => name
  | .dir name _ _ => name

/-- The mode of a creation. -/
def Creation.mode : Creation → BitVec 32
  | .file _ mode _ _ _ _ => mode
  | .dir _ _ _ => sIfdir ||| sIrwxu ||| sIrugo

/-- The parent of a creation, or `NULL`. -/
def Creation.parent : Creation → Option ℕ
  | .file _ _ parent _ _ _ => parent
  | .dir _ parent _ => parent

/-- The directory of a creation: the parent, or the root for `NULL`. -/
def Creation.directory (tree : Tree) (creation : Creation) : Option ℕ :=
  creation.parent.or tree.myfsMount

/-- The private data of a creation. -/
def Creation.data : Creation → ℕ
  | .file _ _ _ data _ _ => data
  | .dir _ _ _ => 0

/-- The operations of a creation. -/
def Creation.fops : Creation → Option ℕ
  | .file _ _ _ _ fops _ => fops
  | .dir _ _ _ => none

/-- What the kernel supplies to a creation. -/
def Creation.kernel : Creation → KernelCalls
  | .file _ _ _ _ _ kernel => kernel
  | .dir _ _ kernel => kernel

/-- A creation asks for a directory. -/
abbrev Creation.MakesDirectory (creation : Creation) : Prop := creation.mode &&& sIfmt = sIfdir

/-- The type that a creation asks for is a directory or a regular file. -/
def Creation.OfKnownType (creation : Creation) : Prop :=
  creation.MakesDirectory ∨ creation.mode &&& sIfmt = sIfreg

instance decidableOfKnownType (creation : Creation) : Decidable creation.OfKnownType :=
  inferInstanceAs (Decidable (_ ∨ _))

/-- The tree after a dentry that was looked up in a directory got an inode, the directory a link for
a new directory in it, and the new inode its operations and private data. -/
def Tree.add (tree : Tree) (dir dentry : ℕ) (inode : Inode) (creation : Creation) : Tree :=
  let added := (tree.dInstantiate dentry inode).dget dentry
  let linked := if creation.MakesDirectory then added.modifyInode dir incNlink else added
  linked.modifyInode dentry (setFile creation.data creation.fops)

/-- What a creation leaves and returns. -/
inductive Outcome (tree : Tree) (creation : Creation) : Tree × Option ℕ → Prop
  | notLookedUp
    (hearly : creation.directory tree = none ∨ creation.kernel.lookupError ≠ none) :
    Outcome tree creation (tree, none)
  | notCreated {dir : ℕ} (hdir : creation.directory tree = some dir)
    (hlookup : creation.kernel.lookupError = none) :
    Outcome tree creation ((tree.lookupOneLen creation.name dir).1, none)
  | created {dir dentry : ℕ} {looked : Tree} {inode : Inode}
    (hdir : creation.directory tree = some dir)
    (hlookup : creation.kernel.lookupError = none)
    (hlooked : tree.lookupOneLen creation.name dir = (looked, dentry))
    (hnegative : looked.dInode dentry = none)
    (hinode : creation.OfKnownType → inode.type = (creation.mode &&& sIfmt).setWidth 16 ∧
      inode.iNlink = if creation.MakesDirectory then 2 else 1) :
    Outcome tree creation (looked.add dir dentry inode creation, some dentry)

/-- A mode that has a type has its bits. -/
theorem or_eq_of_type {mode type : BitVec 32} (htype : mode &&& sIfmt = type) :
    mode ||| type = mode := by
  subst htype
  ext bit hbit
  simp only [BitVec.getElem_or, BitVec.getElem_and]
  cases mode[bit] <;> rfl

/-- The inode of a directory has two links, and that of a regular file has one. -/
theorem myfsGetInode_spec {kernel : KernelCalls} {mode : BitVec 32} {inode : Inode}
    (htype : mode &&& sIfmt = sIfdir ∨ mode &&& sIfmt = sIfreg)
    (hinode : myfsGetInode kernel mode = some inode) :
    inode.type = (mode &&& sIfmt).setWidth 16 ∧
      inode.iNlink = if mode &&& sIfmt = sIfdir then 2 else 1 := by
  have hkinds : sIfdir ≠ sIfreg := by decide
  unfold myfsGetInode at hinode
  split_ifs at hinode with hnew hregular hdirectory
  · cases hinode
    refine ⟨BitVec.setWidth_and.symm, ?_⟩
    rw [hregular, if_neg hkinds.symm]
    rfl
  · cases hinode
    refine ⟨BitVec.setWidth_and.symm, ?_⟩
    rw [if_pos hdirectory]
    rfl
  · rcases htype with hdir | hreg
    · exact absurd hdir hdirectory
    · exact absurd hreg hregular

/-- What `myfs_mknod` does to the dentry: it fails and leaves it, or gives it an inode and takes a
reference. -/
theorem myfsMknod_cases (tree : Tree) (dentry : ℕ) (mode : BitVec 32) (kernel : KernelCalls) :
    myfsMknod tree dentry mode kernel = (tree, eperm) ∨
      ∃ inode, tree.dInode dentry = none ∧ myfsGetInode kernel mode = some inode ∧
        myfsMknod tree dentry mode kernel = ((tree.dInstantiate dentry inode).dget dentry, 0) := by
  unfold myfsMknod
  by_cases hpositive : tree.dInode dentry ≠ none
  · rw [if_pos hpositive]
    exact Or.inl rfl
  · rw [if_neg hpositive]
    cases hinode : myfsGetInode kernel mode with
    | none => exact Or.inl rfl
    | some inode => exact Or.inr ⟨inode, not_not.mp hpositive, rfl, rfl⟩

/-- What is made of a dentry that was looked up: nothing, or an inode that is linked in its
directory. -/
theorem myfsMkdir_or_myfsCreat_cases (looked : Tree) (dir dentry : ℕ) (creation : Creation) :
    ∃ made, made = (if creation.MakesDirectory then
        myfsMkdir looked dir dentry creation.mode creation.kernel
      else myfsCreat looked dentry creation.mode creation.kernel) ∧
      (made = (looked, eperm) ∨ ∃ inode, looked.dInode dentry = none ∧
        (creation.OfKnownType → inode.type = (creation.mode &&& sIfmt).setWidth 16 ∧
          inode.iNlink = if creation.MakesDirectory then 2 else 1) ∧
        made.2 = 0 ∧ made.1.modifyInode dentry (setFile creation.data creation.fops) =
          looked.add dir dentry inode creation) := by
  have heperm : eperm ≠ 0 := by decide
  by_cases hdirectory : creation.MakesDirectory
  · refine ⟨_, (if_pos hdirectory).symm, ?_⟩
    unfold myfsMkdir
    rw [or_eq_of_type hdirectory]
    rcases myfsMknod_cases looked dentry creation.mode creation.kernel with
      hfail | ⟨inode, hnegative, hinode, hmade⟩
    · rw [hfail]
      dsimp only
      rw [if_neg heperm]
      exact Or.inl rfl
    · rw [hmade]
      dsimp only
      rw [if_pos rfl]
      refine Or.inr ⟨inode, hnegative, fun htype ↦ myfsGetInode_spec htype hinode, rfl, ?_⟩
      simp only [Tree.add, if_pos hdirectory]
  · refine ⟨_, (if_neg hdirectory).symm, ?_⟩
    unfold myfsCreat
    rcases myfsMknod_cases looked dentry (creation.mode ||| sIfreg) creation.kernel with
      hfail | ⟨inode, hnegative, hinode, hmade⟩
    · exact Or.inl hfail
    · rw [hmade]
      refine Or.inr ⟨inode, hnegative, fun htype ↦ ?_, rfl, ?_⟩
      · rw [or_eq_of_type (htype.resolve_left hdirectory)] at hinode
        exact myfsGetInode_spec htype hinode
      · simp only [Tree.add, if_neg hdirectory]

/-- Both kinds of creations are calls of `myfs_creat_file`. -/
theorem result_eq_myfsCreatFile (tree : Tree) (creation : Creation) :
    creation.result tree = myfsCreatFile tree creation.name creation.mode creation.parent
      creation.data creation.fops creation.kernel := by
  cases creation with
  | file name mode parent data fops kernel => rfl
  | dir name parent kernel => rfl

/-- A creation has one of three outcomes. -/
theorem creation_outcome (tree : Tree) (creation : Creation) :
    Outcome tree creation (creation.result tree) := by
  have hefault : efault ≠ 0 := by decide
  have heperm : eperm ≠ 0 := by decide
  rw [result_eq_myfsCreatFile]
  unfold myfsCreatFile myfsCreatByName
  cases hdir : creation.parent.or tree.myfsMount with
  | none =>
    dsimp only
    rw [if_pos hefault]
    exact .notLookedUp (Or.inl hdir)
  | some dir =>
    cases hlookup : creation.kernel.lookupError with
    | some pointer =>
      dsimp only
      rw [if_pos (Int.ne_of_lt pointer.code_neg)]
      refine .notLookedUp (Or.inr ?_)
      rw [hlookup]
      exact Option.some_ne_none pointer
    | none =>
      dsimp only
      obtain ⟨made, hmade, hcases⟩ := myfsMkdir_or_myfsCreat_cases
        (tree.lookupOneLen creation.name dir).1 dir (tree.lookupOneLen creation.name dir).2 creation
      rw [← hmade]
      rcases hcases with hfail | ⟨inode, hnegative, hinode, hzero, hadd⟩
      · rw [hfail]
        dsimp only
        rw [if_pos heperm]
        exact .notCreated hdir hlookup
      · rw [if_neg (not_not.mpr hzero), hadd]
        exact .created hdir hlookup rfl hnegative hinode

/-- The outcome of a creation, with the tree that it leaves. -/
theorem exists_outcome (tree : Tree) (creation : Creation) :
    ∃ result, creation.result tree = result ∧ treeStep tree creation = result.1 ∧
      Outcome tree creation result :=
  ⟨_, rfl, rfl, creation_outcome tree creation⟩

/-- A dentry that was looked up and is negative was no entry before the lookup either, and has the
place that was asked for. -/
theorem fresh_of_lookupOneLen {tree looked : Tree} {name : String} {dir dentry : ℕ}
    (hlooked : tree.lookupOneLen name dir = (looked, dentry))
    (hnegative : looked.dInode dentry = none) :
    tree.entry dentry = none ∧ looked.place dentry = some (some dir, name) ∧
      ∀ address, looked.entry address = tree.entry address := by
  have hentry : ∀ address, looked.entry address = tree.entry address := by
    intro address
    rw [← entry_lookupOneLen tree name dir address, hlooked]
  have hplace := place_lookupOneLen tree name dir dentry
  rw [hlooked, if_pos rfl] at hplace
  refine ⟨?_, hplace, hentry⟩
  rw [← hentry]
  exact entry_eq_none_of_dInode hnegative

/-! ### What an addition does -/

theorem setFile_type (data : ℕ) (fops : Option ℕ) (inode : Inode) :
    (setFile data fops inode).type = inode.type := by
  unfold setFile
  split_ifs <;> cases fops <;> rfl

theorem setFile_iNlink (data : ℕ) (fops : Option ℕ) (inode : Inode) :
    (setFile data fops inode).iNlink = inode.iNlink := by
  unfold setFile
  split_ifs <;> cases fops <;> rfl

/-- An addition keeps the places. -/
theorem place_add (tree : Tree) (dir dentry : ℕ) (inode : Inode) (creation : Creation)
    (address : ℕ) : (tree.add dir dentry inode creation).place address = tree.place address := by
  unfold Tree.add
  dsimp only
  split_ifs
  · simp only [place_modifyInode, place_dget, place_dInstantiate]
  · simp only [place_modifyInode, place_dget, place_dInstantiate]

theorem myfsMount_add (tree : Tree) (dir dentry : ℕ) (inode : Inode) (creation : Creation) :
    (tree.add dir dentry inode creation).myfsMount = tree.myfsMount := by
  unfold Tree.add
  dsimp only
  split_ifs
  · rfl
  · rfl

/-- No creation changes the mount. -/
theorem myfsMount_treeStep (tree : Tree) (creation : Creation) :
    (treeStep tree creation).myfsMount = tree.myfsMount := by
  obtain ⟨result, -, hstep, houtcome⟩ := exists_outcome tree creation
  rw [hstep]
  cases houtcome with
  | notLookedUp _ => rfl
  | @notCreated dir _ _ => exact myfsMount_lookupOneLen tree creation.name dir
  | @created dir dentry looked inode _ _ hlooked _ _ =>
    rw [myfsMount_add, ← myfsMount_lookupOneLen tree creation.name dir, hlooked]

/-- The entries after an addition: one more, and a link more for the directory of a new directory.
-/
theorem entry_add {tree : Tree} {dir dentry : ℕ} {creation : Creation} (hne : dir ≠ dentry)
    (hplace : tree.place dentry = some (some dir, creation.name)) (inode : Inode) (address : ℕ) :
    (tree.add dir dentry inode creation).entry address =
      if address = dentry then
        some ⟨creation.name, some dir, setFile creation.data creation.fops inode⟩
      else (tree.entry address).map fun entry ↦
        if address = dir ∧ creation.MakesDirectory then
          { entry with inode := incNlink entry.inode }
        else entry := by
  unfold Tree.add
  dsimp only
  by_cases hdirectory : creation.MakesDirectory
  · rw [if_pos hdirectory, entry_modifyInode, entry_modifyInode, entry_dget,
      entry_dInstantiate hplace]
    by_cases hnew : address = dentry
    · subst hnew
      simp only [if_true, if_neg (Ne.symm hne), Option.map_some]
    · simp only [if_neg hnew, and_iff_left hdirectory, Option.map_map, Function.comp_def]
  · rw [if_neg hdirectory, entry_modifyInode, entry_dget, entry_dInstantiate hplace]
    by_cases hnew : address = dentry
    · subst hnew
      simp only [if_true, Option.map_some]
    · simp only [if_neg hnew, hdirectory, and_false, if_false]

end KernelExperiments.Myfs
