import KernelExperiments.Myfs.Entries
import Mathlib.Data.List.Count

/-!
# The references of the dentries

A creation gets a reference with the dentry that it looks up, takes a second one with `dget` when it
gives the dentry an inode, and owes the first one back. At unmount `kill_litter_super` drops one
reference of every dentry that was created. `ReferenceBalance` says that the creations of a run
leave one reference each when they succeed and none when they fail, and that after the unmount every
count is back to what it was.

No path of `myfs_creat_by_name` gives the first reference back. So after the unmount every dentry
has one reference too many for each time it was looked up (`refCountAfterUnmount_run`), and the
references balance in exactly the runs in which every lookup fails (`referenceBalance_iff`).
-/

set_option autoImplicit false
set_option relaxedAutoImplicit false

namespace KernelExperiments.Myfs

open Foundation

/-! ### Counting references -/

/-- The reference count of the dentry at an address, and zero where there is no dentry. -/
def Tree.refCount (tree : Tree) (address : ℕ) : ℤ := (tree.dcache[address]?).elim 0 Dentry.count

/-- The reference count after an unmount: `kill_litter_super` drops one reference of every dentry
that was created since `before`. -/
def refCountAfterUnmount (before after : Tree) (address : ℕ) : ℤ :=
  after.refCount address -
    if (after.entry address).isSome ∧ (before.entry address).isNone then 1 else 0

/-- A creation that returns a dentry leaves one more reference to it, and one that returns `NULL`
leaves none. -/
def PinsOnce (tree : Tree) (creation : Creation) : Prop :=
  ∀ address, (treeStep tree creation).refCount address =
    tree.refCount address + if (creation.result tree).2 = some address then 1 else 0

/-- The references of a run balance. -/
structure ReferenceBalance (tree : Tree) (creations : List Creation) : Prop where
  balanced : ∀ address,
    refCountAfterUnmount tree (run treeStep tree creations) address = tree.refCount address
  pins : Along treeStep PinsOnce tree creations

/-- The creation looks nothing up: it has no directory, or `lookup_one_len` fails. -/
def Creation.LookupFails (tree : Tree) (creation : Creation) : Prop :=
  creation.directory tree = none ∨ creation.kernel.lookupError ≠ none

/-- The dentry that a creation looks up. -/
def Creation.lookedUp (tree : Tree) (creation : Creation) : Option ℕ :=
  match creation.kernel.lookupError with
  | some _ => none
  | none => (creation.directory tree).map fun dir ↦ (tree.lookupOneLen creation.name dir).2

/-! ### What the kernel functions do to the counts -/

/-- The counts after a change of one dentry that keeps its count. -/
theorem refCount_modify_of_count_eq (tree : Tree) (dentry : ℕ) {change : Dentry → Dentry}
    (hchange : ∀ old, (change old).count = old.count) (address : ℕ) :
    (tree.modify dentry change).refCount address = tree.refCount address := by
  calc (tree.modify dentry change).refCount address
      = (((tree.modify dentry change).dcache[address]?).map Dentry.count).elim 0 id := by
        rw [Option.elim_map]
        rfl
    _ = ((tree.dcache[address]?).map Dentry.count).elim 0 id :=
        congrArg (Option.elim · 0 id) (map_getElem?_modify tree dentry hchange address)
    _ = tree.refCount address := by
        rw [Option.elim_map]
        rfl

@[simp] theorem refCount_modifyInode (tree : Tree) (dentry : ℕ) (change : Inode → Inode)
    (address : ℕ) : (tree.modifyInode dentry change).refCount address = tree.refCount address := by
  refine refCount_modify_of_count_eq tree dentry ?_ address
  exact fun _ ↦ rfl

@[simp] theorem refCount_dInstantiate (tree : Tree) (dentry : ℕ) (inode : Inode) (address : ℕ) :
    (tree.dInstantiate dentry inode).refCount address = tree.refCount address := by
  refine refCount_modify_of_count_eq tree dentry ?_ address
  exact fun _ ↦ rfl

/-- `dget` takes one reference of a dentry that exists. -/
theorem refCount_dget {tree : Tree} {dentry : ℕ} (hdentry : (tree.place dentry).isSome)
    (address : ℕ) :
    (tree.dget dentry).refCount address =
      tree.refCount address + if address = dentry then 1 else 0 := by
  obtain ⟨place, hplace⟩ := Option.isSome_iff_exists.mp hdentry
  obtain ⟨old, hold, -⟩ := Option.map_eq_some_iff.mp hplace
  unfold Tree.refCount Tree.dget Tree.modify
  rw [List.getElem?_modify]
  by_cases hsame : address = dentry
  · subst hsame
    simp only [if_true, hold, Option.map_eq_map, Option.map_some, Option.elim_some]
  · simp only [if_neg hsame, if_neg (Ne.symm hsame), Option.map_eq_map, Option.map_id',
      Int.add_zero]

/-- A lookup takes one reference of the dentry that it returns. -/
theorem refCount_lookupOneLen (tree : Tree) (name : String) (parent address : ℕ) :
    (tree.lookupOneLen name parent).1.refCount address = tree.refCount address +
      if address = (tree.lookupOneLen name parent).2 then 1 else 0 := by
  unfold Tree.lookupOneLen
  cases hfind : tree.find parent name with
  | some dentry => exact refCount_dget (by rw [place_of_find hfind]; rfl) address
  | none =>
    unfold Tree.refCount
    dsimp only
    by_cases hold : address < tree.dcache.length
    · rw [List.getElem?_append_left hold, if_neg (Nat.ne_of_lt hold), Int.add_zero]
    · rw [List.getElem?_append_right (Nat.not_lt.mp hold),
        List.getElem?_eq_none (Nat.not_lt.mp hold)]
      by_cases hsame : address = tree.dcache.length
      · rw [if_pos hsame, hsame, Nat.sub_self]
        rfl
      · obtain ⟨distance, hdistance⟩ : ∃ distance, address - tree.dcache.length = distance + 1 :=
          ⟨address - tree.dcache.length - 1, by omega⟩
        rw [if_neg hsame, hdistance]
        rfl

/-- An addition takes one reference of the dentry. -/
theorem refCount_add {tree : Tree} {dentry : ℕ} (hdentry : (tree.place dentry).isSome) (dir : ℕ)
    (inode : Inode) (creation : Creation) (address : ℕ) :
    (tree.add dir dentry inode creation).refCount address =
      tree.refCount address + if address = dentry then 1 else 0 := by
  have hget : ((tree.dInstantiate dentry inode).dget dentry).refCount address =
      tree.refCount address + if address = dentry then 1 else 0 := by
    rw [refCount_dget (by rwa [place_dInstantiate]), refCount_dInstantiate]
  unfold Tree.add
  dsimp only
  by_cases hdirectory : creation.MakesDirectory
  · rw [if_pos hdirectory, refCount_modifyInode, refCount_modifyInode, hget]
  · rw [if_neg hdirectory, refCount_modifyInode, hget]

/-- An addition makes the dentry an entry, and no other. -/
theorem isSome_entry_add {tree : Tree} {dir dentry : ℕ} {name : String}
    (hplace : tree.place dentry = some (some dir, name)) (inode : Inode) (creation : Creation)
    (address : ℕ) :
    ((tree.add dir dentry inode creation).entry address).isSome =
      (decide (address = dentry) || (tree.entry address).isSome) := by
  have hget : (((tree.dInstantiate dentry inode).dget dentry).entry address).isSome =
      (decide (address = dentry) || (tree.entry address).isSome) := by
    rw [entry_dget, entry_dInstantiate hplace]
    by_cases hsame : address = dentry
    · rw [if_pos hsame, decide_eq_true hsame]
      rfl
    · rw [if_neg hsame, decide_eq_false hsame, Bool.false_or]
  unfold Tree.add
  dsimp only
  split_ifs
  · rw [entry_modifyInode, entry_modifyInode, Option.isSome_map, Option.isSome_map, hget]
  · rw [entry_modifyInode, Option.isSome_map, hget]

/-! ### Where the references go -/

/-- One for an entry: the reference that keeps it in the file system. -/
def Tree.pins (tree : Tree) (address : ℕ) : ℤ := if (tree.entry address).isSome then 1 else 0

/-- A creation takes a reference for the lookup and one for the entry it adds, and adds the entry of
the dentry it returns. -/
theorem refCount_treeStep (tree : Tree) (creation : Creation) (address : ℕ) :
    (treeStep tree creation).refCount address = tree.refCount address +
        (if creation.lookedUp tree = some address then 1 else 0) +
        (if (creation.result tree).2 = some address then 1 else 0) ∧
      (treeStep tree creation).pins address =
        tree.pins address + if (creation.result tree).2 = some address then 1 else 0 := by
  obtain ⟨result, hresult, hstep, houtcome⟩ := exists_outcome tree creation
  rw [hstep, hresult]
  cases houtcome with
  | notLookedUp hearly =>
    have hnone : creation.lookedUp tree = none := by
      unfold Creation.lookedUp
      cases hlookup : creation.kernel.lookupError with
      | some pointer => rfl
      | none =>
        rcases hearly with hdir | herror
        · rw [hdir]
          rfl
        · exact absurd hlookup herror
    simp [hnone]
  | @notCreated dir hdir hlookup =>
    have hlooked : creation.lookedUp tree = some (tree.lookupOneLen creation.name dir).2 := by
      simp only [Creation.lookedUp, hlookup, hdir, Option.map_some]
    refine ⟨?_, ?_⟩
    · rw [refCount_lookupOneLen, hlooked]
      simp only [Option.some.injEq, @eq_comm ℕ address, reduceCtorEq, if_false, Int.add_zero]
    · unfold Tree.pins
      rw [entry_lookupOneLen]
      simp only [reduceCtorEq, if_false, Int.add_zero]
  | @created dir dentry looked inode hdir hlookup hlooked hnegative _ =>
    have hfound : creation.lookedUp tree = some dentry := by
      simp only [Creation.lookedUp, hlookup, hdir, hlooked, Option.map_some]
    have hplace : looked.place dentry = some (some dir, creation.name) := by
      have hplaces := place_lookupOneLen tree creation.name dir dentry
      rwa [hlooked, if_pos rfl] at hplaces
    have hentry : ∀ address, looked.entry address = tree.entry address := by
      intro address
      rw [← entry_lookupOneLen tree creation.name dir address, hlooked]
    have hcount : looked.refCount address =
        tree.refCount address + if address = dentry then 1 else 0 := by
      have hlookedCount := refCount_lookupOneLen tree creation.name dir address
      rwa [hlooked] at hlookedCount
    refine ⟨?_, ?_⟩
    · rw [refCount_add (by rw [hplace]; rfl), hcount, hfound]
      simp only [Option.some.injEq, @eq_comm ℕ address]
    · unfold Tree.pins
      rw [isSome_entry_add hplace, hentry]
      by_cases hsame : address = dentry
      · subst hsame
        rw [← hentry, entry_eq_none_of_dInode hnegative]
        simp
      · simp [hsame, Ne.symm hsame]

/-- In a run, the references beyond one for each entry grow by the number of lookups. -/
theorem refCount_run (tree : Tree) (creations : List Creation) (address : ℕ) :
    (run treeStep tree creations).refCount address - (run treeStep tree creations).pins address =
      tree.refCount address - tree.pins address +
        (outputs treeStep (fun tree creation ↦ creation.lookedUp tree) tree creations).count
          (some address) := by
  induction creations generalizing tree with
  | nil => simp [outputs]
  | cons creation rest ih =>
    obtain ⟨hcount, hpins⟩ := refCount_treeStep tree creation address
    rw [run_cons, ih, outputs, List.count_cons, hcount, hpins]
    simp only [beq_iff_eq]
    split_ifs <;> omega

/-- An entry stays. -/
theorem pins_le_pins_run (tree : Tree) (creations : List Creation) (address : ℕ) :
    tree.pins address ≤ (run treeStep tree creations).pins address := by
  have hstep : ∀ other creation, tree.pins address ≤ other.pins address →
      tree.pins address ≤ (treeStep other creation).pins address := by
    intro other creation hle
    obtain ⟨-, hpins⟩ := refCount_treeStep other creation address
    rw [hpins]
    split_ifs <;> omega
  exact run_invariant hstep (Int.le_refl _) creations

/-- After the unmount, a dentry has one reference too many for each time it was looked up. -/
theorem refCountAfterUnmount_run (tree : Tree) (creations : List Creation) (address : ℕ) :
    refCountAfterUnmount tree (run treeStep tree creations) address = tree.refCount address +
      (outputs treeStep (fun tree creation ↦ creation.lookedUp tree) tree creations).count
        (some address) := by
  have hrun := refCount_run tree creations address
  have hstays := pins_le_pins_run tree creations address
  unfold Tree.pins at hrun hstays
  unfold refCountAfterUnmount
  cases hbefore : tree.entry address with
  | none =>
    simp only [hbefore, Option.isSome_none, Option.isNone_none, and_true] at hrun ⊢
    simp only [Bool.false_eq_true, if_false] at hrun
    omega
  | some old =>
    simp only [hbefore, Option.isSome_some, Option.isNone_some, and_false, if_true, if_false,
      Bool.false_eq_true] at hrun hstays ⊢
    split_ifs at hrun hstays <;> omega

/-! ### Exactly when the references balance -/

/-- A creation that looks nothing up leaves the tree and returns `NULL`. -/
theorem result_of_lookupFails {tree : Tree} {creation : Creation}
    (hfails : creation.LookupFails tree) : creation.result tree = (tree, none) := by
  obtain ⟨result, hresult, -, houtcome⟩ := exists_outcome tree creation
  rw [hresult]
  cases houtcome with
  | notLookedUp _ => rfl
  | notCreated hdir hlookup =>
    rcases hfails with hnone | herror
    · rw [hdir] at hnone
      cases hnone
    · exact absurd hlookup herror
  | created hdir hlookup _ _ _ =>
    rcases hfails with hnone | herror
    · rw [hdir] at hnone
      cases hnone
    · exact absurd hlookup herror

/-- A creation looks nothing up exactly when its lookup fails. -/
theorem lookedUp_eq_none_iff (tree : Tree) (creation : Creation) :
    creation.lookedUp tree = none ↔ creation.LookupFails tree := by
  unfold Creation.lookedUp Creation.LookupFails
  cases creation.kernel.lookupError with
  | some pointer => simp
  | none => simp

/-- The references of a run balance exactly when every lookup of the run fails. -/
theorem referenceBalance_iff (tree : Tree) (creations : List Creation) :
    ReferenceBalance tree creations ↔
      Along treeStep (fun tree creation ↦ creation.LookupFails tree) tree creations := by
  constructor
  · intro hbalance
    refine hbalance.pins.mono fun tree creation hpins ↦ ?_
    by_contra hfound
    rw [← lookedUp_eq_none_iff] at hfound
    obtain ⟨address, haddress⟩ := Option.ne_none_iff_exists'.mp hfound
    have hcount := (refCount_treeStep tree creation address).1
    rw [hpins address, if_pos haddress] at hcount
    omega
  · intro hfails
    refine ⟨fun address ↦ ?_, hfails.mono fun tree creation hcreation address ↦ ?_⟩
    · have hnone : ∀ dentry ∈ outputs treeStep (fun tree creation ↦ creation.lookedUp tree) tree
          creations, dentry = none :=
        forall_mem_outputs
          (hfails.mono fun tree creation ↦ (lookedUp_eq_none_iff tree creation).mpr)
      rw [refCountAfterUnmount_run, List.count_eq_zero.mpr]
      · exact Int.add_zero _
      · exact fun hmem ↦ Option.some_ne_none address (hnone _ hmem)
    · rw [treeStep, result_of_lookupFails hcreation]
      simp

/-- The directory `First` on the mounted file system. -/
def firstOnly : List Creation := [.dir "First" none ⟨none, true, ⟨0, 0, 0, []⟩, ⟨0, 0⟩⟩]

/-- After the unmount, the dentry of `First` still has a reference. -/
theorem not_referenceBalance_firstOnly : ¬ ReferenceBalance (Tree.mounted ⟨0, 0⟩) firstOnly := by
  intro hbalance
  have hcount := hbalance.balanced 1
  revert hcount
  decide +kernel

end KernelExperiments.Myfs
