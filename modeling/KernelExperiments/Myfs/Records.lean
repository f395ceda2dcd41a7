import KernelExperiments.Foundation.Runs
import KernelExperiments.Myfs.Access

/-!
# The life of a record of an open file

`myfs_file_open` allocates a `myfs_file_info` for the file it opens and `myfs_file_release` frees
it. A run is any sequence of these calls, by any users on any inodes; the kernel calls `release`
once for each file that was opened, and never for one that was not. `RecordLaw` is what each call
owes: the live records are in bijection with the open files (`RecordsMatch`), a release frees the
record of its file, an open that fails leaves none behind, and the record of a file that was just
opened has been counted once.

Two slips break it. The permission check comes after the allocation and returns without freeing, so
a refused caller leaves a record that no file owns. And `open_count` is incremented from whatever
`kmalloc` found in the memory. `recordLaw_iff` shows that these are the only ones: the law holds in
exactly the runs in which no caller is refused once its record is allocated, and all records are
made of memory with a zero count.
-/

set_option autoImplicit false
set_option relaxedAutoImplicit false

namespace KernelExperiments.Myfs

open Foundation

/-! ### Runs of opens and releases -/

/-- The live records, and the open files by handle. -/
structure Records where
  heap : Heap
  handles : ℕ → Option File

/-- No record and no open file. -/
def Records.empty : Records := ⟨fun _ ↦ none, fun _ ↦ none⟩

/-- A call of `myfs_file_open`, for a new `struct file`, or the call of `myfs_file_release` for an
open one. -/
inductive RecordEvent
  | openFile (handle : ℕ) (inode : Inode) (call : OpenCall)
  | release (handle : ℕ)

/-- What a call of `myfs_file_open` leaves when a run has come to `records`. -/
def Records.openResult (permission : InodePermission) (records : Records) (inode : Inode)
    (call : OpenCall) : OpenResult :=
  myfsFileOpen permission.check inode ⟨none⟩ records.heap call

/-- The records and open files after a call. -/
def recordStep (permission : InodePermission) (records : Records) : RecordEvent → Records
  | .openFile handle inode call =>
    match records.handles handle with
    | some _ => records
    | none =>
      let result := records.openResult permission inode call
      { heap := result.heap
        handles := if result.ret = 0 then
            Function.update records.handles handle (some result.file)
          else records.handles }
  | .release handle =>
    match records.handles handle with
    | none => records
    | some file =>
      { heap := (myfsFileRelease file records.heap).getD records.heap
        handles := Function.update records.handles handle none }

/-- `kmalloc` gives memory that is not in use. -/
def KmallocFresh (records : Records) : RecordEvent → Prop
  | .openFile _ _ call =>
    ∀ address memory, call.kmalloc = some (address, memory) → records.heap address = none
  | .release _ => True

/-! ### The law -/

/-- The live records are in bijection with the open files: every open file has a live record, and
every live record is that of exactly one open file. -/
structure RecordsMatch (records : Records) : Prop where
  record_live : ∀ handle file, records.handles handle = some file →
    ∃ address, file.privateData = some address ∧ records.heap address ≠ none
  owner_unique : ∀ address, records.heap address ≠ none →
    ∃! handle, records.handles handle = some ⟨some address⟩

/-- What a call owes. -/
def RecordLaw (permission : InodePermission) (records : Records) (event : RecordEvent) : Prop :=
  RecordsMatch (recordStep permission records event) ∧
    match event with
    | .openFile handle inode call =>
      records.handles handle = none →
        ((records.openResult permission inode call).ret ≠ 0 →
          (records.openResult permission inode call).heap = records.heap) ∧
        ((records.openResult permission inode call).ret = 0 →
          ∃ address info,
            (records.openResult permission inode call).file.privateData = some address ∧
              (records.openResult permission inode call).heap address = some info ∧
                info.openCount = 1)
    | .release handle => ∀ file, records.handles handle = some file →
      ∃ address, file.privateData = some address ∧ records.heap address ≠ none ∧
        myfsFileRelease file records.heap = some (Function.update records.heap address none)

/-- The condition on a call: if it opens a file and gets memory for the record, the caller is not
refused, and the memory holds a zero count. -/
def OpensCleanly (permission : InodePermission) (records : Records) : RecordEvent → Prop
  | .openFile handle inode call =>
    records.handles handle = none → ∀ address memory, call.kmalloc = some (address, memory) →
      (call.cred.uid = 0 ∨ ¬ permission.Grants call.cred inode) ∧ memory.openCount = 0
  | .release _ => True

/-! ### What opening and releasing do to the records -/

/-- Once its memory is allocated, a call publishes the record and counts it, whatever it returns. -/
theorem open_of_kmalloc (permission : InodePermission) (records : Records) (inode : Inode)
    (call : OpenCall) {address : ℕ} {memory : MyfsFileInfo}
    (hkmalloc : call.kmalloc = some (address, memory)) :
    (records.openResult permission inode call).file = ⟨some address⟩ ∧
      (records.openResult permission inode call).heap =
        Function.update records.heap address (some ⟨call.now, memory.openCount + 1⟩) := by
  unfold Records.openResult myfsFileOpen
  simp only [hkmalloc]
  split_ifs <;> exact ⟨rfl, rfl⟩

/-- Without memory for the record nothing happens. -/
theorem open_of_kmalloc_none (permission : InodePermission) (records : Records) (inode : Inode)
    (call : OpenCall) (hkmalloc : call.kmalloc = none) :
    records.openResult permission inode call = ⟨enomem, ⟨none⟩, records.heap⟩ := by
  unfold Records.openResult myfsFileOpen
  rw [hkmalloc]

/-- A new record and a new open file that has it match. -/
theorem RecordsMatch.openFile {heap : Heap} {handles : ℕ → Option File} {handle address : ℕ}
    (info : MyfsFileInfo) (hmatch : RecordsMatch ⟨heap, handles⟩) (hfree : handles handle = none)
    (hfresh : heap address = none) :
    RecordsMatch ⟨Function.update heap address (some info),
      Function.update handles handle (some ⟨some address⟩)⟩ := by
  have hunowned : ∀ other, handles other ≠ some ⟨some address⟩ := by
    intro other hother
    obtain ⟨place, hplace, hlive⟩ := hmatch.record_live other _ hother
    cases hplace
    exact hlive hfresh
  constructor
  · intro other file hfile
    dsimp only at hfile ⊢
    by_cases hother : other = handle
    · rw [hother, Function.update_self] at hfile
      cases hfile
      exact ⟨address, rfl, by rw [Function.update_self]; exact Option.some_ne_none info⟩
    · rw [Function.update_of_ne hother] at hfile
      obtain ⟨place, hplace, hlive⟩ := hmatch.record_live other file hfile
      have hne : place ≠ address := fun heq ↦ hlive (heq ▸ hfresh)
      exact ⟨place, hplace, by rwa [Function.update_of_ne hne]⟩
  · intro place hlive
    dsimp only at hlive ⊢
    by_cases hplace : place = address
    · refine ⟨handle, by rw [hplace]; exact Function.update_self handle _ handles, ?_⟩
      intro other hother
      by_contra hne
      rw [Function.update_of_ne hne, hplace] at hother
      exact hunowned other hother
    · rw [Function.update_of_ne hplace] at hlive
      obtain ⟨owner, howner, hunique⟩ := hmatch.owner_unique place hlive
      dsimp only at howner hunique
      have hne : owner ≠ handle := by
        rintro rfl
        rw [hfree] at howner
        cases howner
      refine ⟨owner, by dsimp only; rwa [Function.update_of_ne hne], ?_⟩
      intro other hother
      by_cases hsame : other = handle
      · rw [hsame, Function.update_self] at hother
        cases hother
        exact absurd rfl hplace
      · rw [Function.update_of_ne hsame] at hother
        exact hunique other hother

/-- The records and files that are left when one of each is taken out match. -/
theorem RecordsMatch.release {heap : Heap} {handles : ℕ → Option File} {handle address : ℕ}
    (hmatch : RecordsMatch ⟨heap, handles⟩) (hopen : handles handle = some ⟨some address⟩) :
    RecordsMatch ⟨Function.update heap address none, Function.update handles handle none⟩ := by
  obtain ⟨place, hplace, haddress⟩ := hmatch.record_live handle _ hopen
  cases hplace
  obtain ⟨owner, howner, hsole⟩ := hmatch.owner_unique address haddress
  have hhandle : handle = owner := hsole handle hopen
  constructor
  · intro other file hfile
    dsimp only at hfile ⊢
    by_cases hother : other = handle
    · rw [hother, Function.update_self] at hfile
      cases hfile
    · rw [Function.update_of_ne hother] at hfile
      obtain ⟨place, hplace, hlive⟩ := hmatch.record_live other file hfile
      have hne : place ≠ address := by
        rintro rfl
        obtain ⟨pointer⟩ := file
        cases hplace
        exact hother ((hsole other hfile).trans hhandle.symm)
      exact ⟨place, hplace, by rwa [Function.update_of_ne hne]⟩
  · intro place hlive
    dsimp only at hlive ⊢
    have hne : place ≠ address := by
      rintro rfl
      rw [Function.update_self] at hlive
      exact hlive rfl
    rw [Function.update_of_ne hne] at hlive
    obtain ⟨other, hother, hunique⟩ := hmatch.owner_unique place hlive
    dsimp only at hother hunique
    have hnotHandle : other ≠ handle := by
      rintro rfl
      rw [hopen] at hother
      cases hother
      exact hne rfl
    refine ⟨other, by dsimp only; rwa [Function.update_of_ne hnotHandle], ?_⟩
    intro third hthird
    by_cases hsame : third = handle
    · rw [hsame, Function.update_self] at hthird
      cases hthird
    · rw [Function.update_of_ne hsame] at hthird
      exact hunique third hthird

/-! ### Exactly when a call keeps the law -/

/-- With memory for its record and a free handle, an open keeps the law exactly if the caller is not
refused and the memory holds a zero count. -/
theorem recordLaw_openFile_iff (permission : InodePermission) {heap : Heap}
    {handles : ℕ → Option File} {handle address : ℕ} {inode : Inode} {cred : Cred}
    {memory : MyfsFileInfo} {now : Timespec} (hmatch : RecordsMatch ⟨heap, handles⟩)
    (hfree : handles handle = none) (hfresh : heap address = none) :
    RecordLaw permission ⟨heap, handles⟩
        (.openFile handle inode ⟨cred, some (address, memory), now⟩) ↔
      (cred.uid = 0 ∨ ¬ permission.Grants cred inode) ∧ memory.openCount = 0 := by
  obtain ⟨hfile, hheap⟩ := open_of_kmalloc permission ⟨heap, handles⟩ inode
    ⟨cred, some (address, memory), now⟩ rfl
  have hcount : memory.openCount + 1 = 1 ↔ memory.openCount = 0 := by
    constructor
    · intro hone
      rw [← BitVec.add_sub_cancel memory.openCount 1, hone]
      rfl
    · intro hzero
      rw [hzero]
      rfl
  unfold RecordLaw recordStep
  simp only [hfree]
  rcases myfsFileOpen_ret permission inode ⟨none⟩ heap cred address memory now with
    ⟨hret, hgrants, huser⟩ | ⟨hret, hallowed⟩
  · change (Records.openResult permission ⟨heap, handles⟩ inode _).ret = eacces at hret
    refine iff_of_false (fun hlaw ↦ ?_) fun hcondition ↦ ?_
    · have hkept := (hlaw.2 trivial).1 (by rw [hret]; decide)
      rw [hheap] at hkept
      have hlost := congrFun hkept address
      rw [Function.update_self] at hlost
      dsimp only at hlost
      rw [hfresh] at hlost
      cases hlost
    · rcases hcondition.1 with hroot | hdenied
      · exact huser hroot
      · exact hdenied hgrants
  · change (Records.openResult permission ⟨heap, handles⟩ inode _).ret = 0 at hret
    have hcaller : cred.uid = 0 ∨ ¬ permission.Grants cred inode := by
      by_cases hroot : cred.uid = 0
      · exact Or.inl hroot
      · exact Or.inr fun hgrants ↦ hallowed ⟨hgrants, hroot⟩
    rw [and_iff_right hcaller, if_pos hret, hheap, hfile]
    constructor
    · rintro ⟨-, hlaw⟩
      obtain ⟨place, info, hplace, hinfo, hone⟩ := (hlaw trivial).2 hret
      cases hplace
      rw [Function.update_self] at hinfo
      cases hinfo
      exact hcount.mp hone
    · intro hzero
      refine ⟨RecordsMatch.openFile _ hmatch hfree hfresh, fun _ ↦ ⟨?_, fun _ ↦ ?_⟩⟩
      · exact fun hne ↦ absurd hret hne
      · exact ⟨address, _, rfl, Function.update_self address _ heap, hcount.mpr hzero⟩

/-- A release keeps the law. -/
theorem recordLaw_release (permission : InodePermission) {heap : Heap}
    {handles : ℕ → Option File} (hmatch : RecordsMatch ⟨heap, handles⟩) (handle : ℕ) :
    RecordLaw permission ⟨heap, handles⟩ (.release handle) := by
  unfold RecordLaw recordStep
  cases hopen : handles handle with
  | none =>
    simp only [hopen]
    exact ⟨hmatch, fun _ hnone ↦ by cases hnone⟩
  | some file =>
    obtain ⟨address, hpointer, hlive⟩ := hmatch.record_live handle file hopen
    obtain ⟨info, hinfo⟩ := Option.ne_none_iff_exists'.mp hlive
    have hrelease : myfsFileRelease file heap = some (Function.update heap address none) := by
      unfold myfsFileRelease
      dsimp only at hinfo
      rw [hpointer, Option.bind_some, hinfo]
      rfl
    simp only [hopen, hrelease]
    refine ⟨RecordsMatch.release hmatch ?_, fun other hother ↦ ?_⟩
    · rw [hopen, ← hpointer]
    · rw [← Option.some.inj hother]
      exact ⟨address, hpointer, hlive, hrelease⟩

/-- A call keeps the law exactly if it opens cleanly. -/
theorem recordLaw_step_iff (permission : InodePermission) {records : Records}
    (hmatch : RecordsMatch records) {event : RecordEvent} (hfresh : KmallocFresh records event) :
    RecordLaw permission records event ↔ OpensCleanly permission records event := by
  obtain ⟨heap, handles⟩ := records
  cases event with
  | release handle => exact iff_of_true (recordLaw_release permission hmatch handle) trivial
  | openFile handle inode call =>
    cases hhandle : handles handle with
    | some file =>
      unfold RecordLaw recordStep OpensCleanly
      simp only [hhandle]
      exact iff_of_true ⟨hmatch, fun hnone ↦ by cases hnone⟩ fun hnone ↦ by cases hnone
    | none =>
      obtain ⟨cred, kmalloc, now⟩ := call
      cases kmalloc with
      | none =>
        have hnomem : enomem ≠ 0 := by decide
        have hopen := open_of_kmalloc_none permission ⟨heap, handles⟩ inode
          ⟨cred, none, now⟩ rfl
        unfold RecordLaw recordStep OpensCleanly
        simp only [hhandle, hopen, if_neg hnomem]
        refine iff_of_true ⟨hmatch, fun _ ↦ ⟨fun _ ↦ trivial, fun hzero ↦ ?_⟩⟩ ?_
        · exact absurd hzero hnomem
        · intro _ _ _ hsome
          cases hsome
      | some allocated =>
        obtain ⟨address, memory⟩ := allocated
        rw [recordLaw_openFile_iff permission hmatch hhandle (hfresh address memory rfl)]
        constructor
        · intro hclean _ place content hplace
          cases hplace
          exact hclean
        · exact fun hclean ↦ hclean hhandle address memory rfl

/-- A run keeps the law exactly if every call of it opens cleanly. Assumes that `kmalloc` gives
memory that is not in use. -/
theorem recordLaw_iff (permission : InodePermission) {events : List RecordEvent}
    (hfresh : Along (recordStep permission) KmallocFresh Records.empty events) :
    Along (recordStep permission) (RecordLaw permission) Records.empty events ↔
      Along (recordStep permission) (OpensCleanly permission) Records.empty events := by
  have hempty : RecordsMatch Records.empty :=
    ⟨fun _ _ hopen ↦ (by cases hopen), fun _ hlive ↦ absurd rfl hlive⟩
  have hiff : ∀ records event, RecordsMatch records →
      (KmallocFresh records event ∧ RecordLaw permission records event ↔
        KmallocFresh records event ∧ OpensCleanly permission records event) :=
    fun records event hmatch ↦ and_congr_right fun hkmalloc ↦
      recordLaw_step_iff permission hmatch hkmalloc
  have hkeep : ∀ records event, RecordsMatch records →
      KmallocFresh records event ∧ OpensCleanly permission records event →
        RecordsMatch (recordStep permission records event) :=
    fun records event hmatch hclean ↦ ((hiff records event hmatch).mpr hclean).2.1
  have hboth := along_iff_of_invariant hiff hkeep hempty events
  rwa [along_and, along_and, and_iff_right hfresh, and_iff_right hfresh] at hboth

/-- Root opens a file whose record is in zeroed memory, and closes it. -/
def rootOpens : List RecordEvent :=
  [.openFile 0 firstOneInode ⟨⟨0, 0, 0, []⟩, some (7, ⟨⟨0, 0⟩, 0⟩), ⟨0, 0⟩⟩, .release 0]

theorem rootOpens_recordLaw :
    Along (recordStep genericPermission) (RecordLaw genericPermission) Records.empty rootOpens := by
  have hfresh : Along (recordStep genericPermission) KmallocFresh Records.empty rootOpens :=
    ⟨fun _ _ _ ↦ rfl, trivial, trivial⟩
  refine (recordLaw_iff genericPermission hfresh).mpr ⟨?_, trivial, trivial⟩
  intro _ address memory hkmalloc
  cases hkmalloc
  exact ⟨Or.inl rfl, rfl⟩

/-- User 1000, who may read and write a file of mode 0666, is refused and leaves a record; and root
gets a record that counts five opens. -/
theorem not_recordLaw :
    ¬ Along (recordStep genericPermission) (RecordLaw genericPermission) Records.empty
        [.openFile 0 { firstOneInode with iMode := 0o100666 }
          ⟨⟨1000, 1000, 1000, []⟩, some (7, ⟨⟨0, 0⟩, 0⟩), ⟨0, 0⟩⟩] ∧
      ¬ Along (recordStep genericPermission) (RecordLaw genericPermission) Records.empty
        [.openFile 0 firstOneInode ⟨⟨0, 0, 0, []⟩, some (7, ⟨⟨0, 0⟩, 4⟩), ⟨0, 0⟩⟩] := by
  constructor
  · rintro ⟨⟨-, hlaw⟩, -⟩
    have hkept := congrFun ((hlaw rfl).1 (by decide)) 7
    revert hkept
    decide
  · rintro ⟨⟨-, hlaw⟩, -⟩
    obtain ⟨address, info, hplace, hinfo, hone⟩ := (hlaw rfl).2 (by decide)
    cases hplace
    cases hinfo
    revert hone
    decide

end KernelExperiments.Myfs
