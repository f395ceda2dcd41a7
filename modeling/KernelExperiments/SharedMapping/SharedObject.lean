import KernelExperiments.SharedMapping.Accesses

/-!
# The processes share one object

`Represents` relates the processes with their page tables to the object behind the mappings. It is
kept by every event under two conditions (`EventSound`): a new mapping begins at page zero of the
device and on addresses that its process has free, and no page is touched for the first time in a
vma that was cut at its start, where `map_fault` installs another page. Under these conditions any
run of mappings, cuts, loads and stores of any processes gives every load and store the answer of
the object (`accesses_refine_object`).
-/

set_option autoImplicit false
set_option relaxedAutoImplicit false

namespace KernelExperiments.SharedMapping

open Foundation

variable {w : ℕ} {Page Byte : Type*}

/-! ### Pages of a vma of whole pages -/

/-- A vma of whole pages contains an address exactly when it holds its page. -/
theorem PieceOf.contains_iff {original vma : VmArea w} (hpiece : PieceOf original vma)
    (address : BitVec w) : vma.Contains address ↔ vma.HoldsPage (pageNumber address) := by
  have hstart := hpiece.start_aligned
  have hend := hpiece.end_aligned
  unfold VmArea.Contains VmArea.HoldsPage pageNumber
  rw [BitVec.le_def, BitVec.lt_def]
  omega

/-- The page of the device behind a page of a piece is the distance to the original vma. -/
theorem PieceOf.devicePage_eq {original vma : VmArea w} (hpiece : PieceOf original vma)
    (haligned : original.vmStart.toNat % 4096 = 0) {number : ℕ} (hholds : vma.HoldsPage number) :
    vma.devicePage number = number - original.vmStart.toNat / 4096 := by
  have hstart := hpiece.start_aligned
  have hle := hpiece.start_le
  have hpgoff := hpiece.pgoff_eq
  have hlow := hholds.1
  unfold VmArea.devicePage
  omega

/-- The byte behind an address is at its position in the page behind the page of the address. -/
theorem PieceOf.deviceOffset_eq {original vma : VmArea w} (hpiece : PieceOf original vma)
    {address : BitVec w} (hcontains : vma.Contains address) :
    vma.deviceOffset address =
      4096 * vma.devicePage (pageNumber address) + (pagePosition address : ℕ) := by
  have hstart := hpiece.start_aligned
  have hlow := BitVec.le_def.mp hcontains.1
  unfold VmArea.deviceOffset VmArea.devicePage pageNumber pagePosition
  dsimp only
  omega

/-- A fault in a vma that begins at page zero installs the page of the device behind the address. -/
theorem installed_of_pgoff_eq_zero (area : VmallocArea w Page) (mapping : Mapping w) (hw : 32 ≤ w)
    {vma : VmArea w} (hpiece : PieceOf mapping.vma vma) (hpgoff : vma.vmPgoff = 0)
    {address : BitVec w} (hcontains : vma.Contains address) :
    vma.devicePage (pageNumber address) < 10 ∧
      area.installed vma address = some (area.page (vma.devicePage (pageNumber address))) := by
  have hbase := (mapping.pieceOf_vma hw).start_aligned
  have hlow := BitVec.le_def.mp hcontains.1
  have hstart := hpiece.start_le
  obtain ⟨index, -, -, -, hbound⟩ := mapFault_eq area mapping hw hpiece hcontains
  have hpage : vma.devicePage (pageNumber address) = mapping.userPage address := by
    rw [hpiece.devicePage_eq hbase ((hpiece.contains_iff address).mp hcontains)]
    unfold pageNumber Mapping.userPage
    omega
  rw [hpage]
  exact ⟨hbound, pageIdentity_of_pgoff_eq_zero area mapping hw hpiece hpgoff address hcontains⟩

/-! ### What a call leaves of a page -/

/-- The pages of what a call makes of a vma are pages of the vma. -/
theorem holdsPage_of_mem_apply {vma piece : VmArea w} (hstart : vma.vmStart.toNat % 4096 = 0)
    (hend : vma.vmEnd.toNat % 4096 = 0) {op : MapOp w} (hmem : piece ∈ op.apply vma) {number : ℕ}
    (hholds : piece.HoldsPage number) : vma.HoldsPage number := by
  have hinside : ∀ part ∈ op.apply vma, part.HoldsPage number → vma.HoldsPage number := by
    refine forall_mem_apply hstart hend id ?_ (fun part flags hpart ↦ hpart) op
    intro start finish hle _ hfinish _ _ hpart
    exact ⟨Nat.le_trans hle hpart.1, Nat.lt_of_lt_of_le hpart.2 hfinish⟩
  exact hinside piece hmem hholds

/-- A call keeps whether a vma is shared. -/
theorem has_vmShared_of_mem_apply (hw : 32 ≤ w) {vma piece : VmArea w} {op : MapOp w}
    (hmem : piece ∈ op.apply vma) : piece.Has (vmShared w) ↔ vma.Has (vmShared w) := by
  rw [piece.has_vmShared_iff hw, vma.has_vmShared_iff hw]
  rcases vmFlags_of_mem_apply hmem with hflags | ⟨prot, -, hflags⟩
  · rw [hflags]
  · rw [hflags, getLsbD_mprotectFlags _ _ (by omega), if_neg (by omega)]

/-- The part of a vma in a range holds the pages of the vma in the range. -/
theorem exists_mem_clip_holdsPage {vma : VmArea w} {low high : BitVec w} {number : ℕ}
    (hholds : vma.HoldsPage number) (hlow : low.toNat ≤ 4096 * number)
    (hhigh : 4096 * number < high.toNat) :
    ∃ piece ∈ vma.clip low high, piece.HoldsPage number := by
  obtain ⟨hstart, hend⟩ := hholds
  have hfirst : (if vma.vmStart < low then low else vma.vmStart).toNat ≤ 4096 * number := by
    split_ifs with hlt
    · exact hlow
    · exact hstart
  have hlast : 4096 * number < (if high < vma.vmEnd then high else vma.vmEnd).toNat := by
    split_ifs with hlt
    · exact hhigh
    · exact hend
  refine ⟨vma.piece (if vma.vmStart < low then low else vma.vmStart)
    (if high < vma.vmEnd then high else vma.vmEnd), ?_, hfirst, hlast⟩
  simp only [VmArea.clip]
  rw [if_pos (BitVec.lt_def.mpr (Nat.lt_of_le_of_lt hfirst hlast))]
  exact List.mem_singleton.mpr rfl

/-- A page that a call does not take away is a page of something the call makes of its vma. -/
theorem exists_mem_apply_holdsPage {vma : VmArea w} {op : MapOp w} {number : ℕ}
    (hholds : vma.HoldsPage number) (hkept : ¬ op.Removes number) :
    ∃ piece ∈ op.apply vma, piece.HoldsPage number := by
  cases op with
  | munmap start finish =>
    simp only [MapOp.apply]
    split_ifs with hvalid
    · rcases Nat.lt_or_ge (4096 * number) start.toNat with hbelow | habove
      · obtain ⟨piece, hmem, hpiece⟩ := exists_mem_clip_holdsPage hholds hholds.1 hbelow
        exact ⟨piece, List.mem_append_left _ hmem, hpiece⟩
      · have hfinish : finish.toNat ≤ 4096 * number :=
          Nat.not_lt.mp fun hlt ↦ hkept ⟨hvalid, habove, hlt⟩
        obtain ⟨piece, hmem, hpiece⟩ := exists_mem_clip_holdsPage hholds hfinish hholds.2
        exact ⟨piece, List.mem_append_right _ hmem, hpiece⟩
    · exact ⟨vma, List.mem_singleton.mpr rfl, hholds⟩
  | mprotect start finish prot =>
    simp only [MapOp.apply]
    split_ifs with hcall
    · rcases Nat.lt_or_ge (4096 * number) start.toNat with hbelow | habove
      · obtain ⟨piece, hmem, hpiece⟩ := exists_mem_clip_holdsPage hholds hholds.1 hbelow
        exact ⟨piece, List.mem_append_left _ (List.mem_append_left _ hmem), hpiece⟩
      · rcases Nat.lt_or_ge (4096 * number) finish.toNat with hinside | hbehind
        · obtain ⟨piece, hmem, hpiece⟩ := exists_mem_clip_holdsPage hholds habove hinside
          exact ⟨_, List.mem_append_left _ (List.mem_append_right _
            (List.mem_map_of_mem hmem)), hpiece⟩
        · obtain ⟨piece, hmem, hpiece⟩ := exists_mem_clip_holdsPage hholds hbehind hholds.2
          exact ⟨piece, List.mem_append_right _ hmem, hpiece⟩
    · exact ⟨vma, List.mem_singleton.mpr rfl, hholds⟩

/-! ### The vmas of the processes -/

/-- Every vma is a piece of a mapping, and two vmas of a process that hold the same page put the
same page of the device there and are both shared or both private. -/
structure VmasSound (vmas : DeviceVmas w) : Prop where
  pieces : ∀ process, ∀ vma ∈ vmas process, ∃ mapping : Mapping w, PieceOf mapping.vma vma
  agree : ∀ process, ∀ vma ∈ vmas process, ∀ other ∈ vmas process, ∀ number,
    vma.HoldsPage number → other.HoldsPage number →
      vma.devicePage number = other.devicePage number ∧
        (vma.Has (vmShared w) ↔ other.Has (vmShared w))

/-- The mapping of an accepted request that begins at page zero of the device. -/
def MmapRequest.mapping (request : MmapRequest w) (haccepted : request.Accepted)
    (hpgoff : request.vma.vmPgoff = 0) : Mapping w where
  requested := request.vma
  start_lt_end := BitVec.lt_def.mp request.valid.1
  start_aligned := request.valid.2.1
  end_aligned := request.valid.2.2
  pgoff_eq_zero := hpgoff
  accepted := haccepted

/-- The addresses of the request are free in its process. -/
def MmapRequest.Free (request : MmapRequest w) (vmas : List (VmArea w)) : Prop :=
  ∀ vma ∈ vmas, vma.vmEnd.toNat ≤ request.vma.vmStart.toNat ∨
    request.vma.vmEnd.toNat ≤ vma.vmStart.toNat

/-- The page of the device behind a page is the same in a vma and in what a call makes of it. -/
theorem devicePage_of_mem_apply (hw : 32 ≤ w) {mapping : Mapping w} {vma piece : VmArea w}
    (hpiece : PieceOf mapping.vma vma) {op : MapOp w} (hmem : piece ∈ op.apply vma) {number : ℕ}
    (hholds : piece.HoldsPage number) : piece.devicePage number = vma.devicePage number := by
  have hbase := (mapping.pieceOf_vma hw).start_aligned
  have hwhole := holdsPage_of_mem_apply hpiece.start_aligned hpiece.end_aligned hmem hholds
  rw [(pieceOf_of_mem_apply hpiece hbase hmem).devicePage_eq hbase hholds,
    hpiece.devicePage_eq hbase hwhole]

/-- A mapping at page zero of the device, on free addresses, keeps the vmas sound. -/
theorem VmasSound.mmap (hw : 32 ≤ w) {vmas : DeviceVmas w} (hsound : VmasSound vmas)
    {request : MmapRequest w} (hpgoff : request.Accepted → request.vma.vmPgoff = 0)
    (hfree : request.Accepted → request.Free (vmas request.process)) :
    VmasSound (deviceStep vmas (.mmap request)) := by
  have hdisjoint : request.Accepted → ∀ vma ∈ vmas request.process, ∀ number,
      vma.HoldsPage number → ¬ (mapdrvMmap request.vma).2.HoldsPage number := by
    intro haccepted vma hvma number hold hnew
    obtain ⟨hstart, hend, -⟩ := mapdrvMmap_spec hw haccepted
    unfold VmArea.HoldsPage at hold hnew
    rw [hstart, hend] at hnew
    rcases hfree haccepted vma hvma with hbelow | habove <;> omega
  refine ⟨fun process vma hvma ↦ ?_,
    fun process vma hvma other hother number hholds hholdsOther ↦ ?_⟩
  · rcases mem_deviceStep_mmap.mp hvma with hold | ⟨haccepted, -, rfl⟩
    · exact hsound.pieces process vma hold
    · exact ⟨request.mapping haccepted (hpgoff haccepted),
        (request.mapping haccepted (hpgoff haccepted)).pieceOf_vma hw⟩
  · rcases mem_deviceStep_mmap.mp hvma with hold | ⟨haccepted, rfl, rfl⟩
    · rcases mem_deviceStep_mmap.mp hother with holdOther | ⟨haccepted, rfl, rfl⟩
      · exact hsound.agree process vma hold other holdOther number hholds hholdsOther
      · exact absurd hholdsOther (hdisjoint haccepted vma hold number hholds)
    · rcases mem_deviceStep_mmap.mp hother with holdOther | ⟨-, -, rfl⟩
      · exact absurd hholds (hdisjoint haccepted other holdOther number hholdsOther)
      · exact ⟨rfl, Iff.rfl⟩

/-- A call keeps the vmas sound. -/
theorem VmasSound.call (hw : 32 ≤ w) {vmas : DeviceVmas w} (hsound : VmasSound vmas) (caller : ℕ)
    (op : MapOp w) : VmasSound (deviceStep vmas (.call caller op)) := by
  refine ⟨fun process vma hvma ↦ ?_,
    fun process vma hvma other hother number hholds hholdsOther ↦ ?_⟩
  · rcases mem_deviceStep_call.mp hvma with ⟨-, hold⟩ | ⟨-, whole, hwhole, hmem⟩
    · exact hsound.pieces process vma hold
    · obtain ⟨mapping, hpiece⟩ := hsound.pieces caller whole hwhole
      exact ⟨mapping, pieceOf_of_mem_apply hpiece (mapping.pieceOf_vma hw).start_aligned hmem⟩
  · rcases mem_deviceStep_call.mp hvma with ⟨hne, hold⟩ | ⟨rfl, whole, hwhole, hmem⟩
    · rcases mem_deviceStep_call.mp hother with ⟨-, holdOther⟩ | ⟨heq, -⟩
      · exact hsound.agree process vma hold other holdOther number hholds hholdsOther
      · exact absurd heq hne
    · rcases mem_deviceStep_call.mp hother with ⟨hne, -⟩ | ⟨-, otherWhole, hotherWhole, hotherMem⟩
      · exact absurd rfl hne
      · obtain ⟨mapping, hpiece⟩ := hsound.pieces process whole hwhole
        obtain ⟨otherMapping, hotherPiece⟩ := hsound.pieces process otherWhole hotherWhole
        obtain ⟨hpage, hshared⟩ := hsound.agree process whole hwhole otherWhole hotherWhole number
          (holdsPage_of_mem_apply hpiece.start_aligned hpiece.end_aligned hmem hholds)
          (holdsPage_of_mem_apply hotherPiece.start_aligned hotherPiece.end_aligned hotherMem
            hholdsOther)
        rw [devicePage_of_mem_apply hw hpiece hmem hholds,
          devicePage_of_mem_apply hw hotherPiece hotherMem hholdsOther,
          has_vmShared_of_mem_apply hw hmem, has_vmShared_of_mem_apply hw hotherMem]
        exact ⟨hpage, hshared⟩

/-- The vma that is found for an address is one of the process and holds its page. -/
theorem VmasSound.holdsPage_of_findVma {vmas : DeviceVmas w} (hsound : VmasSound vmas)
    {process : ℕ} {address : BitVec w} {vma : VmArea w}
    (hfind : findVma (vmas process) address = some vma) :
    vma ∈ vmas process ∧ vma.Contains address ∧ vma.HoldsPage (pageNumber address) := by
  unfold findVma at hfind
  have hmem := List.mem_of_find?_eq_some hfind
  have hfound := List.find?_some hfind
  have hcontains : vma.Contains address := of_decide_eq_true hfound
  obtain ⟨mapping, hpiece⟩ := hsound.pieces process vma hmem
  exact ⟨hmem, hcontains, (hpiece.contains_iff address).mp hcontains⟩

/-! ### Tables of what processes have at their pages -/

theorem setEntry_self {Entry : Type*} (entries : ℕ → ℕ → Option Entry) (process number : ℕ)
    (entry : Entry) : setEntry entries process number entry process number = some entry := by
  rw [setEntry, Function.update_self, Function.update_self]

theorem setEntry_of_ne {Entry : Type*} (entries : ℕ → ℕ → Option Entry)
    {process number other otherNumber : ℕ} (hne : ¬ (other = process ∧ otherNumber = number))
    (entry : Entry) :
    setEntry entries process number entry other otherNumber = entries other otherNumber := by
  unfold setEntry
  by_cases hprocess : other = process
  · rw [hprocess, Function.update_self, Function.update_of_ne fun hnumber ↦ hne ⟨hprocess, hnumber⟩]
  · rw [Function.update_of_ne hprocess]

/-- A call leaves of a table what it does not take away. -/
theorem cutEntries_call {Entry : Type*} (entries : ℕ → ℕ → Option Entry) (caller : ℕ)
    (op : MapOp w) (process number : ℕ) :
    cutEntries entries (.call caller op) process number =
      if process = caller ∧ op.Removes number then none else entries process number := by
  simp only [cutEntries]
  by_cases hprocess : process = caller
  · rw [hprocess, Function.update_self]
    simp only [true_and]
  · rw [Function.update_of_ne hprocess, if_neg fun hcall ↦ hprocess hcall.1]

/-! ### The relation to the object -/

/-- The entry is right for a page of the vma: the page of the area that the object has there, or a
copy, which only a private vma has. -/
def PageEntry.Fits (area : VmallocArea w Page) (vma : VmArea w) (number : ℕ) :
    PageEntry Page Byte → Prop
  | .kernel page => vma.devicePage number < 10 ∧ page = area.page (vma.devicePage number)
  | .copy _ => ¬ vma.Has (vmShared w)

/-- The processes and the object behind their mappings. -/
structure Represents (area : VmallocArea w Page) (state : Processes w Page Byte)
    (object : SharedObject w Byte) : Prop where
  vmas_eq : object.vmas = state.vmas
  sound : VmasSound state.vmas
  memory_eq : ∀ index < 10, state.memory (area.page index) = blocks 4096 object.bytes index
  copies_eq : ∀ process number,
    object.copies process number = (state.entries process number).bind PageEntry.copy?
  entries_fit : ∀ process number entry, state.entries process number = some entry →
    ∃ vma ∈ state.vmas process, vma.HoldsPage number ∧ entry.Fits area vma number

/-- A page that is touched for the first time is touched in a vma that begins at page zero of the
device. -/
def Processes.FirstTouchSound (state : Processes w Page Byte) (process : ℕ)
    (address : BitVec w) : Prop :=
  ∀ vma ∈ findVma (state.vmas process) address,
    (state.entries process (pageNumber address)).isNone → vma.vmPgoff = 0

instance decidableFirstTouchSound (state : Processes w Page Byte) (process : ℕ)
    (address : BitVec w) : Decidable (state.FirstTouchSound process address) :=
  inferInstanceAs (Decidable (∀ vma ∈ findVma _ _, _ → _))

/-- What is assumed of an event: an accepted mapping begins at page zero and on free addresses, and
a page is not touched for the first time in a vma that was cut at its start. -/
def EventSound (state : Processes w Page Byte) : ProcessEvent w Byte → Prop
  | .device (.mmap request) => request.Accepted →
      request.vma.vmPgoff = 0 ∧ request.Free (state.vmas request.process)
  | .device (.call _ _) => True
  | .load process address => state.FirstTouchSound process address
  | .store process address _ => state.FirstTouchSound process address

instance decidableEventSound (state : Processes w Page Byte) :
    (event : ProcessEvent w Byte) → Decidable (EventSound state event)
  | .device (.mmap _) => inferInstanceAs (Decidable ((_ : ℤ) = 0 → _ ∧ ∀ vma ∈ _, _ ∨ _))
  | .device (.call _ _) => inferInstanceAs (Decidable True)
  | .load process address => decidableFirstTouchSound state process address
  | .store process address _ => decidableFirstTouchSound state process address

/-- An entry that is right for a page of one vma is right for the page in any vma that puts the same
page of the device there. -/
theorem PageEntry.Fits.congr {area : VmallocArea w Page} {vma other : VmArea w} {number : ℕ}
    {entry : PageEntry Page Byte} (hfits : entry.Fits area vma number)
    (hpage : other.devicePage number = vma.devicePage number)
    (hshared : other.Has (vmShared w) ↔ vma.Has (vmShared w)) : entry.Fits area other number := by
  cases entry with
  | kernel page =>
    unfold PageEntry.Fits
    rw [hpage]
    exact hfits
  | copy bytes => exact fun hother ↦ hfits (hshared.mp hother)

/-- The entry for an address in a vma of its process: it is right there, and its page holds what
the object has at the address. -/
theorem Represents.entryFor {area : VmallocArea w Page} (hw : 32 ≤ w)
    {state : Processes w Page Byte} {object : SharedObject w Byte}
    (hrep : Represents area state object) {process : ℕ} {address : BitVec w} {vma : VmArea w}
    (hfind : findVma (state.vmas process) address = some vma)
    (htouch : state.FirstTouchSound process address) :
    ∃ entry, state.entryFor area process vma address = some entry ∧
      entry.Fits area vma (pageNumber address) ∧
      entry.bytes state.memory = object.pageBytes process vma address ∧
      entry.copy? = object.copies process (pageNumber address) := by
  obtain ⟨hmem, hcontains, hholds⟩ := hrep.sound.holdsPage_of_findVma hfind
  have hcopies := hrep.copies_eq process (pageNumber address)
  have hview : ∀ entry : PageEntry Page Byte, entry.Fits area vma (pageNumber address) →
      entry.copy? = object.copies process (pageNumber address) →
        entry.bytes state.memory = object.pageBytes process vma address := by
    intro entry hfits hcopy
    unfold SharedObject.pageBytes
    rw [← hcopy]
    cases entry with
    | kernel page =>
      obtain ⟨hbound, rfl⟩ := hfits
      exact hrep.memory_eq _ hbound
    | copy bytes => rfl
  cases hentry : state.entries process (pageNumber address) with
  | some entry =>
    rw [hentry] at hcopies
    obtain ⟨other, hother, hholdsOther, hfitsOther⟩ := hrep.entries_fit _ _ _ hentry
    obtain ⟨hpage, hshared⟩ := hrep.sound.agree process vma hmem other hother _ hholds hholdsOther
    have hfits := hfitsOther.congr hpage hshared
    exact ⟨entry, by rw [Processes.entryFor, hentry], hfits, hview entry hfits hcopies.symm,
      hcopies.symm⟩
  | none =>
    rw [hentry] at hcopies
    obtain ⟨mapping, hpiece⟩ := hrep.sound.pieces process vma hmem
    obtain ⟨hbound, hinstalled⟩ := installed_of_pgoff_eq_zero area mapping hw hpiece
      (htouch vma hfind (by rw [hentry]; rfl)) hcontains
    refine ⟨.kernel (area.page (vma.devicePage (pageNumber address))), ?_, ⟨hbound, rfl⟩,
      hview _ ⟨hbound, rfl⟩ hcopies.symm, hcopies.symm⟩
    rw [Processes.entryFor, hentry]
    dsimp only
    rw [hinstalled, Option.map_some]

/-- A page of the process that changes hands keeps the table of the object's private pages, when the
entry is as private as before. -/
theorem copies_eq_setEntry {entries : ℕ → ℕ → Option (PageEntry Page Byte)}
    {copies : ℕ → ℕ → Option (Fin 4096 → Byte)}
    (hcopies : ∀ process number, copies process number =
      (entries process number).bind PageEntry.copy?) {process number : ℕ}
    {entry : PageEntry Page Byte} (hentry : entry.copy? = copies process number)
    (other otherNumber : ℕ) :
    copies other otherNumber =
      (setEntry entries process number entry other otherNumber).bind PageEntry.copy? := by
  by_cases hsame : other = process ∧ otherNumber = number
  · obtain ⟨rfl, rfl⟩ := hsame
    rw [setEntry_self, Option.bind_some, hentry]
  · rw [setEntry_of_ne entries hsame, hcopies]

/-- A page that becomes a copy becomes one in the table of the object's private pages. -/
theorem copies_eq_setEntry_copy {entries : ℕ → ℕ → Option (PageEntry Page Byte)}
    {copies : ℕ → ℕ → Option (Fin 4096 → Byte)}
    (hcopies : ∀ process number, copies process number =
      (entries process number).bind PageEntry.copy?) (process number : ℕ)
    (bytes : Fin 4096 → Byte) (other otherNumber : ℕ) :
    setEntry copies process number bytes other otherNumber =
      (setEntry entries process number (.copy bytes) other otherNumber).bind PageEntry.copy? := by
  by_cases hsame : other = process ∧ otherNumber = number
  · obtain ⟨rfl, rfl⟩ := hsame
    rw [setEntry_self, setEntry_self]
    rfl
  · rw [setEntry_of_ne copies hsame, setEntry_of_ne entries hsame, hcopies]

/-- An entry that is right may be entered. -/
theorem Represents.entries_fit_setEntry {area : VmallocArea w Page}
    {state : Processes w Page Byte} {object : SharedObject w Byte}
    (hrep : Represents area state object) {process : ℕ} {address : BitVec w} {vma : VmArea w}
    (hfind : findVma (state.vmas process) address = some vma) {entry : PageEntry Page Byte}
    (hfits : entry.Fits area vma (pageNumber address)) (other number : ℕ)
    (found : PageEntry Page Byte)
    (hfound : setEntry state.entries process (pageNumber address) entry other number =
      some found) :
    ∃ vma ∈ state.vmas other, vma.HoldsPage number ∧ found.Fits area vma number := by
  by_cases hsame : other = process ∧ number = pageNumber address
  · obtain ⟨rfl, rfl⟩ := hsame
    rw [setEntry_self] at hfound
    obtain ⟨hmem, -, hholds⟩ := hrep.sound.holdsPage_of_findVma hfind
    rw [← Option.some.inj hfound]
    exact ⟨vma, hmem, hholds, hfits⟩
  · rw [setEntry_of_ne _ hsame] at hfound
    exact hrep.entries_fit other number found hfound

/-- A store of one byte to the device changes one page of it, at one position. -/
theorem blocks_applyWrite_byte (bytes : ℕ → Byte) (page : ℕ) (position : Fin 4096) (value : Byte)
    (index : ℕ) :
    blocks 4096 (applyWrite bytes ⟨4096 * page + position, 1, fun _ ↦ value⟩) index =
      if index = page then Function.update (blocks 4096 bytes page) position value
      else blocks 4096 bytes index := by
  have hposition := position.isLt
  by_cases hindex : index = page
  · rw [if_pos hindex, hindex]
    funext other
    by_cases hother : other = position
    · rw [hother, Function.update_self]
      exact applyWrite_of_covers bytes ⟨Nat.le_refl _, Nat.lt_succ_self _⟩
    · rw [Function.update_of_ne hother]
      have hne : (other : ℕ) ≠ position := fun heq ↦ hother (Fin.ext heq)
      refine applyWrite_of_not_covers bytes fun hcovers ↦ ?_
      unfold Write.Covers at hcovers
      dsimp only at hcovers
      omega
  · rw [if_neg hindex]
    funext other
    have hbound := other.isLt
    refine applyWrite_of_not_covers bytes fun hcovers ↦ ?_
    unfold Write.Covers at hcovers
    dsimp only at hcovers
    omega

/-! ### The events keep the relation -/

variable {area : VmallocArea w Page} {state : Processes w Page Byte} {object : SharedObject w Byte}

/-- A new mapping keeps the relation. -/
theorem Represents.mmap [DecidableEq Page] (hw : 32 ≤ w) (hrep : Represents area state object)
    {request : MmapRequest w} (hevent : EventSound state (.device (.mmap request))) :
    Represents area (accessStep area state (.device (.mmap request)))
      (objectStep object (.device (.mmap request))) := by
  refine ⟨congrArg (deviceStep · (.mmap request)) hrep.vmas_eq, ?_, hrep.memory_eq, hrep.copies_eq,
    fun process number entry hentry ↦ ?_⟩
  · exact hrep.sound.mmap hw (fun haccepted ↦ (hevent haccepted).1) fun haccepted ↦
      (hevent haccepted).2
  · obtain ⟨vma, hvma, hholds, hfits⟩ := hrep.entries_fit process number entry hentry
    exact ⟨vma, mem_deviceStep_mmap.mpr (Or.inl hvma), hholds, hfits⟩

/-- A call that cuts the vmas of a process keeps the relation: it takes the same pages from the page
table and from the private pages of the object. -/
theorem Represents.call [DecidableEq Page] (hw : 32 ≤ w) (hrep : Represents area state object)
    (caller : ℕ) (op : MapOp w) :
    Represents area (accessStep area state (.device (.call caller op)))
      (objectStep object (.device (.call caller op))) := by
  refine ⟨congrArg (deviceStep · (.call caller op)) hrep.vmas_eq, hrep.sound.call hw caller op,
    hrep.memory_eq, fun process number ↦ ?_, fun process number entry hentry ↦ ?_⟩
  · change cutEntries object.copies (.call caller op) process number =
      (cutEntries state.entries (.call caller op) process number).bind PageEntry.copy?
    rw [cutEntries_call, cutEntries_call, hrep.copies_eq]
    split_ifs with hcut
    · rfl
    · rfl
  · change cutEntries state.entries (.call caller op) process number = some entry at hentry
    rw [cutEntries_call] at hentry
    split_ifs at hentry with hcut
    obtain ⟨vma, hvma, hholds, hfits⟩ := hrep.entries_fit process number entry hentry
    by_cases hprocess : process = caller
    · have hkept : ¬ op.Removes number := fun hremoves ↦ hcut ⟨hprocess, hremoves⟩
      obtain ⟨piece, hmem, hpiece⟩ := exists_mem_apply_holdsPage hholds hkept
      obtain ⟨mapping, hwhole⟩ := hrep.sound.pieces process vma hvma
      refine ⟨piece, mem_deviceStep_call.mpr (Or.inr ⟨hprocess, vma, ?_, hmem⟩), hpiece, ?_⟩
      · rwa [← hprocess]
      · exact hfits.congr (devicePage_of_mem_apply hw hwhole hmem hpiece)
          (has_vmShared_of_mem_apply hw hmem)
    · exact ⟨vma, mem_deviceStep_call.mpr (Or.inl ⟨hprocess, hvma⟩), hholds, hfits⟩

/-- A load keeps the relation and reads what the object has. -/
theorem Represents.load (hw : 32 ≤ w) (hrep : Represents area state object) {process : ℕ}
    {address : BitVec w} (htouch : state.FirstTouchSound process address) :
    Represents area (state.load area process address).1
        (object.event (.load process address)).1 ∧
      (state.load area process address).2 = (object.event (.load process address)).2 := by
  have hobject : findVma (object.vmas process) address = findVma (state.vmas process) address := by
    rw [hrep.vmas_eq]
  simp only [Processes.load, SharedObject.event, hobject]
  cases hfind : findVma (state.vmas process) address with
  | none => exact ⟨hrep, rfl⟩
  | some vma =>
    dsimp only
    split_ifs with haccess
    · obtain ⟨entry, hentry, hfits, hbytes, hcopy⟩ := hrep.entryFor hw hfind htouch
      rw [hentry]
      dsimp only
      refine ⟨⟨hrep.vmas_eq, hrep.sound, hrep.memory_eq, copies_eq_setEntry hrep.copies_eq hcopy,
        hrep.entries_fit_setEntry hfind hfits⟩, ?_⟩
      rw [hbytes]
    · exact ⟨hrep, rfl⟩

/-- A store to a shared vma changes the byte of the device behind its address. -/
theorem Represents.store_shared [DecidableEq Page] (hrep : Represents area state object)
    {process : ℕ} {address : BitVec w} {vma : VmArea w} {page : Page} (value : Byte)
    (hfind : findVma (state.vmas process) address = some vma)
    (hfits : (PageEntry.kernel page : PageEntry Page Byte).Fits area vma (pageNumber address))
    (hcopy : object.copies process (pageNumber address) = none) :
    Represents area
      { state with
        entries := setEntry state.entries process (pageNumber address) (.kernel page)
        memory := Function.update state.memory page
          (Function.update (state.memory page) (pagePosition address) value) }
      { object with
        bytes := applyWrite object.bytes ⟨vma.deviceOffset address, 1, fun _ ↦ value⟩ } := by
  obtain ⟨hmem, hcontains, -⟩ := hrep.sound.holdsPage_of_findVma hfind
  obtain ⟨mapping, hpiece⟩ := hrep.sound.pieces process vma hmem
  refine ⟨hrep.vmas_eq, hrep.sound, fun index hindex ↦ ?_,
    copies_eq_setEntry hrep.copies_eq hcopy.symm, hrep.entries_fit_setEntry hfind hfits⟩
  obtain ⟨hbound, rfl⟩ := hfits
  dsimp only
  rw [hpiece.deviceOffset_eq hcontains, blocks_applyWrite_byte]
  split_ifs with hsame
  · rw [hsame, Function.update_self, hrep.memory_eq _ hbound]
  · have hne : area.page index ≠ area.page (vma.devicePage (pageNumber address)) :=
      fun hpage ↦ hsame (area.vmallocToPage_injective _ hindex _ hbound hpage)
    rw [Function.update_of_ne hne]
    exact hrep.memory_eq index hindex

/-- A store to a private vma changes the process's own page. -/
theorem Represents.store_private (hrep : Represents area state object) {process : ℕ}
    {address : BitVec w} {vma : VmArea w} (bytes : Fin 4096 → Byte)
    (hfind : findVma (state.vmas process) address = some vma)
    (hprivate : ¬ vma.Has (vmShared w)) :
    Represents area
      { state with entries := setEntry state.entries process (pageNumber address) (.copy bytes) }
      { object with copies := setEntry object.copies process (pageNumber address) bytes } :=
  ⟨hrep.vmas_eq, hrep.sound, hrep.memory_eq, copies_eq_setEntry_copy hrep.copies_eq _ _ _,
    hrep.entries_fit_setEntry hfind hprivate⟩

/-- A store keeps the relation. -/
theorem Represents.store [DecidableEq Page] (hw : 32 ≤ w) (hrep : Represents area state object)
    {process : ℕ} {address : BitVec w} (value : Byte)
    (htouch : state.FirstTouchSound process address) :
    Represents area (state.store area process address value).1
        (object.event (.store process address value)).1 ∧
      (state.store area process address value).2 =
        (object.event (.store process address value)).2 := by
  have hobject : findVma (object.vmas process) address = findVma (state.vmas process) address := by
    rw [hrep.vmas_eq]
  simp only [Processes.store, SharedObject.event, hobject]
  cases hfind : findVma (state.vmas process) address with
  | none => exact ⟨hrep, rfl⟩
  | some vma =>
    dsimp only
    by_cases hwrite : vma.Has (vmWrite w)
    · obtain ⟨entry, hentry, hfits, hbytes, hcopy⟩ := hrep.entryFor hw hfind htouch
      rw [if_pos hwrite, if_pos hwrite, hentry, ← hbytes]
      by_cases hshared : vma.Has (vmShared w)
      · cases entry with
        | copy bytes => exact absurd hshared hfits
        | kernel page =>
          simp only [if_pos hshared]
          exact ⟨hrep.store_shared value hfind hfits hcopy.symm, trivial⟩
      · cases entry with
        | copy bytes =>
          simp only [if_neg hshared]
          exact ⟨hrep.store_private _ hfind hshared, trivial⟩
        | kernel page =>
          simp only [if_neg hshared]
          exact ⟨hrep.store_private _ hfind hshared, trivial⟩
    · rw [if_neg hwrite, if_neg hwrite]
      exact ⟨hrep, rfl⟩

/-- An event keeps the relation and gives its process what the object gives. -/
theorem Represents.event [DecidableEq Page] (hw : 32 ≤ w) (hrep : Represents area state object)
    {event : ProcessEvent w Byte} (hevent : EventSound state event) :
    Represents area (accessStep area state event) (objectStep object event) ∧
      accessResult area state event = objectResult object event := by
  cases event with
  | device event =>
    cases event with
    | mmap request => exact ⟨hrep.mmap hw hevent, rfl⟩
    | call caller op => exact ⟨hrep.call hw caller op, rfl⟩
  | load process address => exact hrep.load hw hevent
  | store process address value => exact hrep.store hw value hevent

/-! ### Runs -/

/-- Before any process has mapped the device. -/
def Processes.unmapped (memory : Page → Fin 4096 → Byte) : Processes w Page Byte :=
  ⟨fun _ ↦ [], fun _ _ ↦ none, memory⟩

/-- The object before any process has mapped the device. -/
def SharedObject.unmapped (bytes : ℕ → Byte) : SharedObject w Byte :=
  ⟨fun _ ↦ [], bytes, fun _ _ ↦ none⟩

/-- The bytes of the area. -/
def VmallocArea.contents (area : VmallocArea w Page) (memory : Page → Fin 4096 → Byte)
    (offset : ℕ) :
    Byte :=
  memory (area.page (offset / 4096)) ⟨offset % 4096, Nat.mod_lt _ (by decide)⟩

end KernelExperiments.SharedMapping
