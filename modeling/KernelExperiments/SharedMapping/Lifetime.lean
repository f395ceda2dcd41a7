import KernelExperiments.SharedMapping.FaultRange
import KernelExperiments.SharedMapping.TestPrograms

/-!
# The life of the area among its users

`insmod` registers the device before there is an area, and `rmmod` gives the area back before the
device is gone. `Lifetime` is the state of all that: where the module stands in `mapdrv_init` or
`mapdrv_exit`, the device table, the areas and reserved pages of the kernel, the references the
kernel counts for each page, and the files, vmas and page tables of the processes. `lifetimeStep`
takes one kernel call or loop iteration of the module, or one step of any process, which may come
between any two of the module.

At all times every page in a page table is a page of an area that has not been given back, the
counts are exact, and only such pages are reserved; and while the module is not loaded nothing of it
is left (`lifetime_law`).

## Scope

A file or a vma over the device keeps the module: `rmmod` is refused while there is one, and `open`
while the module leaves, as `.owner` asks for. A store through `NULL`, in the loop of `mapdrv_init`
without an area, ends `insmod`, and the module stays as it is. Copies of an address space by `fork`
are left out.
-/

set_option autoImplicit false
set_option relaxedAutoImplicit false

namespace KernelExperiments.SharedMapping

open Foundation

variable {w : ℕ} {Page Process : Type*}

/-! ### The module -/

/-- An area as `vmalloc(MAPLEN)` returns it. -/
structure AllocatedArea (w : ℕ) (Page : Type*) extends VmallocArea w Page where
  fits : address.toNat + 4096 * 10 ≤ (BitVec.allOnes w).toNat

/-- The first pages of an area. -/
def VmallocArea.firstPages (area : VmallocArea w Page) (count : ℕ) : List Page :=
  (List.range count).map area.page

/-- The outcomes of the kernel calls of a load. -/
structure LoadCalls (w : ℕ) (Page : Type*) where
  registerChrdev : ℤ
  vmalloc : Option (AllocatedArea w Page)

/-- Where the module stands: not loaded, in front of a call or an iteration of `mapdrv_init`, ended
in there, loaded, or in front of a call or an iteration of `mapdrv_exit`. -/
inductive ModulePc (w : ℕ)
  | unloaded
  | registerChrdev
  | vmalloc
  | reserveLoop (loop : InitLoop w)
  | stopped
  | loaded
  | clearLoop (virtAddr : BitVec w)
  | vfree
  | unregisterChrdev

/-- The module leaves. -/
def ModulePc.Going : ModulePc w → Prop
  | .clearLoop _ | .vfree | .unregisterChrdev => True
  | _ => False

instance decidableGoing : (pc : ModulePc w) → Decidable pc.Going
  | .clearLoop _ | .vfree | .unregisterChrdev => inferInstanceAs (Decidable True)
  | .unloaded | .registerChrdev | .vmalloc | .reserveLoop _ | .stopped | .loaded =>
    inferInstanceAs (Decidable False)

/-- One iteration of the loop of `mapdrv_exit`. -/
def exitBody (vmallocArea virtAddr : BitVec w) : Option (BitVec w) :=
  if virtAddr < vmallocArea + maplen w then some (virtAddr + BitVec.ofNat w 4096) else none

/-! ### The kernel and the processes -/

/-- A page that a process has in its page table: one of the kernel, or a copy of its own. -/
structure TableEntry (Process Page : Type*) where
  process : Process
  number : ℕ
  page : Option Page
  deriving DecidableEq

/-- The module, what the kernel holds for it, and what the processes have of the device. -/
structure Lifetime (w : ℕ) (Page Process : Type*) where
  pc : ModulePc w
  vmallocArea : BitVec w
  registered : Bool
  vmallocToPage : BitVec w → Page
  live : List (AllocatedArea w Page)
  reserved : Page → Bool
  refs : Page → ℕ
  files : List Process
  vmas : List (Process × VmArea w)
  table : List (TableEntry Process Page)

/-- A step of the module, or a process opens or closes the device, maps it, cuts its mappings, or
loads from an address or stores to it. -/
inductive LifetimeEvent (w : ℕ) (Page Process : Type*)
  | module (calls : LoadCalls w Page)
  | openFile (process : Process)
  | closeFile (process : Process)
  | mmap (process : Process) (vma : VmArea w)
  | call (process : Process) (op : MapOp w)
  | touch (process : Process) (address : BitVec w) (store : Bool)

section Step

variable [DecidableEq Page]

/-- References to pages are taken. -/
def getPages (refs : Page → ℕ) (pages : List Page) : Page → ℕ :=
  fun page ↦ refs page + pages.count page

/-- References to pages are dropped. -/
def putPages (refs : Page → ℕ) (pages : List Page) : Page → ℕ :=
  fun page ↦ refs page - pages.count page

/-- `insmod` and `rmmod`, one kernel call or iteration at a time. -/
def Lifetime.moduleStep (state : Lifetime w Page Process) (calls : LoadCalls w Page) :
    Lifetime w Page Process :=
  match state.pc with
  | .unloaded => { state with pc := .registerChrdev, vmallocArea := 0 }
  | .registerChrdev =>
    if calls.registerChrdev < 0 then { state with pc := .unloaded }
    else { state with pc := .vmalloc, registered := true }
  | .vmalloc =>
    match calls.vmalloc with
    | none => { state with pc := .reserveLoop ⟨0, 1, []⟩, vmallocArea := 0 }
    | some area =>
      { state with
        pc := .reserveLoop ⟨area.address, 1, []⟩
        vmallocArea := area.address
        vmallocToPage := area.vmallocToPage
        live := state.live ++ [area]
        refs := getPages state.refs (area.firstPages 10) }
  | .reserveLoop loop =>
    match initBody state.vmallocArea loop with
    | none => { state with pc := .loaded }
    | some next =>
      if state.vmallocArea = 0 then { state with pc := .stopped }
      else
        { state with
          pc := .reserveLoop next
          reserved := Function.update state.reserved (state.vmallocToPage loop.virtAddr) true }
  | .stopped => state
  | .loaded =>
    if state.files = [] ∧ state.vmas = [] then { state with pc := .clearLoop state.vmallocArea }
    else state
  | .clearLoop virtAddr =>
    match exitBody state.vmallocArea virtAddr with
    | none => { state with pc := .vfree }
    | some next =>
      { state with
        pc := .clearLoop next
        reserved := Function.update state.reserved (state.vmallocToPage virtAddr) false }
  | .vfree =>
    if state.vmallocArea ≠ 0 then
      let freed := state.live.filter fun area ↦ decide (area.address = state.vmallocArea)
      { state with
        pc := .unregisterChrdev
        live := state.live.filter fun area ↦ decide (area.address ≠ state.vmallocArea)
        refs := putPages state.refs (freed.flatMap fun area ↦ area.firstPages 10) }
    else { state with pc := .unregisterChrdev }
  | .unregisterChrdev => { state with pc := .unloaded, registered := false }

variable [DecidableEq Process]

/-- The vma of an address of a process. -/
def Lifetime.vmaAt (state : Lifetime w Page Process) (process : Process) (address : BitVec w) :
    Option (VmArea w) :=
  (state.vmas.find? fun entry ↦ decide (entry.1 = process ∧ entry.2.Contains address)).map Prod.snd

/-- The entry of an address in the page table of a process. -/
def Lifetime.entryAt (state : Lifetime w Page Process) (process : Process) (address : BitVec w) :
    Option (TableEntry Process Page) :=
  state.table.find? fun entry ↦
    decide (entry.process = process ∧ entry.number = pageNumber address)

/-- The flags of which an access needs one. -/
def accessMask (w : ℕ) (store : Bool) : BitVec w := if store then vmWrite w else vmAccess w

/-- A load or a store. The first one asks `map_fault` for a page, with a reference; a store to a
private vma drops the reference when it has copied the page. -/
def Lifetime.touch (state : Lifetime w Page Process) (process : Process) (address : BitVec w)
    (store : Bool) : Lifetime w Page Process :=
  match state.vmaAt process address with
  | none => state
  | some vma =>
    if vma.Has (accessMask w store) then
      let copies := store = true ∧ ¬ vma.Has (vmShared w)
      match state.entryAt process address with
      | some entry =>
        if copies then
          { state with
            table := { entry with page := none } :: state.table.erase entry
            refs := putPages state.refs entry.page.toList }
        else state
      | none =>
        match (mapFault state.vmallocArea state.vmallocToPage (vma.faultAt address)).page with
        | none => state
        | some page =>
          if copies then
            { state with table := ⟨process, pageNumber address, none⟩ :: state.table }
          else
            { state with
              table := ⟨process, pageNumber address, some page⟩ :: state.table
              refs := getPages state.refs [page] }
    else state

/-- A call cuts the vmas of a process, and the references of the pages it takes away are dropped. -/
def Lifetime.call (state : Lifetime w Page Process) (process : Process) (op : MapOp w) :
    Lifetime w Page Process :=
  let removed (entry : TableEntry Process Page) :=
    decide (entry.process = process ∧ op.Removes entry.number)
  { state with
    vmas := state.vmas.flatMap fun entry ↦
      if entry.1 = process then (op.apply entry.2).map fun piece ↦ (entry.1, piece) else [entry]
    table := state.table.filter fun entry ↦ !removed entry
    refs := putPages state.refs ((state.table.filter removed).filterMap TableEntry.page) }

/-- A step of the module or of a process. -/
def lifetimeStep (state : Lifetime w Page Process) :
    LifetimeEvent w Page Process → Lifetime w Page Process
  | .module calls => state.moduleStep calls
  | .openFile process =>
    if state.registered ∧ ¬ state.pc.Going then { state with files := process :: state.files }
    else state
  | .closeFile process => { state with files := state.files.erase process }
  | .mmap process vma =>
    if process ∈ state.files ∧ ValidRange vma.vmStart vma.vmEnd ∧ (mapdrvMmap vma).1 = 0 then
      { state with vmas := state.vmas ++ [(process, (mapdrvMmap vma).2)] }
    else state
  | .call process op => state.call process op
  | .touch process address store => state.touch process address store

end Step

/-- Nothing is loaded, and nobody uses anything. -/
def Lifetime.start (vmallocToPage : BitVec w → Page) : Lifetime w Page Process :=
  ⟨.unloaded, 0, false, vmallocToPage, [], fun _ ↦ false, fun _ ↦ 0, [], [], []⟩

/-! ### The law -/

/-- The pages of the areas that have not been given back. -/
def Lifetime.livePages (state : Lifetime w Page Process) : List Page :=
  state.live.flatMap fun area ↦ area.firstPages 10

/-- The kernel pages in the page tables, one for each place where there is one. -/
def Lifetime.mappedPages (state : Lifetime w Page Process) : List Page :=
  state.table.filterMap TableEntry.page

/-- What holds at all times: what is mapped or reserved is live, and each page is counted for its
area and for each place where it is mapped; a device that is in use does not go away, a loaded
module has reserved its area, and nothing is left of one that is not loaded. -/
structure LifetimeLaw [DecidableEq Page] (state : Lifetime w Page Process) : Prop where
  mapped_live : ∀ page ∈ state.mappedPages, page ∈ state.livePages
  refs_eq : ∀ page, state.refs page = state.livePages.count page + state.mappedPages.count page
  reserved_live : ∀ page, state.reserved page = true → page ∈ state.livePages
  of_used : state.files ≠ [] ∨ state.vmas ≠ [] → state.registered = true ∧ ¬ state.pc.Going
  of_loaded : state.pc = .loaded → state.registered = true ∧ ∃ area, state.live = [area] ∧
    area.address = state.vmallocArea ∧ ∀ page ∈ area.firstPages 10, state.reserved page = true
  of_unloaded : state.pc = .unloaded → state.registered = false ∧ state.live = [] ∧
    (∀ page, state.refs page = 0 ∧ state.reserved page = false) ∧
    state.files = [] ∧ state.vmas = [] ∧ state.table = []

/-! ### The page tables -/

/-- The page tables are of whole vmas and live pages, and the counts are exact. -/
structure TablesSound [DecidableEq Page] (state : Lifetime w Page Process) : Prop where
  vmas_valid : ∀ entry ∈ state.vmas, ValidRange entry.2.vmStart entry.2.vmEnd
  table_held : ∀ entry ∈ state.table,
    ∃ vma, (entry.process, vma) ∈ state.vmas ∧ vma.HoldsPage entry.number
  mapped_live : ∀ page ∈ state.mappedPages, page ∈ state.livePages
  refs_eq : ∀ page, state.refs page = state.livePages.count page + state.mappedPages.count page

section Tables

variable [DecidableEq Page] {state : Lifetime w Page Process}

/-- Without vmas there is nothing in the page tables. -/
theorem TablesSound.table_eq_nil (htables : TablesSound state) (hvmas : state.vmas = []) :
    state.table = [] := by
  refine List.eq_nil_iff_forall_not_mem.mpr fun entry hentry ↦ ?_
  obtain ⟨vma, hvma, -⟩ := htables.table_held entry hentry
  rw [hvmas] at hvma
  cases hvma

/-- The rule for changes of the page tables: what is counted changes by what is mapped. -/
theorem TablesSound.update (htables : TablesSound state) {vmas : List (Process × VmArea w)}
    {table : List (TableEntry Process Page)} {refs : Page → ℕ}
    (hvalid : ∀ entry ∈ vmas, ValidRange entry.2.vmStart entry.2.vmEnd)
    (hheld : ∀ entry ∈ table, ∃ vma, (entry.process, vma) ∈ vmas ∧ vma.HoldsPage entry.number)
    (hlive : ∀ page ∈ table.filterMap TableEntry.page, page ∈ state.livePages)
    (hrefs : ∀ page, refs page + state.mappedPages.count page =
      state.refs page + (table.filterMap TableEntry.page).count page) :
    TablesSound { state with vmas, table, refs } where
  vmas_valid := hvalid
  table_held := hheld
  mapped_live := hlive
  refs_eq page := by
    have hpage := hrefs page
    have hold := htables.refs_eq page
    change refs page = state.livePages.count page + (table.filterMap TableEntry.page).count page
    omega

theorem count_mapped_cons (entry : TableEntry Process Page)
    (table : List (TableEntry Process Page)) (page : Page) :
    ((entry :: table).filterMap TableEntry.page).count page =
      (table.filterMap TableEntry.page).count page + entry.page.toList.count page := by
  cases hpage : entry.page with
  | none => rw [List.filterMap_cons_none hpage]; rfl
  | some mapped =>
    rw [List.filterMap_cons_some hpage, List.count_cons, Option.toList_some, List.count_singleton]

/-- A process maps the device. -/
theorem TablesSound.mmap (htables : TablesSound state) {process : Process} {vma : VmArea w}
    (hvalid : ValidRange vma.vmStart vma.vmEnd) :
    TablesSound { state with vmas := state.vmas ++ [(process, vma)] } := by
  refine htables.update ?_ ?_ htables.mapped_live fun page ↦ rfl
  · exact List.forall_mem_append.mpr ⟨htables.vmas_valid, List.forall_mem_singleton.mpr hvalid⟩
  · intro entry hentry
    obtain ⟨held, hheld, hholds⟩ := htables.table_held entry hentry
    exact ⟨held, List.mem_append_left _ hheld, hholds⟩

/-- An entry comes to a page table. -/
theorem TablesSound.insert (htables : TablesSound state) {entry : TableEntry Process Page}
    {vma : VmArea w} (hvma : (entry.process, vma) ∈ state.vmas)
    (hholds : vma.HoldsPage entry.number)
    (hlive : ∀ page, entry.page = some page → page ∈ state.livePages) :
    TablesSound { state with
      table := entry :: state.table
      refs := getPages state.refs entry.page.toList } := by
  refine htables.update htables.vmas_valid ?_ ?_ fun page ↦ ?_
  · exact List.forall_mem_cons.mpr ⟨⟨vma, hvma, hholds⟩, htables.table_held⟩
  · intro page hpage
    obtain ⟨mapped, hmapped, hsome⟩ := List.mem_filterMap.mp hpage
    rcases List.mem_cons.mp hmapped with rfl | hold
    · exact hlive page hsome
    · exact htables.mapped_live page (List.mem_filterMap.mpr ⟨mapped, hold, hsome⟩)
  · rw [count_mapped_cons, getPages, Lifetime.mappedPages]
    omega

/-- A process gets a copy of a page that it has mapped. -/
theorem TablesSound.copy [DecidableEq Process] (htables : TablesSound state)
    {entry : TableEntry Process Page} (hentry : entry ∈ state.table) :
    TablesSound { state with
      table := { entry with page := none } :: state.table.erase entry
      refs := putPages state.refs entry.page.toList } := by
  have hcount : ∀ page, state.mappedPages.count page =
      ((state.table.erase entry).filterMap TableEntry.page).count page +
        entry.page.toList.count page := by
    intro page
    rw [← count_mapped_cons]
    exact ((List.perm_cons_erase hentry).filterMap _).count_eq page
  refine htables.update htables.vmas_valid ?_ ?_ fun page ↦ ?_
  · exact List.forall_mem_cons.mpr ⟨htables.table_held entry hentry,
      fun other hother ↦ htables.table_held other (List.mem_of_mem_erase hother)⟩
  · intro page hpage
    rw [List.filterMap_cons_none rfl] at hpage
    obtain ⟨mapped, hmapped, hsome⟩ := List.mem_filterMap.mp hpage
    exact htables.mapped_live page
      (List.mem_filterMap.mpr ⟨mapped, List.mem_of_mem_erase hmapped, hsome⟩)
  · have hold := htables.refs_eq page
    have hpage := hcount page
    rw [List.filterMap_cons_none rfl, putPages]
    omega

/-- A call takes from the page tables what it takes from the vmas. -/
theorem TablesSound.call [DecidableEq Process] (htables : TablesSound state) (process : Process)
    (op : MapOp w) : TablesSound (state.call process op) := by
  have hcount : ∀ (removed : TableEntry Process Page → Bool) (page : Page),
      state.mappedPages.count page =
        ((state.table.filter fun entry ↦ !removed entry).filterMap TableEntry.page).count page +
          ((state.table.filter removed).filterMap TableEntry.page).count page := by
    intro removed page
    have hperm := (List.filter_append_perm removed state.table).filterMap TableEntry.page
    rw [Lifetime.mappedPages, ← hperm.count_eq page, List.filterMap_append, List.count_append,
      Nat.add_comm]
  unfold Lifetime.call
  refine htables.update ?_ ?_ ?_ fun page ↦ ?_
  · intro entry hentry
    obtain ⟨whole, hwhole, hmem⟩ := List.mem_flatMap.mp hentry
    have hvalid := htables.vmas_valid whole hwhole
    split_ifs at hmem with hprocess
    · obtain ⟨piece, hpiece, rfl⟩ := List.mem_map.mp hmem
      have hpieces : ∀ part ∈ op.apply whole.2, ValidRange part.vmStart part.vmEnd :=
        forall_mem_apply hvalid.2.1 hvalid.2.2 hvalid
          (fun _ _ _ hlt _ hstart hfinish ↦ ⟨BitVec.lt_def.mpr hlt, hstart, hfinish⟩)
          (fun _ _ hpart ↦ hpart) op
      exact hpieces piece hpiece
    · rw [List.mem_singleton.mp hmem]
      exact hvalid
  · intro entry hentry
    obtain ⟨hmem, hkept⟩ := List.mem_filter.mp hentry
    obtain ⟨vma, hvma, hholds⟩ := htables.table_held entry hmem
    by_cases hprocess : entry.process = process
    · have hstays : ¬ op.Removes entry.number := by
        intro hremoves
        simp [hprocess, hremoves] at hkept
      obtain ⟨piece, hpiece, hin⟩ := exists_mem_apply_holdsPage hholds hstays
      refine ⟨piece, List.mem_flatMap.mpr ⟨_, hvma, ?_⟩, hin⟩
      rw [if_pos hprocess]
      exact List.mem_map_of_mem hpiece
    · refine ⟨vma, List.mem_flatMap.mpr ⟨_, hvma, ?_⟩, hholds⟩
      rw [if_neg hprocess]
      exact List.mem_singleton.mpr rfl
  · intro page hpage
    obtain ⟨entry, hentry, hsome⟩ := List.mem_filterMap.mp hpage
    exact htables.mapped_live page
      (List.mem_filterMap.mpr ⟨entry, (List.mem_filter.mp hentry).1, hsome⟩)
  · have hold := htables.refs_eq page
    have hpage := hcount
      (fun entry ↦ decide (entry.process = process ∧ op.Removes entry.number)) page
    dsimp only [putPages]
    omega

end Tables

/-! ### The module -/

/-- The area is the only one, `vmalloc_area` points to it, and its pages are found. -/
structure KnownArea (live : List (AllocatedArea w Page)) (vmallocArea : BitVec w)
    (vmallocToPage : BitVec w → Page) (area : AllocatedArea w Page) : Prop where
  live_eq : live = [area]
  vmallocArea_eq : vmallocArea = area.address
  vmallocToPage_eq : vmallocToPage = area.vmallocToPage

/-- The module has the area. -/
def Lifetime.Has (state : Lifetime w Page Process) (area : AllocatedArea w Page) : Prop :=
  KnownArea state.live state.vmallocArea state.vmallocToPage area

/-- There is no area, and no page is reserved. -/
def Lifetime.Bare (state : Lifetime w Page Process) : Prop :=
  state.live = [] ∧ ∀ page, state.reserved page = false

/-- What the module has where it stands. -/
def Lifetime.ModuleSound (state : Lifetime w Page Process) : Prop :=
  match state.pc with
  | .unloaded => state.registered = false ∧ state.Bare
  | .registerChrdev => state.registered = false ∧ state.Bare ∧ state.vmallocArea = 0
  | .vmalloc | .stopped => state.registered = true ∧ state.Bare ∧ state.vmallocArea = 0
  | .reserveLoop loop => state.registered = true ∧
      (state.Bare ∧ state.vmallocArea = 0 ∧ loop.virtAddr = 0 ∨
        ∃ area, state.Has area ∧ ∃ count ≤ 10,
          loop.virtAddr = area.address + BitVec.ofNat w (4096 * count) ∧
            ∀ page, state.reserved page = true ↔ page ∈ area.firstPages count)
  | .loaded => state.registered = true ∧ ∃ area, state.Has area ∧
      ∀ page, state.reserved page = true ↔ page ∈ area.firstPages 10
  | .clearLoop virtAddr => state.registered = true ∧ ∃ area, state.Has area ∧ ∃ count ≤ 10,
      virtAddr = area.address + BitVec.ofNat w (4096 * count) ∧
        ∀ page, state.reserved page = true ↔
          page ∈ area.firstPages 10 ∧ page ∉ area.firstPages count
  | .vfree => state.registered = true ∧ (∃ area, state.Has area) ∧
      ∀ page, state.reserved page = false
  | .unregisterChrdev => state.registered = true ∧ state.Bare

/-- The device can be opened. -/
def Lifetime.Open (state : Lifetime w Page Process) : Prop :=
  state.registered = true ∧ ¬ state.pc.Going

/-- What holds all along: nobody uses a device that cannot be opened. -/
structure LifetimeSound [DecidableEq Page] (state : Lifetime w Page Process) : Prop where
  tables : TablesSound state
  module : state.ModuleSound
  closed : ¬ state.Open → state.files = [] ∧ state.vmas = []

section Module

variable {state : Lifetime w Page Process}

theorem KnownArea.livePages_eq {area : AllocatedArea w Page}
    (hhas : KnownArea state.live state.vmallocArea state.vmallocToPage area) :
    state.livePages = area.firstPages 10 := by
  rw [Lifetime.livePages, hhas.live_eq, List.flatMap_singleton]

theorem VmallocArea.mem_firstPages_succ (area : VmallocArea w Page) (count : ℕ) (page : Page) :
    page ∈ area.firstPages (count + 1) ↔ page ∈ area.firstPages count ∨ page = area.page count := by
  unfold VmallocArea.firstPages
  rw [List.range_succ, List.map_append, List.mem_append, List.map_singleton, List.mem_singleton]

/-- The guards of the two loops at a page of the area. -/
theorem AllocatedArea.virtAddr_lt_iff (area : AllocatedArea w Page) {count : ℕ}
    (hcount : count ≤ 10) :
    area.address + BitVec.ofNat w (4096 * count) < area.address + maplen w ↔ count < 10 := by
  have hfits := area.fits
  rw [BitVec.lt_def, maplen, toNat_add_ofNat_of_le (by omega), toNat_add_ofNat_of_le hfits]
  omega

theorem virtAddr_succ (address : BitVec w) (count : ℕ) :
    address + BitVec.ofNat w (4096 * count) + BitVec.ofNat w 4096 =
      address + BitVec.ofNat w (4096 * (count + 1)) := by
  rw [BitVec.add_assoc, ← BitVec.ofNat_add, Nat.mul_succ]

variable [DecidableEq Page]

/-- `map_fault` finds no page, or one of the area. -/
theorem LifetimeSound.mem_livePages_of_fault (hsound : LifetimeSound state) (hw : 32 ≤ w)
    (hopen : state.Open) {vmf : VmFault w} {page : Page}
    (hpage : (mapFault state.vmallocArea state.vmallocToPage vmf).page = some page) :
    page ∈ state.livePages := by
  have harea : state.vmallocArea = 0 ∨ ∃ area, state.Has area := by
    have hmodule := hsound.module
    obtain ⟨hregistered, hgoing⟩ := hopen
    unfold Lifetime.ModuleSound at hmodule
    cases hpc : state.pc with
    | unloaded | registerChrdev =>
      simp only [hpc, hregistered, Bool.true_eq_false, false_and] at hmodule
    | vmalloc | stopped =>
      simp only [hpc] at hmodule
      exact Or.inl hmodule.2.2
    | reserveLoop loop =>
      simp only [hpc] at hmodule
      rcases hmodule.2 with ⟨-, hnull, -⟩ | ⟨area, hhas, -⟩
      · exact Or.inl hnull
      · exact Or.inr ⟨area, hhas⟩
    | loaded =>
      simp only [hpc] at hmodule
      obtain ⟨-, area, hhas, -⟩ := hmodule
      exact Or.inr ⟨area, hhas⟩
    | clearLoop _ | vfree | unregisterChrdev =>
      rw [hpc] at hgoing
      exact absurd trivial hgoing
  have hpow : 2 ^ 32 ≤ 2 ^ w := Nat.pow_le_pow_right (by omega) hw
  rcases harea with hnull | ⟨area, hhas⟩
  · rw [mapFault, if_pos hnull] at hpage
    cases hpage
  · rcases mapFault_cases state.vmallocArea state.vmallocToPage vmf with
      hresult | ⟨distance, hinside, hresult⟩
    · rw [hresult] at hpage
      cases hpage
    · rw [hresult] at hpage
      rw [BitVec.le_def, maplen, BitVec.toNat_ofNat, Nat.mod_eq_of_lt (by omega),
        Nat.not_le] at hinside
      have hoffset := area.vmallocToPage_offset distance.toNat hinside
      rw [BitVec.ofNat_toNat, BitVec.setWidth_eq] at hoffset
      rw [hhas.livePages_eq, ← Option.some.inj hpage, hhas.vmallocToPage_eq, hhas.vmallocArea_eq,
        hoffset]
      exact List.mem_map.mpr ⟨distance.toNat / 4096, List.mem_range.mpr (by omega), rfl⟩

/-- The page tables depend neither on where the module stands nor on who has the device open. -/
theorem TablesSound.module (htables : TablesSound state) {pc : ModulePc w} {vmallocArea : BitVec w}
    {registered : Bool} {reserved : Page → Bool} {files : List Process} :
    TablesSound { state with pc, vmallocArea, registered, reserved, files } where
  vmas_valid := htables.vmas_valid
  table_held := htables.table_held
  mapped_live := htables.mapped_live
  refs_eq := htables.refs_eq

/-- `vmalloc` counts each page of the area once. -/
theorem TablesSound.allocate (htables : TablesSound state) (area : AllocatedArea w Page)
    {pc : ModulePc w} {vmallocArea : BitVec w} {vmallocToPage : BitVec w → Page} :
    TablesSound { state with
      pc, vmallocArea, vmallocToPage
      live := state.live ++ [area]
      refs := getPages state.refs (area.firstPages 10) } where
  vmas_valid := htables.vmas_valid
  table_held := htables.table_held
  mapped_live page hpage := by
    rw [Lifetime.livePages, List.flatMap_append]
    exact List.mem_append_left _ (htables.mapped_live page hpage)
  refs_eq page := by
    have hold := htables.refs_eq page
    simp only [Lifetime.livePages, Lifetime.mappedPages, List.flatMap_append,
      List.flatMap_singleton, List.count_append, getPages] at hold ⊢
    omega

/-- `vfree` gives the only area back when no page is mapped. -/
theorem TablesSound.free (htables : TablesSound state) {area : AllocatedArea w Page}
    (hlive : state.live = [area]) (hunmapped : state.table = []) {pc : ModulePc w} :
    TablesSound { state with
      pc
      live := []
      refs := putPages state.refs (area.firstPages 10) } where
  vmas_valid := htables.vmas_valid
  table_held := htables.table_held
  mapped_live page hpage := by
    rw [Lifetime.mappedPages, hunmapped] at hpage
    cases hpage
  refs_eq page := by
    have hold := htables.refs_eq page
    simp only [Lifetime.livePages, Lifetime.mappedPages, hlive, hunmapped, putPages,
      List.flatMap_singleton, List.flatMap_nil, List.filterMap_nil, List.count_nil] at hold ⊢
    omega

/-- The steps of `mapdrv_init`. -/
theorem LifetimeSound.init (hsound : LifetimeSound state) (hw : 32 ≤ w) (calls : LoadCalls w Page)
    (hpc : state.pc = .unloaded ∨ state.pc = .registerChrdev ∨ state.pc = .vmalloc ∨
      ∃ loop, state.pc = .reserveLoop loop) : LifetimeSound (state.moduleStep calls) := by
  have hmodule := hsound.module
  have hclosed := hsound.closed
  unfold Lifetime.ModuleSound at hmodule
  unfold Lifetime.moduleStep
  rcases hpc with hpc | hpc | hpc | ⟨loop, hpc⟩
  · simp only [hpc] at hmodule ⊢
    refine ⟨hsound.tables.module, ⟨hmodule.1, hmodule.2, rfl⟩, fun _ ↦ hclosed fun hopen ↦ ?_⟩
    cases hopen.1.symm.trans hmodule.1
  · simp only [hpc] at hmodule ⊢
    split_ifs with hfailed
    · refine ⟨hsound.tables.module, ⟨hmodule.1, hmodule.2.1⟩, fun _ ↦ hclosed fun hopen ↦ ?_⟩
      cases hopen.1.symm.trans hmodule.1
    · exact ⟨hsound.tables.module, ⟨rfl, hmodule.2⟩, fun hnot ↦ absurd ⟨rfl, not_false⟩ hnot⟩
  · simp only [hpc] at hmodule ⊢
    obtain ⟨hregistered, hbare, -⟩ := hmodule
    cases calls.vmalloc with
    | none =>
      exact ⟨hsound.tables.module, ⟨hregistered, Or.inl ⟨hbare, rfl, rfl⟩⟩,
        fun hnot ↦ absurd ⟨hregistered, not_false⟩ hnot⟩
    | some area =>
      dsimp only
      have hlive : state.live ++ [area] = [area] := by rw [hbare.1, List.nil_append]
      refine ⟨hsound.tables.allocate area, ⟨hregistered, Or.inr ⟨area, ⟨hlive, rfl, rfl⟩, 0,
        Nat.zero_le _, (BitVec.add_zero _).symm, fun page ↦ ?_⟩⟩,
        fun hnot ↦ absurd ⟨hregistered, not_false⟩ hnot⟩
      exact iff_of_false (by simp [hbare.2]) List.not_mem_nil
  · simp only [hpc] at hmodule ⊢
    obtain ⟨hregistered, hloop⟩ := hmodule
    have hopen : ∀ hnot : ¬ (state.registered = true ∧ ¬ False),
        state.files = [] ∧ state.vmas = [] := fun hnot ↦ absurd ⟨hregistered, not_false⟩ hnot
    rcases hloop with ⟨hbare, hnull, hstart⟩ | ⟨area, hhas, count, hcount, hvirtAddr, hreserved⟩
    · have hguard : loop.virtAddr < state.vmallocArea + maplen w := by
        have hpow : 2 ^ 32 ≤ 2 ^ w := Nat.pow_le_pow_right (by omega) hw
        have hzero : 0 + maplen w = maplen w := BitVec.zero_add _
        rw [hstart, hnull, hzero, BitVec.lt_def, maplen, BitVec.toNat_ofNat,
          Nat.mod_eq_of_lt (by omega)]
        exact Nat.zero_lt_succ _
      rw [initBody_of_lt hguard]
      dsimp only
      rw [if_pos hnull]
      exact ⟨hsound.tables.module, ⟨hregistered, hbare, hnull⟩, hopen⟩
    · have hpage : state.vmallocToPage loop.virtAddr = area.page count := by
        rw [hhas.vmallocToPage_eq, hvirtAddr]
        rfl
      have hguard : loop.virtAddr < state.vmallocArea + maplen w ↔ count < 10 := by
        rw [hvirtAddr, hhas.vmallocArea_eq]
        exact area.virtAddr_lt_iff hcount
      rcases Nat.lt_or_ge count 10 with hlt | hge
      · rw [initBody_of_lt (hguard.mpr hlt)]
        dsimp only
        rw [if_neg (hhas.vmallocArea_eq ▸ area.address_ne_zero)]
        refine ⟨hsound.tables.module, ⟨hregistered, Or.inr ⟨area, hhas, count + 1, hlt, ?_,
          fun page ↦ ?_⟩⟩, hopen⟩
        · dsimp only
          rw [hvirtAddr, virtAddr_succ]
        · dsimp only
          rw [area.mem_firstPages_succ, ← hreserved page, Function.update_apply, hpage]
          split_ifs with hsame
          · exact iff_of_true rfl (Or.inr hsame)
          · exact (or_iff_left hsame).symm
      · rw [initBody, if_neg fun hinside ↦ absurd (hguard.mp hinside) (Nat.not_lt.mpr hge)]
        dsimp only
        obtain rfl : count = 10 := Nat.le_antisymm hcount hge
        exact ⟨hsound.tables.module, ⟨hregistered, area, hhas, hreserved⟩, hopen⟩

/-- The steps of `mapdrv_exit`. -/
theorem LifetimeSound.exit (hsound : LifetimeSound state) (calls : LoadCalls w Page)
    (hpc : state.pc = .loaded ∨ state.pc.Going) : LifetimeSound (state.moduleStep calls) := by
  have hmodule := hsound.module
  have hclosed : state.pc.Going → state.files = [] ∧ state.vmas = [] :=
    fun hgoing ↦ hsound.closed fun hopen ↦ hopen.2 hgoing
  unfold Lifetime.ModuleSound at hmodule
  unfold Lifetime.moduleStep
  cases hstate : state.pc with
  | loaded =>
    simp only [hstate] at hmodule ⊢
    split_ifs with hunused
    · obtain ⟨hregistered, area, hhas, hreserved⟩ := hmodule
      refine ⟨hsound.tables.module, ⟨hregistered, area, hhas, 0, Nat.zero_le _, ?_,
        fun page ↦ ?_⟩, fun _ ↦ hunused⟩
      · rw [hhas.vmallocArea_eq]
        exact (BitVec.add_zero _).symm
      · exact (hreserved page).trans (and_iff_left List.not_mem_nil).symm
    · exact hsound
  | clearLoop virtAddr =>
    simp only [hstate] at hmodule ⊢
    obtain ⟨hregistered, area, hhas, count, hcount, hvirtAddr, hreserved⟩ := hmodule
    have hunused : state.files = [] ∧ state.vmas = [] := hclosed (by rw [hstate]; trivial)
    have hpage : state.vmallocToPage virtAddr = area.page count := by
      rw [hhas.vmallocToPage_eq, hvirtAddr]
      rfl
    have hguard : virtAddr < state.vmallocArea + maplen w ↔ count < 10 := by
      rw [hvirtAddr, hhas.vmallocArea_eq]
      exact area.virtAddr_lt_iff hcount
    unfold exitBody
    rcases Nat.lt_or_ge count 10 with hlt | hge
    · rw [if_pos (hguard.mpr hlt)]
      dsimp only
      refine ⟨hsound.tables.module, ⟨hregistered, area, hhas, count + 1, hlt, ?_,
        fun page ↦ ?_⟩, fun _ ↦ hunused⟩
      · rw [hvirtAddr, virtAddr_succ]
      · dsimp only
        rw [area.mem_firstPages_succ count page, Function.update_apply, hpage]
        by_cases hsame : page = area.page count
        · rw [if_pos hsame]
          exact iff_of_false Bool.false_ne_true fun hnot ↦ hnot.2 (Or.inr hsame)
        · rw [if_neg hsame, hreserved page, or_iff_left hsame]
    · rw [if_neg fun hinside ↦ absurd (hguard.mp hinside) (Nat.not_lt.mpr hge)]
      dsimp only
      obtain rfl : count = 10 := Nat.le_antisymm hcount hge
      refine ⟨hsound.tables.module, ⟨hregistered, ⟨area, hhas⟩, fun page ↦ ?_⟩,
        fun _ ↦ hunused⟩
      exact Bool.eq_false_iff.mpr fun htrue ↦ and_not_self ((hreserved page).mp htrue)
  | vfree =>
    simp only [hstate] at hmodule ⊢
    obtain ⟨hregistered, ⟨area, hhas⟩, hreserved⟩ := hmodule
    have hunused : state.files = [] ∧ state.vmas = [] := hclosed (by rw [hstate]; trivial)
    rw [if_pos (hhas.vmallocArea_eq ▸ area.address_ne_zero)]
    have hkept : (state.live.filter fun area ↦ decide (area.address ≠ state.vmallocArea)) = [] := by
      rw [hhas.live_eq, hhas.vmallocArea_eq]
      simp
    have hfreed : (state.live.filter fun area ↦ decide (area.address = state.vmallocArea)) =
        [area] := by
      rw [hhas.live_eq, hhas.vmallocArea_eq]
      simp
    rw [hkept, hfreed, List.flatMap_singleton]
    exact ⟨hsound.tables.free hhas.live_eq (hsound.tables.table_eq_nil hunused.2),
      ⟨hregistered, rfl, hreserved⟩, fun _ ↦ hunused⟩
  | unregisterChrdev =>
    simp only [hstate] at hmodule ⊢
    have hunused : state.files = [] ∧ state.vmas = [] := hclosed (by rw [hstate]; trivial)
    exact ⟨hsound.tables.module, ⟨rfl, hmodule.2⟩, fun _ ↦ hunused⟩
  | unloaded | registerChrdev | vmalloc | reserveLoop _ | stopped =>
    rw [hstate] at hpc
    rcases hpc with hpc | hpc
    · cases hpc
    · exact hpc.elim

end Module

/-! ### Whole runs -/

section Runs

variable [DecidableEq Page] [DecidableEq Process] {state : Lifetime w Page Process}

/-- The vma that is found is one of the process, and holds the page of the address. -/
theorem TablesSound.vmaAt_eq_some (htables : TablesSound state) {process : Process}
    {address : BitVec w} {vma : VmArea w} (hvma : state.vmaAt process address = some vma) :
    (process, vma) ∈ state.vmas ∧ vma.HoldsPage (pageNumber address) := by
  obtain ⟨entry, hfind, rfl⟩ := Option.map_eq_some_iff.mp hvma
  have hmem := List.mem_of_find?_eq_some hfind
  have hfound := List.find?_some hfind
  obtain ⟨rfl, hlow, hhigh⟩ := of_decide_eq_true hfound
  obtain ⟨-, hstart, hend⟩ := htables.vmas_valid entry hmem
  rw [BitVec.le_def] at hlow
  rw [BitVec.lt_def] at hhigh
  refine ⟨hmem, ?_, ?_⟩ <;> rw [pageNumber] <;> omega

/-- A load or a store. -/
theorem LifetimeSound.touch (hsound : LifetimeSound state) (hw : 32 ≤ w) (process : Process)
    (address : BitVec w) (store : Bool) : LifetimeSound (state.touch process address store) := by
  unfold Lifetime.touch
  cases hvma : state.vmaAt process address with
  | none => exact hsound
  | some vma =>
    obtain ⟨hmem, hholds⟩ := hsound.tables.vmaAt_eq_some hvma
    have hopen : state.Open := by
      by_contra hnot
      rw [(hsound.closed hnot).2] at hmem
      cases hmem
    dsimp only
    by_cases haccess : vma.Has (accessMask w store)
    case neg =>
      rw [if_neg haccess]
      exact hsound
    rw [if_pos haccess]
    cases hentry : state.entryAt process address with
    | some entry =>
      have hold := List.mem_of_find?_eq_some hentry
      dsimp only
      split_ifs with hcopies
      · exact ⟨hsound.tables.copy hold, hsound.module, hsound.closed⟩
      · exact hsound
    | none =>
      dsimp only
      cases hpage : (mapFault state.vmallocArea state.vmallocToPage (vma.faultAt address)).page with
      | none => exact hsound
      | some page =>
        have hlive := hsound.mem_livePages_of_fault hw hopen hpage
        dsimp only
        split_ifs with hcopies
        · have hinsert := @TablesSound.insert _ _ _ _ _ hsound.tables
            ⟨process, pageNumber address, none⟩ vma hmem hholds fun _ hnone ↦ by cases hnone
          exact ⟨hinsert, hsound.module, hsound.closed⟩
        · have hinsert := @TablesSound.insert _ _ _ _ _ hsound.tables
            ⟨process, pageNumber address, some page⟩ vma hmem hholds
            fun other hother ↦ Option.some.inj hother ▸ hlive
          exact ⟨hinsert, hsound.module, hsound.closed⟩

/-- A step of the module or of a process. -/
theorem LifetimeSound.step (hsound : LifetimeSound state) (hw : 32 ≤ w)
    (event : LifetimeEvent w Page Process) : LifetimeSound (lifetimeStep state event) := by
  cases event with
  | module calls =>
    unfold lifetimeStep
    cases hpc : state.pc with
    | unloaded => exact hsound.init hw calls (Or.inl hpc)
    | registerChrdev => exact hsound.init hw calls (Or.inr (Or.inl hpc))
    | vmalloc => exact hsound.init hw calls (Or.inr (Or.inr (Or.inl hpc)))
    | reserveLoop loop => exact hsound.init hw calls (Or.inr (Or.inr (Or.inr ⟨loop, hpc⟩)))
    | stopped =>
      simp only [Lifetime.moduleStep, hpc]
      exact hsound
    | loaded => exact hsound.exit calls (Or.inl hpc)
    | clearLoop _ | vfree | unregisterChrdev =>
      exact hsound.exit calls (Or.inr (by rw [hpc]; trivial))
  | openFile process =>
    rw [lifetimeStep]
    split_ifs with hopen
    · exact ⟨hsound.tables.module, hsound.module, fun hnot ↦ absurd hopen hnot⟩
    · exact hsound
  | closeFile process =>
    refine ⟨hsound.tables.module, hsound.module, fun hnot ↦ ?_⟩
    obtain ⟨hfiles, hvmas⟩ := hsound.closed hnot
    refine ⟨?_, hvmas⟩
    rw [lifetimeStep, hfiles]
    rfl
  | mmap process vma =>
    rw [lifetimeStep]
    split_ifs with haccepted
    · obtain ⟨hopened, hvalid, haccepted⟩ := haccepted
      obtain ⟨-, -, -, hresult⟩ := mapdrvMmap_of_accepted haccepted
      refine ⟨hsound.tables.mmap ?_, hsound.module, fun hnot ↦ ?_⟩
      · rw [hresult]
        exact hvalid
      · rw [(hsound.closed hnot).1] at hopened
        cases hopened
    · exact hsound
  | call process op =>
    refine ⟨hsound.tables.call process op, hsound.module, fun hnot ↦ ?_⟩
    obtain ⟨hfiles, hvmas⟩ := hsound.closed hnot
    refine ⟨hfiles, ?_⟩
    rw [lifetimeStep, Lifetime.call, hvmas]
    rfl
  | touch process address store => exact hsound.touch hw process address store

omit [DecidableEq Process] in
theorem lifetimeSound_start (vmallocToPage : BitVec w → Page) :
    LifetimeSound (Lifetime.start vmallocToPage : Lifetime w Page Process) where
  tables := ⟨List.forall_mem_nil _, List.forall_mem_nil _, List.forall_mem_nil _, fun _ ↦ rfl⟩
  module := ⟨rfl, rfl, fun _ ↦ rfl⟩
  closed _ := ⟨rfl, rfl⟩

omit [DecidableEq Process] in
/-- The law follows from where the module stands. -/
theorem LifetimeSound.law (hsound : LifetimeSound state) : LifetimeLaw state := by
  have htables := hsound.tables
  have hmodule := hsound.module
  unfold Lifetime.ModuleSound at hmodule
  refine ⟨htables.mapped_live, htables.refs_eq, fun page hpage ↦ ?_, fun hused ↦ ?_,
    fun hpc ↦ ?_, fun hpc ↦ ?_⟩
  · cases hpc : state.pc with
    | unloaded | unregisterChrdev =>
      simp only [hpc] at hmodule
      cases (hmodule.2.2 page).symm.trans hpage
    | registerChrdev | vmalloc | stopped =>
      simp only [hpc] at hmodule
      cases (hmodule.2.1.2 page).symm.trans hpage
    | reserveLoop loop =>
      simp only [hpc] at hmodule
      rcases hmodule.2 with ⟨hbare, -⟩ | ⟨area, hhas, count, hcount, -, hreserved⟩
      · cases (hbare.2 page).symm.trans hpage
      · obtain ⟨index, hindex, hsame⟩ := List.mem_map.mp ((hreserved page).mp hpage)
        rw [List.mem_range] at hindex
        rw [hhas.livePages_eq]
        exact List.mem_map.mpr ⟨index, List.mem_range.mpr (by omega), hsame⟩
    | loaded =>
      simp only [hpc] at hmodule
      obtain ⟨-, area, hhas, hreserved⟩ := hmodule
      rw [hhas.livePages_eq]
      exact (hreserved page).mp hpage
    | clearLoop virtAddr =>
      simp only [hpc] at hmodule
      obtain ⟨-, area, hhas, count, -, -, hreserved⟩ := hmodule
      rw [hhas.livePages_eq]
      exact ((hreserved page).mp hpage).1
    | vfree =>
      simp only [hpc] at hmodule
      cases (hmodule.2.2 page).symm.trans hpage
  · by_contra hnot
    obtain ⟨hfiles, hvmas⟩ := hsound.closed hnot
    exact hused.elim (fun hne ↦ hne hfiles) fun hne ↦ hne hvmas
  · simp only [hpc] at hmodule
    obtain ⟨hregistered, area, hhas, hreserved⟩ := hmodule
    exact ⟨hregistered, area, hhas.live_eq, hhas.vmallocArea_eq.symm,
      fun page hpage ↦ (hreserved page).mpr hpage⟩
  · simp only [hpc] at hmodule
    obtain ⟨hregistered, hlive, hreserved⟩ := hmodule
    have hunused := hsound.closed fun hopen ↦ by cases hopen.1.symm.trans hregistered
    have htable := htables.table_eq_nil hunused.2
    refine ⟨hregistered, hlive, fun page ↦ ⟨?_, hreserved page⟩, hunused.1, hunused.2, htable⟩
    rw [htables.refs_eq page, Lifetime.livePages, Lifetime.mappedPages, hlive, htable]
    rfl

/-- The law holds after every run of the module and of any processes, in any order. -/
theorem lifetime_law (hw : 32 ≤ w) (vmallocToPage : BitVec w → Page)
    (events : List (LifetimeEvent w Page Process)) :
    LifetimeLaw (run lifetimeStep (Lifetime.start vmallocToPage) events) := by
  have hstep : ∀ (state : Lifetime w Page Process) (event : LifetimeEvent w Page Process),
      LifetimeSound state → LifetimeSound (lifetimeStep state event) :=
    fun _ event hsound ↦ hsound.step hw event
  exact (run_invariant hstep (lifetimeSound_start vmallocToPage) events).law

end Runs

/-- A load that gets the area of `frameArea`. -/
def frameCalls : LoadCalls 64 ℕ := ⟨0, some ⟨frameArea, frameRange.fits⟩⟩

/-- `insmod`, a process that maps the device and reads two pages while the loop of `mapdrv_init` is
still on, an `rmmod` in vain, the end of the process, and `rmmod`. -/
def loadUseUnload : List (LifetimeEvent 64 ℕ ℕ) :=
  List.replicate 5 (.module frameCalls) ++ [.openFile 7, .mmap 7 threePages.requested,
    .touch 7 0x10002#64 false] ++ List.replicate 9 (.module frameCalls) ++
  [.touch 7 0x11000#64 false, .module frameCalls, .closeFile 7,
    .call 7 (.munmap 0x10000#64 0x13000#64)] ++ List.replicate 14 (.module frameCalls)

/-- In the end the pages are free. -/
theorem loadUseUnload_refs :
    (run lifetimeStep (Lifetime.start frameArea.vmallocToPage) loadUseUnload).refs 256 = 0 :=
  ((lifetime_law (by decide) frameArea.vmallocToPage loadUseUnload).of_unloaded rfl).2.2.1 256 |>.1

end KernelExperiments.SharedMapping
