import KernelExperiments.SharedMapping.AddressSpace

/-!
# Which kernel page a user page of the mapping gets

The driver shares one area with every process, so the page at a given place of a mapping should be
the page at that place of the area, in every process and for as long as the mapping lives:
`SharingLaw` says it for two mappings and whatever vmas the kernel has cut them into.

`map_fault` takes the page from the distance of the address to `vm_start`, which is the place in the
vma and not in the mapping. On a vma that begins behind the start of its mapping the two differ by
`vm_pgoff`, and the handler installs a page that many places too low (`mapFault_eq`). So the law
holds of two mappings exactly when no vma of either has a nonzero `vm_pgoff`
(`sharingLaw_iff`): when the kernel has cut pages off their ends at most. The value `virt_start` of
the same function, which it only logs, is the address of the right page.
-/

set_option autoImplicit false
set_option relaxedAutoImplicit false

namespace KernelExperiments.SharedMapping

open Foundation

variable {w : ℕ} {Page : Type*}

/-! ### The area and its mappings -/

/-- The vmalloc area of a loaded driver: its address, and `vmalloc_to_page`, which takes the
addresses of a page of the area to one page and different pages to different ones. -/
structure VmallocArea (w : ℕ) (Page : Type*) where
  address : BitVec w
  address_ne_zero : address ≠ 0
  vmallocToPage : BitVec w → Page
  vmallocToPage_offset : ∀ offset < 4096 * 10,
    vmallocToPage (address + BitVec.ofNat w offset) =
      vmallocToPage (address + BitVec.ofNat w (4096 * (offset / 4096)))
  vmallocToPage_injective : ∀ first < 10, ∀ second < 10,
    vmallocToPage (address + BitVec.ofNat w (4096 * first)) =
      vmallocToPage (address + BitVec.ofNat w (4096 * second)) → first = second

/-- The kernel page at a place of the area. -/
def VmallocArea.page (area : VmallocArea w Page) (index : ℕ) : Page :=
  area.vmallocToPage (area.address + BitVec.ofNat w (4096 * index))

/-- A mapping that `mapdrv_mmap` accepted: whole pages, and `vm_pgoff` the index in the mapping of
its first page. -/
structure Mapping (w : ℕ) where
  requested : VmArea w
  start_lt_end : requested.vmStart.toNat < requested.vmEnd.toNat
  start_aligned : requested.vmStart.toNat % 4096 = 0
  end_aligned : requested.vmEnd.toNat % 4096 = 0
  pgoff_eq_zero : requested.vmPgoff = 0
  accepted : (mapdrvMmap requested).1 = 0

/-- The vma of the mapping as `mapdrv_mmap` left it. -/
def Mapping.vma (mapping : Mapping w) : VmArea w := (mapdrvMmap mapping.requested).2

/-- The vmas of the mapping after a sequence of system calls. -/
def Mapping.vmasAfter (mapping : Mapping w) (ops : List (MapOp w)) : List (VmArea w) :=
  run mapStep [mapping.vma] ops

/-- The address lies in the vma. -/
def VmArea.Contains (vma : VmArea w) (address : BitVec w) : Prop :=
  vma.vmStart ≤ address ∧ address < vma.vmEnd

/-- The fault the kernel reports for an address of a vma. -/
def VmArea.faultAt (vma : VmArea w) (address : BitVec w) : VmFault w :=
  ⟨vma, address, vma.vmPgoff + (address - vma.vmStart) >>> pageShift⟩

/-- The page that a fault installs. -/
def VmallocArea.installed (area : VmallocArea w Page) (vma : VmArea w) (address : BitVec w) :
    Option Page :=
  (mapFault area.address area.vmallocToPage (vma.faultAt address)).page

/-- The index, in the original mapping, of the user page of an address. -/
def Mapping.userPage (mapping : Mapping w) (address : BitVec w) : ℕ :=
  (address.toNat - mapping.vma.vmStart.toNat) / 4096

/-! ### The law -/

/-- Every fault in the vma installs the page at the place of the user page in the mapping. -/
def PageIdentity (area : VmallocArea w Page) (mapping : Mapping w) (vma : VmArea w) : Prop :=
  ∀ address, vma.Contains address →
    area.installed vma address = some (area.page (mapping.userPage address))

/-- Two mappings, cut into `firstVmas` and `secondVmas`, share the area: each has the identity, and
two addresses reach the same kernel page exactly when they are at the same place of their
mappings. -/
structure SharingLaw (area : VmallocArea w Page) (first second : Mapping w)
    (firstVmas secondVmas : List (VmArea w)) : Prop where
  first_identity : ∀ vma ∈ firstVmas, PageIdentity area first vma
  second_identity : ∀ vma ∈ secondVmas, PageIdentity area second vma
  same_page_iff : ∀ vma ∈ firstVmas, ∀ other ∈ secondVmas, ∀ address otherAddress,
    vma.Contains address → other.Contains otherAddress →
      (area.installed vma address = area.installed other otherAddress ↔
        first.userPage address = second.userPage otherAddress)

/-! ### What acceptance says -/

/-- An accepted mapping keeps its addresses, begins at page zero and is at most ten pages long. -/
theorem Mapping.vma_spec (mapping : Mapping w) (hw : 32 ≤ w) :
    mapping.vma.vmStart = mapping.requested.vmStart ∧
      mapping.vma.vmEnd = mapping.requested.vmEnd ∧
      mapping.vma.vmPgoff = 0 ∧
      mapping.vma.vmEnd.toNat - mapping.vma.vmStart.toNat ≤ 4096 * 10 := by
  obtain ⟨hsize, -, -, hresult⟩ := mapdrvMmap_of_accepted mapping.accepted
  rw [maplen_lt_iff hw mapping.start_lt_end, Nat.not_lt] at hsize
  rw [Mapping.vma, hresult]
  exact ⟨rfl, rfl, mapping.pgoff_eq_zero, hsize⟩

theorem Mapping.pieceOf_vma (mapping : Mapping w) (hw : 32 ≤ w) :
    PieceOf mapping.vma mapping.vma := by
  obtain ⟨hstart, hend, hpgoff, -⟩ := mapping.vma_spec hw
  refine ⟨Nat.le_refl _, Nat.le_refl _, ?_, ?_, ?_, ?_⟩
  · rw [hstart, hend]
    exact mapping.start_lt_end
  · rw [hstart]
    exact mapping.start_aligned
  · rw [hend]
    exact mapping.end_aligned
  · rw [hpgoff, Nat.sub_self]
    rfl

/-- Every vma the kernel makes of a mapping is a piece of it. -/
theorem Mapping.pieceOf_of_mem_vmasAfter (mapping : Mapping w) (hw : 32 ≤ w)
    {ops : List (MapOp w)} {vma : VmArea w} (hvma : vma ∈ mapping.vmasAfter ops) :
    PieceOf mapping.vma vma := by
  have hpiece := mapping.pieceOf_vma hw
  refine pieceOf_of_mem_run hpiece.start_aligned ops ?_ vma hvma
  intro start hstart
  rwa [List.mem_singleton.mp hstart]

/-! ### What the handler installs -/

/-- On a vma of the mapping, the handler installs the page at the place in the vma: the place in the
mapping is higher by `vm_pgoff`. -/
theorem mapFault_eq (area : VmallocArea w Page) (mapping : Mapping w) (hw : 32 ≤ w)
    {vma : VmArea w} (hpiece : PieceOf mapping.vma vma) {address : BitVec w}
    (haddress : vma.Contains address) :
    ∃ index < 10, area.installed vma address = some (area.page index) ∧
      mapping.userPage address = index + vma.vmPgoff.toNat ∧
      mapping.userPage address < 10 := by
  obtain ⟨hstart, hend⟩ := haddress
  rw [BitVec.le_def] at hstart
  rw [BitVec.lt_def] at hend
  have hsize := (mapping.vma_spec hw).2.2.2
  have hstartLe := hpiece.start_le
  have hendLe := hpiece.end_le
  have hpow : 2 ^ 32 ≤ 2 ^ w := Nat.pow_le_pow_right (by omega) hw
  have hoffset : (address - vma.vmStart).toNat = address.toNat - vma.vmStart.toNat :=
    BitVec.toNat_sub_of_le (BitVec.le_def.mpr hstart)
  have hinside : ¬ maplen w ≤ address - vma.vmStart := by
    rw [BitVec.le_def, hoffset, maplen, BitVec.toNat_ofNat, Nat.mod_eq_of_lt (by omega)]
    omega
  refine ⟨(address.toNat - vma.vmStart.toNat) / 4096, by omega, ?_, ?_, ?_⟩
  · unfold VmallocArea.installed mapFault
    dsimp only [VmArea.faultAt]
    rw [if_neg area.address_ne_zero, if_neg hinside]
    dsimp only
    have hword : address - vma.vmStart = BitVec.ofNat w (address.toNat - vma.vmStart.toNat) := by
      rw [← hoffset, BitVec.ofNat_toNat, BitVec.setWidth_eq]
    rw [hword]
    exact congrArg some (area.vmallocToPage_offset _ (by omega))
  · have hpgoff := hpiece.pgoff_eq
    have haligned := hpiece.start_aligned
    have hbase := (mapping.pieceOf_vma hw).start_aligned
    unfold Mapping.userPage
    omega
  · unfold Mapping.userPage
    omega

/-- On a vma that begins with the first page of the mapping the handler has the identity. -/
theorem pageIdentity_of_pgoff_eq_zero (area : VmallocArea w Page) (mapping : Mapping w)
    (hw : 32 ≤ w) {vma : VmArea w} (hpiece : PieceOf mapping.vma vma) (hpgoff : vma.vmPgoff = 0) :
    PageIdentity area mapping vma := by
  intro address haddress
  obtain ⟨index, -, hinstalled, huser, -⟩ := mapFault_eq area mapping hw hpiece haddress
  have hzero : vma.vmPgoff.toNat = 0 := by
    rw [hpgoff]
    exact BitVec.toNat_zero
  rw [hinstalled, huser, hzero, Nat.add_zero]

/-- A vma with the identity begins with the first page of the mapping: look at the fault at its
first address. -/
theorem pgoff_eq_zero_of_pageIdentity (area : VmallocArea w Page) (mapping : Mapping w)
    (hw : 32 ≤ w) {vma : VmArea w} (hpiece : PieceOf mapping.vma vma)
    (hidentity : PageIdentity area mapping vma) : vma.vmPgoff = 0 := by
  have hfirst : vma.Contains vma.vmStart :=
    ⟨BitVec.le_def.mpr (Nat.le_refl _), BitVec.lt_def.mpr hpiece.start_lt_end⟩
  obtain ⟨index, hindex, hinstalled, huser, hbound⟩ := mapFault_eq area mapping hw hpiece hfirst
  have hpage : area.page index = area.page (mapping.userPage vma.vmStart) :=
    Option.some.inj (hinstalled.symm.trans (hidentity vma.vmStart hfirst))
  have hsame := area.vmallocToPage_injective _ hindex _ hbound hpage
  refine BitVec.eq_of_toNat_eq ?_
  have hzero : (0 : BitVec w).toNat = 0 := BitVec.toNat_zero
  omega

/-- Two vmas with the identity give the same kernel page to the same places only. -/
theorem installed_eq_iff (area : VmallocArea w Page) (first second : Mapping w) (hw : 32 ≤ w)
    {vma other : VmArea w} (hvma : PieceOf first.vma vma) (hother : PieceOf second.vma other)
    (hfirst : PageIdentity area first vma) (hsecond : PageIdentity area second other)
    {address otherAddress : BitVec w} (haddress : vma.Contains address)
    (hotherAddress : other.Contains otherAddress) :
    area.installed vma address = area.installed other otherAddress ↔
      first.userPage address = second.userPage otherAddress := by
  obtain ⟨-, -, -, -, hbound⟩ := mapFault_eq area first hw hvma haddress
  obtain ⟨-, -, -, -, hotherBound⟩ := mapFault_eq area second hw hother hotherAddress
  rw [hfirst address haddress, hsecond otherAddress hotherAddress]
  constructor
  · intro hpage
    exact area.vmallocToPage_injective _ hbound _ hotherBound (Option.some.inj hpage)
  · intro hplace
    rw [hplace]

/-- Whatever two mappings were cut into, they share the area page by page if and only if every vma
of either still begins with the first page of its mapping. -/
theorem sharingLaw_iff (hw : 32 ≤ w) (area : VmallocArea w Page) (first second : Mapping w)
    (firstOps secondOps : List (MapOp w)) :
    SharingLaw area first second (first.vmasAfter firstOps) (second.vmasAfter secondOps) ↔
      (∀ vma ∈ first.vmasAfter firstOps, vma.vmPgoff = 0) ∧
        ∀ vma ∈ second.vmasAfter secondOps, vma.vmPgoff = 0 := by
  have hfirst : ∀ vma ∈ first.vmasAfter firstOps, PieceOf first.vma vma :=
    fun vma hvma ↦ first.pieceOf_of_mem_vmasAfter hw hvma
  have hsecond : ∀ vma ∈ second.vmasAfter secondOps, PieceOf second.vma vma :=
    fun vma hvma ↦ second.pieceOf_of_mem_vmasAfter hw hvma
  constructor
  · intro hlaw
    refine ⟨fun vma hvma ↦ ?_, fun vma hvma ↦ ?_⟩
    · exact pgoff_eq_zero_of_pageIdentity area first hw (hfirst vma hvma)
        (hlaw.first_identity vma hvma)
    · exact pgoff_eq_zero_of_pageIdentity area second hw (hsecond vma hvma)
        (hlaw.second_identity vma hvma)
  · rintro ⟨hfirstPgoff, hsecondPgoff⟩
    have hfirstIdentity : ∀ vma ∈ first.vmasAfter firstOps, PageIdentity area first vma :=
      fun vma hvma ↦
        pageIdentity_of_pgoff_eq_zero area first hw (hfirst vma hvma) (hfirstPgoff vma hvma)
    have hsecondIdentity : ∀ vma ∈ second.vmasAfter secondOps, PageIdentity area second vma :=
      fun vma hvma ↦
        pageIdentity_of_pgoff_eq_zero area second hw (hsecond vma hvma) (hsecondPgoff vma hvma)
    refine ⟨hfirstIdentity, hsecondIdentity, ?_⟩
    intro vma hvma other hother address otherAddress haddress hotherAddress
    exact installed_eq_iff area first second hw (hfirst vma hvma) (hsecond other hother)
      (hfirstIdentity vma hvma) (hsecondIdentity other hother) haddress hotherAddress

/-! ### A mapping of three pages -/

/-- An area whose page at an address is the frame number of the address. -/
def frameArea : VmallocArea 64 ℕ where
  address := 0x100000#64
  address_ne_zero := by decide
  vmallocToPage := fun address ↦ address.toNat / 4096
  vmallocToPage_offset := by
    intro offset hoffset
    simp only [BitVec.toNat_add, BitVec.toNat_ofNat]
    omega
  vmallocToPage_injective := by
    intro first hfirst second hsecond hframe
    simp only [BitVec.toNat_add, BitVec.toNat_ofNat] at hframe
    omega

/-- A shared mapping of three pages, readable and writable. -/
def threePages : Mapping 64 where
  requested := ⟨0x10000#64, 0x13000#64, 0#64, 0xbb#64, .unset⟩
  start_lt_end := by decide
  start_aligned := by decide
  end_aligned := by decide
  pgoff_eq_zero := rfl
  accepted := by decide

/-- One process unmaps the last page, the other all but the first and makes that one read-only: the
pages left are shared as before. -/
theorem threePages_cut_at_end :
    SharingLaw frameArea threePages threePages
      (threePages.vmasAfter [.munmap 0x12000#64 0x13000#64])
      (threePages.vmasAfter
        [.munmap 0x11000#64 0x13000#64, .mprotect 0x10000#64 0x11000#64 1#64]) :=
  (sharingLaw_iff (by decide) frameArea threePages threePages _ _).mpr (by decide)

/-- With the first page unmapped, the second page of the mapping gets the first page of the area. -/
theorem not_sharingLaw_cut_at_start :
    ¬ SharingLaw frameArea threePages threePages
      (threePages.vmasAfter [.munmap 0x10000#64 0x11000#64]) (threePages.vmasAfter []) := by
  intro hlaw
  have hmem : (⟨0x11000#64, 0x13000#64, 1#64, 0x800bb#64, .mapVmOps⟩ : VmArea 64) ∈
      threePages.vmasAfter [.munmap 0x10000#64 0x11000#64] := by decide
  have hpage := hlaw.first_identity _ hmem 0x11000#64 (by unfold VmArea.Contains; decide)
  revert hpage
  decide

end KernelExperiments.SharedMapping
