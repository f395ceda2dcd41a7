import KernelExperiments.SharedMapping.Loading
import KernelExperiments.SharedMapping.PageIdentity
import KernelExperiments.SharedMapping.Remapping

/-!
# Whether the page fault handler stays inside the area

Whatever the kernel has made of a mapping, and whether or not there is an area, `map_fault` should
return `VM_FAULT_SIGBUS` or install a page of the area, and translate no address outside it
(`FaultInside`).

The page itself comes from the distance to `vm_start`, which is tested before it is used, so it is
always one of the area. But `virt_start` is computed from the page offset of the fault and handed to
`vmalloc_to_pfn` before either test. Without an area it is an address of nothing, and on a page
behind the tenth one of the object it is an address behind the area (`faultInside_iff`). So the
handler stays inside as long as there is an area and no vma grows past the tenth page
(`along_faultsInside_iff`); a mapping that is only cut and moved never does
(`keepsWithin_of_not_longer`).
-/

set_option autoImplicit false
set_option relaxedAutoImplicit false

namespace KernelExperiments.SharedMapping

open Foundation

variable {w : ℕ} {Page : Type*}

/-! ### Addresses of the area -/

/-- There is an area, and the address lies in it, in unbounded integers. -/
def InArea (vmallocArea address : BitVec w) : Prop :=
  vmallocArea ≠ 0 ∧ vmallocArea.toNat ≤ address.toNat ∧
    address.toNat < vmallocArea.toNat + 4096 * 10

instance decidableInArea (vmallocArea address : BitVec w) :
    Decidable (InArea vmallocArea address) :=
  inferInstanceAs (Decidable (_ ∧ _ ∧ _))

/-- The handler returns `VM_FAULT_SIGBUS` or installs a page of the area, and every address that it
translates lies in the area. -/
structure FaultInside (vmallocArea : BitVec w) (vmallocToPage : BitVec w → Page)
    (vmf : VmFault w) : Prop where
  installs : (mapFault vmallocArea vmallocToPage vmf).ret = vmFaultSigbus ∨
    ∃ address, InArea vmallocArea address ∧
      (mapFault vmallocArea vmallocToPage vmf).page = some (vmallocToPage address)
  translated : ∀ address ∈ (mapFault vmallocArea vmallocToPage vmf).translated,
    InArea vmallocArea address

/-- The handler stays inside the area on every address of the vmas. -/
def FaultsInside (vmallocArea : BitVec w) (vmallocToPage : BitVec w → Page)
    (vmas : List (VmArea w)) : Prop :=
  ∀ vma ∈ vmas, ∀ address, vma.Contains address →
    FaultInside vmallocArea vmallocToPage (vma.faultAt address)

/-- A distance from the start of the area leads into the area exactly when it is less than the
length of the area. -/
theorem inArea_add_iff {vmallocArea : BitVec w} (harea : vmallocArea ≠ 0)
    (hfits : vmallocArea.toNat + 4096 * 10 ≤ (BitVec.allOnes w).toNat) (distance : BitVec w) :
    InArea vmallocArea (vmallocArea + distance) ↔ distance.toNat < 4096 * 10 := by
  have hdistance := distance.isLt
  rw [BitVec.toNat_allOnes] at hfits
  unfold InArea
  rw [and_iff_right harea, BitVec.toNat_add]
  rcases Nat.lt_or_ge (vmallocArea.toNat + distance.toNat) (2 ^ w) with hexact | hwraps
  · rw [Nat.mod_eq_of_lt hexact]
    omega
  · rw [Nat.mod_eq_sub_mod hwraps, Nat.mod_eq_of_lt (by omega)]
    omega

/-! ### One fault -/

/-- The handler translates `virt_start`, and when it does not fail also the address of the page,
whose distance from the start of the area is less than its length. -/
theorem mapFault_cases (vmallocArea : BitVec w) (vmallocToPage : BitVec w → Page)
    (vmf : VmFault w) :
    mapFault vmallocArea vmallocToPage vmf =
        ⟨vmFaultSigbus, none, [vmallocArea + vmf.pgoff <<< pageShift]⟩ ∨
      ∃ distance : BitVec w, ¬ maplen w ≤ distance ∧
        mapFault vmallocArea vmallocToPage vmf =
          ⟨0, some (vmallocToPage (vmallocArea + distance)),
            [vmallocArea + vmf.pgoff <<< pageShift, vmallocArea + distance]⟩ := by
  unfold mapFault
  dsimp only
  split_ifs with harea hoffset
  · exact Or.inl rfl
  · exact Or.inl rfl
  · exact Or.inr ⟨vmf.address - vmf.vma.vmStart, hoffset, rfl⟩

/-- On every fault, the handler stays inside the area if and only if there is one and the page
offset of the fault is the place of a page of it. -/
theorem faultInside_iff (hw : 32 ≤ w) {vmallocArea : BitVec w}
    (hfits : vmallocArea ≠ 0 → vmallocArea.toNat + 4096 * 10 ≤ (BitVec.allOnes w).toNat)
    (vmallocToPage : BitVec w → Page) (vmf : VmFault w) :
    FaultInside vmallocArea vmallocToPage vmf ↔
      vmallocArea ≠ 0 ∧ (vmf.pgoff <<< pageShift).toNat < 4096 * 10 := by
  have hpow : 2 ^ 32 ≤ 2 ^ w := Nat.pow_le_pow_right (by omega) hw
  constructor
  · intro hinside
    have hmem : vmallocArea + vmf.pgoff <<< pageShift ∈
        (mapFault vmallocArea vmallocToPage vmf).translated := by
      rcases mapFault_cases vmallocArea vmallocToPage vmf with hresult | ⟨distance, -, hresult⟩ <;>
        rw [hresult] <;> exact List.mem_cons_self
    have hvirt := hinside.translated _ hmem
    exact ⟨hvirt.1, (inArea_add_iff hvirt.1 (hfits hvirt.1) _).mp hvirt⟩
  · rintro ⟨harea, hplace⟩
    have hvirt := (inArea_add_iff harea (hfits harea) _).mpr hplace
    rcases mapFault_cases vmallocArea vmallocToPage vmf with hresult | ⟨distance, hlt, hresult⟩
    · refine ⟨Or.inl (by rw [hresult]), fun address haddress ↦ ?_⟩
      rw [hresult] at haddress
      rwa [List.mem_singleton.mp haddress]
    · rw [BitVec.le_def, maplen, BitVec.toNat_ofNat, Nat.mod_eq_of_lt (by omega),
        Nat.not_le] at hlt
      have hpage := (inArea_add_iff harea (hfits harea) distance).mpr hlt
      refine ⟨Or.inr ⟨_, hpage, by rw [hresult]⟩, fun address haddress ↦ ?_⟩
      rw [hresult] at haddress
      rcases List.mem_cons.mp haddress with rfl | hlast
      · exact hvirt
      · rwa [List.mem_singleton.mp hlast]

/-! ### All faults of a vma -/

/-- The place of a page is a whole number of pages. -/
theorem dvd_toNat_shiftLeft_pageShift (hw : 32 ≤ w) (pgoff : BitVec w) :
    4096 ∣ (pgoff <<< pageShift).toNat := by
  have hword : 4096 ∣ 2 ^ w := Nat.pow_dvd_pow 2 (show 12 ≤ w by omega)
  rw [BitVec.toNat_shiftLeft, Nat.shiftLeft_eq]
  exact (Nat.dvd_mod_iff hword).mpr (Nat.dvd_mul_left 4096 pgoff.toNat)

/-- The place in the object of the page of an address. -/
theorem toNat_faultAt_shiftLeft (vma : VmArea w) {address : BitVec w}
    (hstart : vma.vmStart ≤ address) :
    ((vma.faultAt address).pgoff <<< pageShift).toNat =
      ((vma.vmPgoff <<< pageShift).toNat +
        4096 * ((address.toNat - vma.vmStart.toNat) / 4096)) % 2 ^ w := by
  have hdistance : (address - vma.vmStart).toNat = address.toNat - vma.vmStart.toNat :=
    BitVec.toNat_sub_of_le hstart
  rw [VmArea.faultAt, toNat_pgoff_add_shiftLeft, hdistance]

/-- A vma of whole pages has a page behind the tenth one of the object unless it is within the
area. -/
theorem exists_place_of_not_within (hw : 32 ≤ w) {vma : VmArea w}
    (hvalid : ValidRange vma.vmStart vma.vmEnd) (hwithin : ¬ vma.Within) :
    ∃ address, vma.Contains address ∧
      4096 * 10 ≤ ((vma.faultAt address).pgoff <<< pageShift).toNat := by
  obtain ⟨hlt, hstartAligned, hendAligned⟩ := hvalid
  have hpow : 2 ^ 32 ≤ 2 ^ w := Nat.pow_le_pow_right (by omega) hw
  have hpages := dvd_toNat_shiftLeft_pageShift hw vma.vmPgoff
  have hplace := (vma.vmPgoff <<< pageShift).isLt
  have hend := vma.vmEnd.isLt
  rw [BitVec.lt_def] at hlt
  rw [VmArea.Within, Nat.not_le] at hwithin
  -- the distance from the start of the vma to its first page that is not one of the ten
  obtain ⟨distance, hdistance⟩ : ∃ distance, distance =
      4096 * 10 - (vma.vmPgoff <<< pageShift).toNat := ⟨_, rfl⟩
  have haddress : (vma.vmStart + BitVec.ofNat w distance).toNat =
      vma.vmStart.toNat + distance := by
    refine toNat_add_ofNat_of_le ?_
    rw [BitVec.toNat_allOnes]
    omega
  have hstart : vma.vmStart ≤ vma.vmStart + BitVec.ofNat w distance := by
    rw [BitVec.le_def, haddress]
    omega
  refine ⟨vma.vmStart + BitVec.ofNat w distance, ⟨hstart, ?_⟩, ?_⟩
  · rw [BitVec.lt_def, haddress]
    omega
  · rw [toNat_faultAt_shiftLeft vma hstart, haddress, Nat.add_sub_cancel_left,
      Nat.mod_eq_of_lt (by omega)]
    omega

/-- On a vma of whole pages the handler stays inside the area at every address if and only if there
is an area and the vma is within it. -/
theorem faultsInside_vma_iff (hw : 32 ≤ w) {vmallocArea : BitVec w}
    (hfits : vmallocArea ≠ 0 → vmallocArea.toNat + 4096 * 10 ≤ (BitVec.allOnes w).toNat)
    (vmallocToPage : BitVec w → Page) {vma : VmArea w}
    (hvalid : ValidRange vma.vmStart vma.vmEnd) :
    (∀ address, vma.Contains address →
        FaultInside vmallocArea vmallocToPage (vma.faultAt address)) ↔
      vmallocArea ≠ 0 ∧ vma.Within := by
  simp only [faultInside_iff hw hfits]
  constructor
  · intro hinside
    refine ⟨(hinside vma.vmStart ⟨BitVec.le_refl _, hvalid.1⟩).1, ?_⟩
    by_contra hwithin
    obtain ⟨address, hcontains, hbehind⟩ := exists_place_of_not_within hw hvalid hwithin
    exact absurd (hinside address hcontains).2 (Nat.not_lt.mpr hbehind)
  · rintro ⟨harea, hwithin⟩ address ⟨hstart, hend⟩
    refine ⟨harea, ?_⟩
    rw [toNat_faultAt_shiftLeft vma hstart]
    refine Nat.lt_of_le_of_lt (Nat.mod_le _ _) ?_
    rw [BitVec.le_def] at hstart
    rw [BitVec.lt_def] at hend
    rw [VmArea.Within] at hwithin
    omega

/-- Where there is an area, the handler stays inside it on vmas of whole pages if and only if all of
them are within it. -/
theorem faultsInside_iff (hw : 32 ≤ w) {vmallocArea : BitVec w} (harea : vmallocArea ≠ 0)
    (hfits : vmallocArea ≠ 0 → vmallocArea.toNat + 4096 * 10 ≤ (BitVec.allOnes w).toNat)
    (vmallocToPage : BitVec w → Page) {vmas : List (VmArea w)}
    (hvalid : ∀ vma ∈ vmas, ValidRange vma.vmStart vma.vmEnd) :
    FaultsInside vmallocArea vmallocToPage vmas ↔ ∀ vma ∈ vmas, vma.Within := by
  refine forall₂_congr fun vma hvma ↦ ?_
  rw [faultsInside_vma_iff hw hfits vmallocToPage (hvalid vma hvma), and_iff_right harea]

/-! ### Whole runs -/

/-- The vma of an accepted mapping is whole pages within the area. -/
theorem placed_of_accepted (hw : 32 ≤ w) {request : MmapRequest w}
    (haccepted : request.Accepted) : (mapdrvMmap request.vma).2.Placed := by
  obtain ⟨hstart, hend, -⟩ := mapdrvMmap_spec hw haccepted
  refine ⟨?_, within_of_accepted hw request.valid.1 haccepted⟩
  rw [hstart, hend]
  exact request.valid

/-- The handler stays inside the area on every address of an accepted mapping and of all vmas that
any sequence of system calls makes of it, at each point of the sequence, if and only if `vmalloc`
has succeeded and every vma that a call lays out is within the area. -/
theorem along_faultsInside_iff (hw : 32 ≤ w) (calls : MapdrvInitCalls w)
    (vmallocToPage : BitVec w → Page) {request : MmapRequest w} (haccepted : request.Accepted)
    (ops : List (RemapOp w)) :
    (FaultsInside (mapdrvInit calls).vmallocArea vmallocToPage [(mapdrvMmap request.vma).2] ∧
        Along remapStep (fun vmas op ↦
          FaultsInside (mapdrvInit calls).vmallocArea vmallocToPage (remapStep vmas op))
          [(mapdrvMmap request.vma).2] ops) ↔
      (mapdrvInit calls).vmallocArea ≠ 0 ∧
        Along remapStep (fun vmas op ↦ op.KeepsWithin vmas) [(mapdrvMmap request.vma).2] ops := by
  have hplaced := placed_of_accepted hw haccepted
  have hfits : (mapdrvInit calls).vmallocArea ≠ 0 →
      (mapdrvInit calls).vmallocArea.toNat + 4096 * 10 ≤ (BitVec.allOnes w).toNat :=
    fun harea ↦ ((vmallocArea_mapdrvInit calls).resolve_left harea).2
  have hfirst : FaultsInside (mapdrvInit calls).vmallocArea vmallocToPage
      [(mapdrvMmap request.vma).2] ↔ (mapdrvInit calls).vmallocArea ≠ 0 := by
    unfold FaultsInside
    rw [List.forall_mem_singleton, faultsInside_vma_iff hw hfits vmallocToPage hplaced.valid,
      and_iff_left hplaced.within]
  rw [hfirst]
  refine and_congr_right fun harea ↦ ?_
  have hiff : ∀ (vmas : List (VmArea w)) (op : RemapOp w), (∀ vma ∈ vmas, vma.Placed) →
      (FaultsInside (mapdrvInit calls).vmallocArea vmallocToPage (remapStep vmas op) ↔
        op.KeepsWithin vmas) := by
    intro vmas op hvmas
    obtain ⟨hvalid, hwithin⟩ := within_remapStep_iff hvmas op
    rw [faultsInside_iff hw harea hfits vmallocToPage hvalid, hwithin]
  have hstep : ∀ (vmas : List (VmArea w)) (op : RemapOp w), (∀ vma ∈ vmas, vma.Placed) →
      op.KeepsWithin vmas → ∀ vma ∈ remapStep vmas op, vma.Placed := by
    intro vmas op hvmas hkeeps vma hvma
    obtain ⟨hvalid, hwithin⟩ := within_remapStep_iff hvmas op
    exact ⟨hvalid vma hvma, hwithin.mpr hkeeps vma hvma⟩
  exact along_iff_of_invariant hiff hstep (List.forall_mem_singleton.mpr hplaced) ops

/-- A load on a 64-bit machine, with or without an area. -/
def loadWith (vmalloc : Option (VmallocRange 64)) : MapdrvInitCalls 64 := ⟨0, vmalloc⟩

/-- An area at an address of a 64-bit machine. -/
def sampleRange : VmallocRange 64 := ⟨0x400000#64, by decide, by decide⟩

/-- A process that maps the ten pages of the area. -/
def tenPages : MmapRequest 64 where
  process := 1
  vma := ⟨0x10000#64, 0x1a000#64, 0#64, 0xfb#64, .unset⟩
  valid := show ValidRange 0x10000#64 0x1a000#64 by decide

/-- A mapping that is cut and whose upper part is moved and grows back to the tenth page. -/
theorem tenPages_faultsInside :
    tenPages.Accepted ∧
      FaultsInside (mapdrvInit (loadWith (some sampleRange))).vmallocArea BitVec.toNat
        [(mapdrvMmap tenPages.vma).2] ∧
      Along remapStep (fun vmas op ↦
        FaultsInside (mapdrvInit (loadWith (some sampleRange))).vmallocArea BitVec.toNat
          (remapStep vmas op)) [(mapdrvMmap tenPages.vma).2]
        [.cut (.munmap 0x19000#64 0x1a000#64),
          .move 0x15000#64 0x19000#64 0x40000#64 0x45000#64] := by
  have haccepted : tenPages.Accepted := by
    unfold MmapRequest.Accepted
    decide
  refine ⟨haccepted, (along_faultsInside_iff (by decide) (loadWith (some sampleRange))
    BitVec.toNat haccepted _).mpr (by decide)⟩

/-- A page offset behind the tenth page, after the mapping has grown by a page, is translated to an
address behind the area; and without an area any page offset is translated all the same. -/
theorem not_faultsInside :
    ¬ (FaultsInside (mapdrvInit (loadWith (some sampleRange))).vmallocArea BitVec.toNat
        [(mapdrvMmap tenPages.vma).2] ∧
      Along remapStep (fun vmas op ↦
        FaultsInside (mapdrvInit (loadWith (some sampleRange))).vmallocArea BitVec.toNat
          (remapStep vmas op)) [(mapdrvMmap tenPages.vma).2] [.expand 0x1a000#64 0x1b000#64]) ∧
    ¬ FaultsInside (mapdrvInit (loadWith none)).vmallocArea BitVec.toNat
      [(mapdrvMmap tenPages.vma).2] := by
  refine ⟨?_, fun hinside ↦ ?_⟩
  · rintro ⟨-, hinside, -⟩
    have hmem : (⟨0x10000#64, 0x1b000#64, 0#64, 0x800fb#64, .mapVmOps⟩ : VmArea 64) ∈
        remapStep [(mapdrvMmap tenPages.vma).2] (.expand 0x1a000#64 0x1b000#64) := by decide
    have hfault := hinside _ hmem 0x1a000#64 (by unfold VmArea.Contains; decide)
    exact absurd (hfault.translated 0x40a000#64 (by decide)) (by decide)
  · have hfault := hinside _ (List.mem_singleton.mpr rfl) 0x10000#64
      (by unfold VmArea.Contains; decide)
    exact absurd (hfault.translated 0#64 (by decide)) (by decide)

end KernelExperiments.SharedMapping
