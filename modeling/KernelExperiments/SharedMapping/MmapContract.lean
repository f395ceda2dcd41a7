import KernelExperiments.SharedMapping.Protection

/-!
# What `mapdrv_mmap` accepts and what it leaves of a vma it rejects

A mapping that the driver accepts should lie inside the area, offset and length together, be shared
if it is writable, and have `map_vm_ops`; a mapping that it rejects should be as it was
(`MmapContract`).

The driver tests the offset after the shift by `PAGE_SHIFT`, so a `vm_pgoff` whose low bits are zero
is accepted like zero. And it sets `VM_LOCKONFAULT` before that test, so a mapping rejected for its
offset keeps the flag. `mmapContract_iff` says which mappings are left: those rejected for their
length or for being writable and private, those with `vm_pgoff` zero, and those rejected for their
offset that had the flag before.
-/

set_option autoImplicit false
set_option relaxedAutoImplicit false

namespace KernelExperiments.SharedMapping

variable {w : ℕ}

/-! ### The contract -/

/-- What `mapdrv_mmap` promises of a vma, in unbounded integers: accepted, it lies inside the area,
is shared if it is writable, and has `map_vm_ops`; rejected, it is as it was. -/
structure MmapContract (vma : VmArea w) : Prop where
  inside : (mapdrvMmap vma).1 = 0 →
    (mapdrvMmap vma).2.vmPgoff.toNat * 4096 +
      ((mapdrvMmap vma).2.vmEnd.toNat - (mapdrvMmap vma).2.vmStart.toNat) ≤ 4096 * 10
  shared : (mapdrvMmap vma).1 = 0 →
    (mapdrvMmap vma).2.Has (vmWrite w) → (mapdrvMmap vma).2.Has (vmShared w)
  ops : (mapdrvMmap vma).1 = 0 → (mapdrvMmap vma).2.vmOps = .mapVmOps
  unchanged : (mapdrvMmap vma).1 ≠ 0 → (mapdrvMmap vma).2 = vma

/-! ### Offsets and flags -/

/-- A page offset whose shift is zero is zero or beyond the area. -/
theorem shiftLeft_pageShift_eq_zero (hw : 32 ≤ w) {pgoff : BitVec w}
    (hzero : pgoff <<< pageShift = 0) : pgoff = 0 ∨ 4096 * 10 < pgoff.toNat * 4096 := by
  have hpow : 2 ^ 32 ≤ 2 ^ w := Nat.pow_le_pow_right (by omega) hw
  have hnat := congrArg BitVec.toNat hzero
  rw [BitVec.toNat_shiftLeft, Nat.shiftLeft_eq, show (0 : BitVec w).toNat = 0 from
    BitVec.toNat_zero] at hnat
  rcases Nat.eq_zero_or_pos pgoff.toNat with hnone | hpos
  · exact Or.inl (BitVec.eq_of_toNat_eq (hnone.trans BitVec.toNat_zero.symm))
  · have hdvd : 2 ^ w ≤ pgoff.toNat * 2 ^ pageShift :=
      Nat.le_of_dvd (Nat.mul_pos hpos (Nat.two_pow_pos _)) (Nat.dvd_of_mod_eq_zero hnat)
    have hshift : 2 ^ pageShift = 4096 := rfl
    rw [hshift] at hdvd
    exact Or.inr (by omega)

/-- Locking a vma changes nothing exactly when it has the flag. -/
theorem VmArea.locked_eq_self_iff (vma : VmArea w) (hw : 32 ≤ w) :
    vma.locked = vma ↔ vma.Has (vmLockonfault w) := by
  have hmask : vmLockonfault w = BitVec.twoPow w 19 :=
    BitVec.eq_of_toNat_eq (by rw [BitVec.toNat_twoPow]; rfl)
  have hflags : vma.locked = vma ↔ vma.vmFlags ||| BitVec.twoPow w 19 = vma.vmFlags := by
    rw [← hmask]
    exact ⟨congrArg VmArea.vmFlags,
      fun heq ↦ congrArg (fun flags ↦ { vma with vmFlags := flags }) heq⟩
  rw [hflags, hmask, vma.has_twoPow_iff (by omega)]
  constructor
  · intro heq
    rw [← heq, BitVec.getLsbD_or, BitVec.getLsbD_twoPow]
    simp [show 19 < w by omega]
  · intro hbit
    apply BitVec.eq_of_getLsbD_eq
    intro i hi
    rw [BitVec.getLsbD_or, BitVec.getLsbD_twoPow]
    by_cases hflag : 19 = i
    · rw [← hflag, hbit, Bool.true_or]
    · simp [hflag]

/-! ### Exactly when the contract is met -/

/-- A rejected mapping meets the contract exactly when it is as it was. -/
theorem mmapContract_iff_of_rejected {vma next : VmArea w} {code : ℤ}
    (hresult : mapdrvMmap vma = (code, next)) (hcode : code ≠ 0) :
    MmapContract vma ↔ next = vma := by
  constructor
  · intro hcontract
    have hunchanged := hcontract.unchanged
    rw [hresult] at hunchanged
    exact hunchanged hcode
  · intro hsame
    have hrejected : (mapdrvMmap vma).1 ≠ 0 := by
      rw [hresult]
      exact hcode
    refine ⟨fun hzero ↦ absurd hzero hrejected, fun hzero ↦ absurd hzero hrejected,
      fun hzero ↦ absurd hzero hrejected, fun _ ↦ ?_⟩
    rw [hresult]
    exact hsame

/-- An accepted mapping meets the contract exactly when its `vm_pgoff` is zero. -/
theorem mmapContract_iff_of_accepted (hw : 32 ≤ w) {vma : VmArea w}
    (hlt : vma.vmStart < vma.vmEnd) (hsize : ¬ maplen w < vma.vmEnd - vma.vmStart)
    (hoffset : vma.vmPgoff <<< pageShift = 0)
    (hresult : mapdrvMmap vma = (0, { vma.locked with vmOps := .mapVmOps })) :
    MmapContract vma ↔ vma.vmPgoff = 0 := by
  have haccepted : (mapdrvMmap vma).1 = 0 := by rw [hresult]
  constructor
  · intro hcontract
    have hinside := hcontract.inside haccepted
    rw [hresult] at hinside
    rcases shiftLeft_pageShift_eq_zero hw hoffset with hzero | hbeyond
    · exact hzero
    · exact absurd (Nat.le_trans (Nat.le_add_right _ _) hinside) (Nat.not_le.mpr hbeyond)
  · intro hzero
    obtain ⟨-, -, hshared, -, hwrite, hchecked⟩ := mapdrvMmap_spec hw haccepted
    refine ⟨fun _ ↦ ?_, fun _ hwritable ↦ ?_, fun _ ↦ ?_, fun hrejected ↦ ?_⟩
    · rw [maplen_lt_iff hw hlt] at hsize
      rw [hresult]
      dsimp only [VmArea.locked]
      rw [hzero, show (0 : BitVec w).toNat = 0 from BitVec.toNat_zero]
      omega
    · exact hshared.mpr (hchecked (hwrite.mp hwritable))
    · rw [hresult]
    · exact absurd haccepted hrejected

/-- For every vma that is not empty, of words of any width of at least 32 bits, `mapdrv_mmap` meets
its contract if and only if the vma is longer than the area, or it is writable and private, or its
`vm_pgoff` is zero, or the shift of its `vm_pgoff` is not zero and it has `VM_LOCKONFAULT`. -/
theorem mmapContract_iff (hw : 32 ≤ w) (vma : VmArea w) (hlt : vma.vmStart < vma.vmEnd) :
    MmapContract vma ↔
      4096 * 10 < vma.vmEnd.toNat - vma.vmStart.toNat ∨
        (vma.Has (vmWrite w) ∧ ¬ vma.Has (vmShared w)) ∨
        vma.vmPgoff = 0 ∨
        (vma.vmPgoff <<< pageShift ≠ 0 ∧ vma.Has (vmLockonfault w)) := by
  rw [← maplen_lt_iff hw hlt]
  rcases mapdrvMmap_cases vma with ⟨hsize, hresult⟩ | ⟨hsize, hprivate, hresult⟩ |
    ⟨hsize, hprivate, ⟨hoffset, hresult⟩ | ⟨hoffset, hresult⟩⟩
  · have hcode : enxio ≠ 0 := by decide
    exact iff_of_true ((mmapContract_iff_of_rejected hresult hcode).mpr rfl) (Or.inl hsize)
  · have hcode : einval ≠ 0 := by decide
    exact iff_of_true ((mmapContract_iff_of_rejected hresult hcode).mpr rfl)
      (Or.inr (Or.inl hprivate))
  · rw [mmapContract_iff_of_accepted hw hlt hsize hoffset hresult, or_iff_right hsize,
      or_iff_right hprivate, or_iff_left fun hlocked ↦ hlocked.1 hoffset]
  · have hcode : enxio ≠ 0 := by decide
    have hpgoff : vma.vmPgoff ≠ 0 := by
      intro hzero
      rw [hzero] at hoffset
      exact hoffset (BitVec.zero_shiftLeft pageShift)
    rw [mmapContract_iff_of_rejected hresult hcode, vma.locked_eq_self_iff hw, or_iff_right hsize,
      or_iff_right hprivate, or_iff_right hpgoff, and_iff_right hoffset]

/-- A shared mapping of one page whose page offset is `2 ^ 52`. -/
def farMapping : VmArea 64 := ⟨0x10000#64, 0x11000#64, 0x10000000000000#64, 0xfb#64, .unset⟩

/-- A shared mapping of one page whose page offset is one. -/
def secondPageMapping : VmArea 64 := ⟨0x10000#64, 0x11000#64, 1#64, 0xfb#64, .unset⟩

/-- A mapping of the first page meets the contract. -/
theorem firstPage_mmapContract :
    MmapContract (⟨0x10000#64, 0x11000#64, 0#64, 0xfb#64, .unset⟩ : VmArea 64) :=
  (mmapContract_iff (by decide) _ (by decide)).mpr (Or.inr (Or.inr (Or.inl rfl)))

/-- The offset `2 ^ 52` pages is accepted, and the offset of one page is rejected with
`VM_LOCKONFAULT` set. -/
theorem not_mmapContract : ¬ MmapContract farMapping ∧ ¬ MmapContract secondPageMapping := by
  refine ⟨fun hcontract ↦ ?_, fun hcontract ↦ ?_⟩
  · exact absurd (hcontract.inside (by decide)) (by decide)
  · exact absurd (hcontract.unchanged (by decide)) (by decide)

end KernelExperiments.SharedMapping
