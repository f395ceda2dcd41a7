import KernelExperiments.Ramdisk.SectorStore

/-!
# The size parameter of the ramdisk driver

`my_init` multiplies the module parameter by `2 ^ 20` in 32-bit arithmetic and asks `vmalloc` for
that many bytes. A driver that loads should have the size it was asked for, as an integer, advertise
that many sectors and have memory behind each of them, and a parameter for which this is impossible
should make the load fail (`SizeContract`).

Only the parameter modulo 4096 enters the product. A load succeeds exactly when the parameter is,
modulo 4096, a number of megabytes between 1 and 2047, and the kernel calls succeed for that many
(`myInit_ret_eq_zero_iff`); the driver then has that size (`LoadedMegabytes`). So 4097 loads like 1,
and so do some negative parameters: outside the range from 0 to 2047 the contract holds only when
the load fails (`sizeContract_iff`).
-/

set_option autoImplicit false
set_option relaxedAutoImplicit false

namespace KernelExperiments.Ramdisk

/-! ### The contract -/

/-- The length of the area: what `my_init` asked `vmalloc` for, `disk_size` converted to
`size_t`. -/
def Driver.areaBytes (driver : Driver) : ℕ := (driver.diskSize.signExtend 64).toNat

/-- The loaded driver has the size that the parameter asks for, in unbounded integers. -/
structure SizeKept (diskmb : BitVec 32) (driver : Driver) : Prop where
  diskSize_eq : driver.diskSize.toInt = diskmb.toInt * 1048576
  capacity_eq : (driver.capacity.toNat : ℤ) = diskmb.toInt * 2048
  backed : ∀ sector < driver.capacity.toNat, 512 * sector + 512 ≤ driver.areaBytes

/-- What the size parameter promises: a load that succeeds keeps the size, and a load whose size no
driver can have fails with an error. -/
structure SizeContract (calls : InitCalls) (diskmb : BitVec 32) : Prop where
  kept : (myInit calls diskmb).ret = 0 →
    ∃ driver, (myInit calls diskmb).outcome = .ok driver ∧ SizeKept diskmb driver
  fails : (∀ driver, ¬ SizeKept diskmb driver) → (myInit calls diskmb).ret < 0

/-! ### When a load succeeds -/

/-- The kernel calls of `my_init` succeed, `vmalloc` for `size` bytes. -/
structure InitCalls.Succeed (calls : InitCalls) (size : BitVec 64) : Prop where
  alloc_ne_none : calls.vmalloc.alloc size ≠ none
  blkInitQueue_eq : calls.blkInitQueue = true
  registerBlkdev_nonneg : 0 ≤ calls.registerBlkdev
  allocDisk_eq : calls.allocDisk = true

theorem enomem_neg : enomem < 0 := by decide

/-- A load either fails with a negative error code, or returns zero with a driver and all kernel
calls succeeded. -/
theorem myInit_cases (calls : InitCalls) (diskmb : BitVec 32) :
    ((myInit calls diskmb).ret < 0 ∧
        ¬ calls.Succeed ((diskmb * 1024 * 1024).signExtend 64)) ∨
      (myInit calls diskmb).ret = 0 ∧ calls.Succeed ((diskmb * 1024 * 1024).signExtend 64) ∧
        ∃ driver, (myInit calls diskmb).outcome = .ok driver := by
  unfold myInit
  dsimp only
  cases halloc : calls.vmalloc.alloc ((diskmb * 1024 * 1024).signExtend 64) with
  | none => exact Or.inl ⟨enomem_neg, fun hcalls ↦ hcalls.alloc_ne_none halloc⟩
  | some ramdisk =>
    dsimp only
    split_ifs with hqueue hmajor hdisk
    · refine Or.inl ⟨enomem_neg, fun hcalls ↦ ?_⟩
      simp [hcalls.blkInitQueue_eq] at hqueue
    · refine Or.inl ⟨hmajor, fun hcalls ↦ ?_⟩
      exact absurd hcalls.registerBlkdev_nonneg (Int.not_le.mpr hmajor)
    · refine Or.inl ⟨enomem_neg, fun hcalls ↦ ?_⟩
      simp [hcalls.allocDisk_eq] at hdisk
    · refine Or.inr ⟨rfl, ⟨?_, ?_, Int.not_lt.mp hmajor, ?_⟩, _, rfl⟩
      · rw [halloc]
        exact Option.some_ne_none _
      · simpa using hqueue
      · simpa using hdisk

/-- The product `diskmb * 1024 * 1024` depends on the parameter modulo 4096. -/
theorem toNat_diskmb_mul (diskmb : BitVec 32) :
    (diskmb * 1024 * 1024).toNat = diskmb.toNat % 4096 * 1048576 := by
  have hbound := diskmb.isLt
  rw [BitVec.toNat_mul, BitVec.toNat_mul]
  change diskmb.toNat * 1024 % 4294967296 * 1024 % 4294967296 = _
  omega

/-- The wrapped product converted to `size_t` is the exact one for less than 2048 megabytes. -/
theorem signExtend_diskmb_mul {diskmb : BitVec 32} (hlt : diskmb.toNat % 4096 < 2048) :
    (diskmb * 1024 * 1024).signExtend 64 = BitVec.ofNat 64 (diskmb.toNat % 4096 * 1048576) := by
  have hnat := toNat_diskmb_mul diskmb
  have hint : (diskmb * 1024 * 1024).toInt = (diskmb.toNat % 4096 * 1048576 : ℕ) := by
    rw [BitVec.toInt_eq_toNat_of_lt (by omega), hnat]
  have hexact : (BitVec.ofNat 64 (diskmb.toNat % 4096 * 1048576)).toNat =
      diskmb.toNat % 4096 * 1048576 := BitVec.toNat_ofNat _ _ ▸ Nat.mod_eq_of_lt (by omega)
  refine BitVec.eq_of_toInt_eq ?_
  rw [BitVec.toInt_signExtend_of_le (by omega), hint, BitVec.toInt_eq_toNat_of_lt (by omega),
    hexact]

/-- The driver has `megabytes` megabytes: its size and its capacity are exact for that many. -/
structure LoadedMegabytes (driver : Driver) (megabytes : ℕ) : Prop where
  pos : 0 < megabytes
  lt : megabytes < 2048
  diskSize_eq : driver.diskSize.toInt = megabytes * 1048576
  capacity_eq : driver.capacity.toNat = 2048 * megabytes

/-- The disk size converted to 64 bits is exact. -/
theorem LoadedMegabytes.toInt_signExtend {driver : Driver} {megabytes : ℕ}
    (hloaded : LoadedMegabytes driver megabytes) :
    (driver.diskSize.signExtend 64).toInt = megabytes * 1048576 := by
  rw [BitVec.toInt_signExtend_of_le (by omega), hloaded.diskSize_eq]

/-- A driver that loads has as many megabytes as the parameter modulo 4096. -/
theorem loadedMegabytes_of_myInit {calls : InitCalls} {diskmb : BitVec 32} {driver : Driver}
    (hinit : (myInit calls diskmb).outcome = .ok driver) :
    LoadedMegabytes driver (diskmb.toNat % 4096) := by
  obtain ⟨hpos, hcapacity⟩ := diskSize_pos_of_myInit hinit
  obtain ⟨hdiskSize, -⟩ := driver_of_myInit hinit
  have hnat := toNat_diskmb_mul diskmb
  rw [← hdiskSize] at hnat
  have hint := BitVec.toInt_eq_toNat_cond driver.diskSize
  split_ifs at hint with hsign
  · have hsize : driver.diskSize.toInt = (diskmb.toNat % 4096 : ℕ) * 1048576 := by omega
    refine ⟨by omega, by omega, hsize, ?_⟩
    rw [hcapacity, BitVec.toNat_ofInt, Int.tdiv_eq_ediv_of_nonneg (Int.le_of_lt hpos)]
    omega
  · have hbound := driver.diskSize.isLt
    omega

/-- `my_init` succeeds exactly when the parameter is, modulo 4096, between 1 and 2047, and the
kernel calls succeed for that many megabytes. -/
theorem myInit_ret_eq_zero_iff (calls : InitCalls) (diskmb : BitVec 32) :
    (myInit calls diskmb).ret = 0 ↔
      0 < diskmb.toNat % 4096 ∧ diskmb.toNat % 4096 < 2048 ∧
        calls.Succeed (BitVec.ofNat 64 (diskmb.toNat % 4096 * 1048576)) := by
  constructor
  · intro hret
    rcases myInit_cases calls diskmb with ⟨hfail, -⟩ | ⟨-, hcalls, driver, hdriver⟩
    · omega
    · have hloaded := loadedMegabytes_of_myInit hdriver
      exact ⟨hloaded.pos, hloaded.lt, signExtend_diskmb_mul hloaded.lt ▸ hcalls⟩
  · rintro ⟨-, hlt, hcalls⟩
    rw [← signExtend_diskmb_mul hlt] at hcalls
    rcases myInit_cases calls diskmb with ⟨-, hfail⟩ | ⟨hret, -⟩
    · exact absurd hcalls hfail
    · exact hret

/-! ### Exactly when the contract is met -/

/-- The advertised sectors of a loaded driver always have memory behind them. -/
theorem LoadedMegabytes.backed {driver : Driver} {megabytes : ℕ}
    (hloaded : LoadedMegabytes driver megabytes) :
    ∀ sector < driver.capacity.toNat, 512 * sector + 512 ≤ driver.areaBytes := by
  intro sector hsector
  have hlt := hloaded.lt
  have hextend := hloaded.toInt_signExtend
  rw [hloaded.capacity_eq] at hsector
  rw [BitVec.toInt_eq_toNat_cond] at hextend
  unfold Driver.areaBytes
  split_ifs at hextend <;> omega

/-- A loaded driver keeps the size that the parameter asks for exactly when the parameter is that
number of megabytes. -/
theorem LoadedMegabytes.sizeKept_iff {driver : Driver} {megabytes : ℕ}
    (hloaded : LoadedMegabytes driver megabytes) (diskmb : BitVec 32) :
    SizeKept diskmb driver ↔ diskmb.toInt = megabytes := by
  have hsize := hloaded.diskSize_eq
  have hcapacity := hloaded.capacity_eq
  constructor
  · intro hkept
    have hparameter := hkept.diskSize_eq
    omega
  · intro hparameter
    exact ⟨by omega, by omega, hloaded.backed⟩

/-- A parameter outside the range of megabytes that an `int` of bytes can hold, from 0 to 2047, is
kept by no driver. -/
theorem not_sizeKept_of_out_of_range {diskmb : BitVec 32}
    (hrange : diskmb.toInt < 0 ∨ 2048 ≤ diskmb.toInt) (driver : Driver) :
    ¬ SizeKept diskmb driver := by
  intro hkept
  have hsize : 2 * driver.diskSize.toInt < 4294967296 := BitVec.two_mul_toInt_lt
  have hparameter := hkept.diskSize_eq
  have hcapacity := hkept.capacity_eq
  omega

/-- For every parameter and all outcomes of the kernel calls, the size contract holds if and only if
the parameter is between 0 and 2047, or it is outside this range modulo 4096 or zero there, or a
kernel call fails for the parameter modulo 4096 in megabytes. -/
theorem sizeContract_iff (calls : InitCalls) (diskmb : BitVec 32) :
    SizeContract calls diskmb ↔
      (0 ≤ diskmb.toInt ∧ diskmb.toInt < 2048) ∨
        diskmb.toNat % 4096 = 0 ∨ 2048 ≤ diskmb.toNat % 4096 ∨
          ¬ calls.Succeed (BitVec.ofNat 64 (diskmb.toNat % 4096 * 1048576)) := by
  have hnat := BitVec.toInt_eq_toNat_cond diskmb
  have hzero := myInit_ret_eq_zero_iff calls diskmb
  rcases myInit_cases calls diskmb with ⟨hfail, -⟩ | ⟨hret, -, driver, hdriver⟩
  · have hcondition : ¬ (0 < diskmb.toNat % 4096 ∧ diskmb.toNat % 4096 < 2048 ∧
        calls.Succeed (BitVec.ofNat 64 (diskmb.toNat % 4096 * 1048576))) :=
      fun hcalls ↦ absurd (hzero.mpr hcalls) (by omega)
    refine iff_of_true ⟨fun hret ↦ absurd hret (by omega), fun _ ↦ hfail⟩ (Or.inr ?_)
    by_contra hneither
    obtain ⟨hpos, hlt, hcalls⟩ := not_or.mp hneither |>.imp_right not_or.mp
    exact hcondition ⟨Nat.pos_of_ne_zero hpos, Nat.not_le.mp hlt, not_not.mp hcalls⟩
  · obtain ⟨hpos, hlt, hcalls⟩ := hzero.mp hret
    have hloaded := loadedMegabytes_of_myInit hdriver
    constructor
    · intro hcontract
      by_contra hrange
      have hout : diskmb.toInt < 0 ∨ 2048 ≤ diskmb.toInt := by
        by_contra hinside
        exact hrange (Or.inl (by omega))
      have hnegative := hcontract.fails (not_sizeKept_of_out_of_range hout)
      omega
    · rintro (⟨hlow, hhigh⟩ | hmod | hmod | hnone)
      · have hexact : diskmb.toInt = (diskmb.toNat % 4096 : ℕ) := by
          split_ifs at hnat <;> omega
        have hkept := (hloaded.sizeKept_iff diskmb).mpr hexact
        exact ⟨fun _ ↦ ⟨driver, hdriver, hkept⟩, fun hnever ↦ absurd hkept (hnever driver)⟩
      · omega
      · omega
      · exact absurd hcalls hnone

/-- On a machine with 64 megabytes, the parameter 4097 loads a driver of one megabyte. -/
theorem not_sizeContract_wrapped : ¬ SizeContract smallMachineCalls 4097 := by
  intro hcontract
  obtain ⟨driver, hdriver, hkept⟩ := hcontract.kept rfl
  have hmegabyte : (myInit smallMachineCalls 4097).outcome = .ok megabyteDriver := rfl
  rw [hmegabyte] at hdriver
  cases hdriver
  exact absurd hkept.diskSize_eq (by decide)

end KernelExperiments.Ramdisk
