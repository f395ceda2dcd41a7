import KernelExperiments.Foundation.UserCopy
import KernelExperiments.Ramdisk.SizeParameter

/-!
# The geometry that the ramdisk reports

`my_ioctl` answers `HDIO_GETGEO` with two heads, sixteen sectors and a number of cylinders computed
from the size of the disk. The geometry should agree with the capacity: as many cylinders of heads
times sectors as the capacity holds, or the largest number the field can carry when that does not
fit (`HdGeometry.AgreesWith`).

The shift by six bits divides the size by 64, which would be right for a size in sectors and 64
sectors to a cylinder; the size is in bytes, and a cylinder has 32 sectors. A disk of some megabytes
is reported with that number of megabytes modulo four, times 16384 cylinders
(`cylinders_geometry`), and this never agrees (`not_geometryContract`).
-/

set_option autoImplicit false
set_option relaxedAutoImplicit false

namespace KernelExperiments.Ramdisk

open Foundation

/-! ### The driver's control call -/

/-- `struct hd_geometry`. -/
structure HdGeometry where
  heads : BitVec 8
  sectors : BitVec 8
  cylinders : BitVec 16
  start : BitVec 64
  deriving DecidableEq

/-- `HDIO_GETGEO`. -/
def hdioGetgeo : BitVec 32 := 0x0301

/-- `-EFAULT`. -/
def efault : ℤ := -14

/-- `-ENOTTY`. -/
def enotty : ℤ := -25

/-- What a control call returns, and the geometry in the caller's memory when it was copied there
whole. -/
structure IoctlResult where
  ret : ℤ
  reported : Option HdGeometry
  deriving DecidableEq

/-- The geometry that `my_ioctl` fills in. -/
def geometry (diskSize : BitVec 32) : HdGeometry :=
  let size := diskSize.signExtend 64
  let size := size &&& ~~~0x3f#64
  { heads := 2
    sectors := 16
    cylinders := (size.sshiftRight 6).setWidth 16
    start := 4 }

/-- `my_ioctl`. The copy to the user is of `sizeof(geo)` bytes and may fault at any of them. -/
def myIoctl (diskSize : BitVec 32) (cmd : BitVec 32) (fault : Option ℕ) : IoctlResult :=
  if cmd = hdioGetgeo then
    if Faults 16 fault then ⟨efault, none⟩ else ⟨0, some (geometry diskSize)⟩
  else ⟨enotty, none⟩

/-! ### What the geometry is to say -/

/-- The sectors of one cylinder. -/
def HdGeometry.cylinderSectors (geo : HdGeometry) : ℕ := geo.heads.toNat * geo.sectors.toNat

/-- The geometry covers the capacity up to less than a cylinder, or has as many cylinders as the
field can carry when the capacity has more. -/
def HdGeometry.AgreesWith (geo : HdGeometry) (capacity : ℕ) : Prop :=
  (geo.cylinderSectors * geo.cylinders.toNat ≤ capacity ∧
      capacity - geo.cylinderSectors * geo.cylinders.toNat < geo.cylinderSectors) ∨
    (65535 < capacity / geo.cylinderSectors ∧ geo.cylinders.toNat = 65535)

/-- Every geometry that a driver reports agrees with the capacity it advertised. -/
def GeometryContract (driver : Driver) : Prop :=
  ∀ (fault : Option ℕ) (geo : HdGeometry),
    (myIoctl driver.diskSize hdioGetgeo fault).reported = some geo →
      geo.AgreesWith driver.capacity.toNat

/-! ### What it says -/

/-- Clearing the low six bits does not change what a shift by six keeps. -/
theorem sshiftRight_six_and_not (size : BitVec 64) :
    (size &&& ~~~0x3f#64).sshiftRight 6 = size.sshiftRight 6 := by
  have hones : (~~~0x3f#64).sshiftRight 6 = BitVec.allOnes 64 := by decide
  rw [BitVec.sshiftRight_and_distrib, hones, BitVec.and_allOnes]

/-- A driver of some megabytes reports 16384 cylinders for each of them, modulo `2 ^ 16`. -/
theorem cylinders_geometry {driver : Driver} {megabytes : ℕ}
    (hloaded : LoadedMegabytes driver megabytes) :
    (geometry driver.diskSize).cylinders.toNat = 16384 * (megabytes % 4) := by
  have hlt := hloaded.lt
  have hshift : ((driver.diskSize.signExtend 64).sshiftRight 6).toInt = megabytes * 16384 := by
    rw [BitVec.toInt_sshiftRight, hloaded.toInt_signExtend, Int.shiftRight_eq_div_pow]
    omega
  have hnat : ((driver.diskSize.signExtend 64).sshiftRight 6).toNat = megabytes * 16384 := by
    rw [BitVec.toInt_eq_toNat_cond] at hshift
    split_ifs at hshift <;> omega
  unfold geometry
  dsimp only
  rw [sshiftRight_six_and_not, BitVec.toNat_setWidth, hnat]
  omega

/-- For every parameter with which `my_init` succeeds, the geometry that `my_ioctl` reports does not
agree with the capacity. -/
theorem not_geometryContract {calls : InitCalls} {diskmb : BitVec 32} {driver : Driver}
    (hinit : (myInit calls diskmb).outcome = .ok driver) : ¬ GeometryContract driver := by
  intro hcontract
  have hloaded := loadedMegabytes_of_myInit hinit
  have hcylinders := cylinders_geometry hloaded
  have hsectors : (geometry driver.diskSize).cylinderSectors = 32 := rfl
  have hpos := hloaded.pos
  have hlt := hloaded.lt
  have hagrees := hcontract none (geometry driver.diskSize) rfl
  unfold HdGeometry.AgreesWith at hagrees
  rw [hcylinders, hsectors, hloaded.capacity_eq] at hagrees
  omega

/-- The driver of one megabyte has 64 cylinders of 32 sectors and reports 16384. -/
theorem not_geometryContract_megabyteDriver :
    ¬ GeometryContract megabyteDriver ∧
      (geometry megabyteDriver.diskSize).cylinders.toNat = 16384 :=
  ⟨not_geometryContract myInit_smallMachineCalls, by decide⟩

/-- The kernel calls of a load on a machine with one gigabyte, all of which succeed. -/
def largeMachineCalls : InitCalls := { smallMachineCalls with
  vmalloc := {
    machineBytes := 2 ^ 30
    machineBytes_lt := by decide
    alloc := fun size ↦
      if size = 0 ∨ 2 ^ 30 < size.toNat then none else some fun _ ↦ 0
    alloc_zero := if_pos (Or.inl rfl)
    alloc_of_lt := fun _ hlt ↦ if_pos (Or.inr hlt) } }

/-- The driver those calls load with the default parameter, 256 megabytes. -/
def defaultDriver : Driver := ⟨254, 0x10000000, fun _ ↦ 0, 524288⟩

/-- With the default parameter the driver reports no cylinder at all. -/
theorem not_geometryContract_defaultDriver :
    (myInit largeMachineCalls 256).outcome = .ok defaultDriver ∧
      ¬ GeometryContract defaultDriver := by
  refine ⟨rfl, fun hcontract ↦ ?_⟩
  have hagrees := hcontract none ⟨2, 16, 0, 4⟩ (by decide)
  revert hagrees
  unfold HdGeometry.AgreesWith
  decide

end KernelExperiments.Ramdisk
