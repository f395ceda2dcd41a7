import KernelExperiments.Foundation.ModuleLifecycle

/-!
# Loading the character device

`exp4_1_kernel.c`: `device_init` allocates a region of device numbers and a `cdev`, and adds it;
`device_exit` undoes this. The failure of `cdev_alloc` jumps past the declaration
`int char_device_add_fail = 0` to the label behind it, where that variable is returned: its value is
then whatever its place on the stack held, a parameter of `deviceInit`.

## Scope

The open, read and write functions only log. `unregister_chrdev_region` of a region that is not
registered does nothing.
-/

set_option autoImplicit false
set_option relaxedAutoImplicit false

namespace KernelExperiments.CharDevice

open Foundation

/-- A `cdev`: not there, allocated, or added to the system. -/
inductive CdevState
  | absent
  | allocated
  | added
  deriving DecidableEq

/-- What the kernel holds of the driver: whether its region of device numbers is registered, and
its `cdev`. -/
structure Chrdev where
  region : Bool
  cdev : CdevState
  deriving DecidableEq

/-- The outcomes of the kernel calls of `device_init`: the return values of `alloc_chrdev_region`
and `cdev_add`, zero for success, and whether `cdev_alloc` succeeds. -/
structure DeviceCalls where
  allocChrdevRegion : ℤ
  cdevAlloc : Bool
  cdevAdd : ℤ

/-- The static pointer `my_cdev`, by whether it is not `NULL`. -/
structure DeviceStatics where
  myCdev : Bool

/-- `cdev_del`. -/
def cdevDel (chrdev : Chrdev) : Chrdev := { chrdev with cdev := .absent }

/-- `unregister_chrdev_region`. -/
def unregisterChrdevRegion (chrdev : Chrdev) : Chrdev := { chrdev with region := false }

/-- `device_init`. The value that `char_device_add_fail` has when it was never assigned is
`onStack`. -/
def deviceInit (chrdev : Chrdev) (calls : DeviceCalls) (onStack : ℤ) :
    InitOutcome Chrdev DeviceStatics :=
  let allocDeviceNumFail := calls.allocChrdevRegion
  if allocDeviceNumFail ≠ 0 then ⟨allocDeviceNumFail, ⟨false⟩, chrdev⟩
  else
    let chrdev := { chrdev with region := true }
    if !calls.cdevAlloc then ⟨onStack, ⟨false⟩, unregisterChrdevRegion chrdev⟩
    else
      let chrdev := { chrdev with cdev := .allocated }
      let charDeviceAddFail := calls.cdevAdd
      if charDeviceAddFail ≠ 0 then
        ⟨charDeviceAddFail, ⟨true⟩, unregisterChrdevRegion (cdevDel chrdev)⟩
      else ⟨0, ⟨true⟩, { chrdev with cdev := .added }⟩

/-- `device_exit`. -/
def deviceExit (chrdev : Chrdev) (statics : DeviceStatics) : ExitOutcome Chrdev DeviceStatics :=
  let chrdev := if statics.myCdev then cdevDel chrdev else chrdev
  ⟨statics, unregisterChrdevRegion chrdev⟩

end KernelExperiments.CharDevice
