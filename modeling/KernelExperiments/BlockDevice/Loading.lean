import KernelExperiments.Ramdisk.Driver

/-!
# Loading the multiqueue block device

`exp_4_2.c`: `exp_4_2_init` and `exp_4_2_exit`. The disk memory is taken first, then the major
number, the request queue and the gendisk. The first failures return at once; only the failure of
`alloc_disk` gives something back, the queue and the major number.

## Scope

The spinlock, the tag set and the fields of the gendisk do not enter any result.
-/

set_option autoImplicit false
set_option relaxedAutoImplicit false

namespace KernelExperiments.BlockDevice

open Ramdisk (Vmalloc Resource ResourceEvent)

/-- The outcomes of the kernel calls of `exp_4_2_init`: what `register_blkdev` returns, the error
code in the pointer of `blk_mq_init_queue`, if it fails, and whether `alloc_disk` succeeds. -/
structure Exp42Calls where
  vmalloc : Vmalloc
  registerBlkdev : ℤ
  blkMqInitQueue : Option { code : ℤ // code < 0 }
  allocDisk : Bool

/-- The static variables of the driver. A pointer is given by whether it is not `NULL`. -/
structure Exp42Statics where
  diskContent : Bool
  majorNum : ℤ
  queue : Bool
  gendiskPtr : Bool

/-- The static variables as they are loaded. -/
def Exp42Statics.fresh : Exp42Statics := ⟨false, 0, false, false⟩

/-- What `exp_4_2_init` returns and leaves, and the resources taken and given back on the way. -/
structure Exp42Result where
  ret : ℤ
  statics : Exp42Statics
  events : List ResourceEvent

/-- `-ENOMEM`. -/
def enomem : ℤ := -12

/-- `exp_4_2_init`. -/
def exp42Init (calls : Exp42Calls) : Exp42Result :=
  let statics := Exp42Statics.fresh
  match calls.vmalloc.alloc (16 * 1024 * 1024) with
  | none => ⟨enomem, statics, []⟩
  | some _ =>
    let statics := { statics with diskContent := true, majorNum := calls.registerBlkdev }
    if statics.majorNum < 0 then ⟨statics.majorNum, statics, [.acquire .memory]⟩
    else
      let statics := { statics with queue := true }
      match calls.blkMqInitQueue with
      | some error => ⟨error, statics, [.acquire .memory, .acquire .major]⟩
      | none =>
        if !calls.allocDisk then
          ⟨enomem, statics, [.acquire .memory, .acquire .major, .acquire .queue, .release .queue,
            .release .major]⟩
        else
          ⟨0, { statics with gendiskPtr := true },
            [.acquire .memory, .acquire .major, .acquire .queue, .acquire .gendisk]⟩

/-- `exp_4_2_exit`: the resources it gives back, in order. -/
def exp42Exit (statics : Exp42Statics) : List ResourceEvent :=
  (if statics.gendiskPtr then [.release .gendisk] else []) ++
    (if statics.queue then [.release .queue] else []) ++
    [.release .major] ++
    (if statics.diskContent then [.release .memory] else [])

end KernelExperiments.BlockDevice
