import KernelExperiments.Foundation.UserCopy
import Mathlib.Data.Int.Notation
import Mathlib.Data.List.OfFn

/-!
# The message in `/proc/hello/world`

`exp3.1.c`: a proc file backed by one array of 256 bytes. `proc_write` replaces the message,
`proc_read` hands it out. The end of the file is kept in a static variable of `proc_read`, so it is
part of the state of the module and not of the open file (`ProcModule.finished`).

Copies from and to the user may fault at any byte. A `copy_from_user` that faults has moved the
bytes in front of the fault and may fill the rest of the destination with zeros (`copyFromUser`).

## Scope

The log messages are left out. `strlen` is the length up to the first zero byte of the array, and
the length of the array where it has none.
-/

set_option autoImplicit false
set_option relaxedAutoImplicit false

namespace KernelExperiments.ProcMessage

open Foundation

/-! ### The state of the module -/

/-- `PROC_MSG`, an array of `PROC_MSG_LEN` bytes. -/
abbrev ProcMsg := Fin 256 → UInt8

/-- The state of the module: the message, and the variable `finished` of `proc_read`. -/
structure ProcModule where
  procMsg : ProcMsg
  finished : Bool

/-- `"Hello, World!\n"`. -/
def helloWorld : List UInt8 := [72, 101, 108, 108, 111, 44, 32, 87, 111, 114, 108, 100, 33, 10]

/-- The module as it is loaded. -/
def ProcModule.loaded : ProcModule where
  procMsg := fun index ↦ helloWorld.getD index 0
  finished := false

/-- The string in the array: its bytes up to the first zero. -/
def ProcMsg.message (procMsg : ProcMsg) : List UInt8 := (List.ofFn procMsg).takeWhile (· ≠ 0)

/-- `strlen(PROC_MSG)`. -/
def ProcMsg.strlen (procMsg : ProcMsg) : ℕ := procMsg.message.length

/-- `-EINVAL`. -/
def einval : ℤ := -22

/-- `-EFAULT`. -/
def efault : ℤ := -14

/-! ### Writing -/

/-- A call of `proc_write`: the user buffer, the count, the fault of the copy, if any, and whether
the copy then fills the rest with zeros. -/
structure WriteCall where
  buffer : ℕ → UInt8
  count : ℕ
  fault : Option ℕ
  zeroFill : Bool

/-- `copy_from_user(PROC_MSG, buffer, count)`. -/
def copyFromUser (procMsg : ProcMsg) (call : WriteCall) : ProcMsg := fun index ↦
  if index.val < copied call.count call.fault then call.buffer index
  else if call.zeroFill ∧ index.val < call.count then 0
  else procMsg index

/-- `proc_write`. -/
def procWrite (state : ProcModule) (call : WriteCall) : ProcModule × ℤ :=
  if call.count > 256 - 1 then (state, einval)
  else
    let procMsg := copyFromUser state.procMsg call
    if Faults call.count call.fault then ({ state with procMsg := procMsg }, efault)
    else
      ({ state with procMsg := fun index ↦ if index.val = call.count then 0 else procMsg index },
        call.count)

/-! ### Reading -/

/-- What a call of `proc_read` leaves: the module, the return value, the bytes in the user buffer
and the file position. -/
structure ReadResult where
  state : ProcModule
  ret : ℤ
  buffer : List UInt8
  pos : ℤ

/-- `proc_read`. The count of the caller is not looked at. -/
def procRead (state : ProcModule) (_count : ℕ) (pos : ℤ) (fault : Option ℕ) : ReadResult :=
  if state.finished then ⟨{ state with finished := false }, 0, [], pos⟩
  else
    let length := state.procMsg.strlen
    let buffer := (List.ofFn state.procMsg).take (copied length fault)
    if Faults length fault then ⟨{ state with finished := true }, efault, buffer, pos⟩
    else ⟨{ state with finished := true }, length, buffer, pos + length⟩

/-! ### The cases of a read -/

theorem ProcMsg.take_strlen (procMsg : ProcMsg) :
    (List.ofFn procMsg).take procMsg.strlen = procMsg.message :=
  (List.prefix_iff_eq_take.mp (List.takeWhile_prefix _)).symm

/-- With the flag set a read reports the end of the file and clears the flag. -/
theorem procRead_of_finished {state : ProcModule} (hfinished : state.finished = true) (count : ℕ)
    (pos : ℤ) (fault : Option ℕ) :
    procRead state count pos fault = ⟨{ state with finished := false }, 0, [], pos⟩ :=
  if_pos hfinished

/-- With the flag clear a read whose copy faults fails, and sets the flag. -/
theorem procRead_of_faults {state : ProcModule} (hfinished : state.finished = false) (count : ℕ)
    (pos : ℤ) {fault : Option ℕ} (hfault : Faults state.procMsg.strlen fault) :
    procRead state count pos fault =
      ⟨{ state with finished := true }, efault,
        (List.ofFn state.procMsg).take (copied state.procMsg.strlen fault), pos⟩ := by
  unfold procRead
  rw [hfinished, if_neg Bool.false_ne_true]
  exact if_pos hfault

/-- With the flag clear a read whose copy succeeds delivers the message, and sets the flag. -/
theorem procRead_of_not_faults {state : ProcModule} (hfinished : state.finished = false)
    (count : ℕ) (pos : ℤ) {fault : Option ℕ} (hfault : ¬ Faults state.procMsg.strlen fault) :
    procRead state count pos fault =
      ⟨{ state with finished := true }, state.procMsg.strlen, state.procMsg.message,
        pos + state.procMsg.strlen⟩ := by
  unfold procRead
  rw [hfinished, if_neg Bool.false_ne_true]
  dsimp only
  rw [if_neg hfault, copied_eq_of_not_faults hfault, ProcMsg.take_strlen]

end KernelExperiments.ProcMessage
