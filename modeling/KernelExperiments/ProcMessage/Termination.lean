import KernelExperiments.Foundation.Runs
import KernelExperiments.ProcMessage.Driver
import Mathlib.Data.List.TakeWhile
import Mathlib.Tactic.SplitIfs

/-!
# The message stays a terminated string

`proc_read` hands out `PROC_MSG` up to its first zero, so there has to be one: in every state that
calls of `proc_write` and `proc_read` reach, with any counts, any bytes and any faults
(`run_terminated`). Then no call reaches behind the array.

That the message ends at the length last written does not survive a copy that faults, which moves
bytes and skips the terminator. What survives is that the last byte of the array is zero
(`LastByteZero`): an accepted count is at most 255, so no copy and no fill reaches that byte, and
the only store that can is the terminator.
-/

set_option autoImplicit false
set_option relaxedAutoImplicit false

namespace KernelExperiments.ProcMessage

open Foundation

/-! ### Calls of the two functions -/

/-- A call of one of the two functions. -/
inductive ProcCall
  | write (call : WriteCall)
  | read (count : ℕ) (pos : ℤ) (fault : Option ℕ)

/-- The module after a call. -/
def procStep (state : ProcModule) : ProcCall → ProcModule
  | .write call => (procWrite state call).1
  | .read count pos fault => (procRead state count pos fault).state

/-- The return value of a call, and the bytes it copies to its user. -/
def procResult (state : ProcModule) : ProcCall → ℤ × List UInt8
  | .write call => ((procWrite state call).2, [])
  | .read count pos fault =>
    ((procRead state count pos fault).ret, (procRead state count pos fault).buffer)

/-! ### What the calls touch -/

/-- The array has a zero byte. -/
def ProcMsg.Terminated (procMsg : ProcMsg) : Prop := ∃ index, procMsg index = 0

/-- The indices of `PROC_MSG` that the evaluation of `strlen` and the uses of the string touch: its
bytes and the one behind them. -/
def ProcMsg.stringIndices (procMsg : ProcMsg) : List ℕ := List.range (procMsg.strlen + 1)

/-- The indices of `PROC_MSG` that a call touches. A write that is not refused touches the
destination of its copy, and unless that faults the byte of the terminator, and then logs the
string; a read that is not at the end of the file takes the length of the string and copies it. -/
def touched (state : ProcModule) : ProcCall → List ℕ
  | .write call =>
    if call.count > 256 - 1 then []
    else if Faults call.count call.fault then List.range call.count
    else List.range call.count ++ [call.count] ++ (procWrite state call).1.procMsg.stringIndices
  | .read _ _ _ => if state.finished then [] else state.procMsg.stringIndices

/-- A call finds a terminated string of at most 255 bytes and stays inside the array. -/
structure StaysInside (state : ProcModule) (call : ProcCall) : Prop where
  terminated : state.procMsg.Terminated
  strlen_le : state.procMsg.strlen ≤ 255
  touched_lt : ∀ index ∈ touched state call, index < 256

/-! ### Terminated strings -/

/-- The string of a terminated array is shorter than the array. -/
theorem ProcMsg.Terminated.strlen_le {procMsg : ProcMsg} (hterminated : procMsg.Terminated) :
    procMsg.strlen ≤ 255 := by
  obtain ⟨index, hzero⟩ := hterminated
  have hfront : procMsg.message <+: List.ofFn procMsg := List.takeWhile_prefix _
  have hle := hfront.length_le
  rw [List.length_ofFn] at hle
  by_contra hlong
  have hlength : procMsg.message.length = (List.ofFn procMsg).length := by
    rw [List.length_ofFn]
    exact Nat.le_antisymm hle (Nat.not_le.mp hlong)
  have hwhole : procMsg.message = List.ofFn procMsg := hfront.eq_of_length hlength
  have hnonzero := List.takeWhile_eq_self_iff.mp hwhole (procMsg index)
    (List.mem_ofFn.mpr ⟨index, rfl⟩)
  exact of_decide_eq_true hnonzero hzero

/-- The bytes of a terminated string and its zero lie inside the array. -/
theorem ProcMsg.Terminated.stringIndices_lt {procMsg : ProcMsg}
    (hterminated : procMsg.Terminated) : ∀ index ∈ procMsg.stringIndices, index < 256 := by
  intro index hindex
  have hle := hterminated.strlen_le
  have hlt := List.mem_range.mp hindex
  omega

/-! ### The invariant -/

/-- The last byte of the array is zero. -/
def LastByteZero (state : ProcModule) : Prop := state.procMsg 255 = 0

theorem LastByteZero.terminated {state : ProcModule} (hlast : LastByteZero state) :
    state.procMsg.Terminated := ⟨255, hlast⟩

theorem lastByteZero_loaded : LastByteZero ProcModule.loaded := by
  unfold LastByteZero
  decide

/-- A copy of at most 255 bytes does not reach the last byte, whether it faults or not. -/
theorem copyFromUser_last (procMsg : ProcMsg) {call : WriteCall} (hcount : ¬ call.count > 256 - 1) :
    copyFromUser procMsg call 255 = procMsg 255 :=
  copiedCell_of_le (Nat.not_lt.mp hcount)

/-- Every write keeps the last byte zero. -/
theorem lastByteZero_procWrite {state : ProcModule} (hlast : LastByteZero state)
    (call : WriteCall) : LastByteZero (procWrite state call).1 := by
  unfold LastByteZero procWrite
  dsimp only
  split_ifs with hcount hfault
  · exact hlast
  · exact (copyFromUser_last state.procMsg hcount).trans hlast
  · dsimp only
    split_ifs
    · rfl
    · exact (copyFromUser_last state.procMsg hcount).trans hlast

/-- Every call keeps the last byte zero. -/
theorem lastByteZero_procStep (state : ProcModule) (call : ProcCall) (hlast : LastByteZero state) :
    LastByteZero (procStep state call) := by
  cases call with
  | write call => exact lastByteZero_procWrite hlast call
  | read count pos fault =>
    unfold procStep procRead
    dsimp only
    split_ifs <;> exact hlast

/-- A call in a state whose last byte is zero stays inside the array. -/
theorem staysInside_of_lastByteZero {state : ProcModule} (hlast : LastByteZero state)
    (call : ProcCall) : StaysInside state call := by
  refine ⟨hlast.terminated, hlast.terminated.strlen_le, ?_⟩
  cases call with
  | write call =>
    unfold touched
    dsimp only
    split_ifs with hcount hfault
    · exact fun _ hindex ↦ absurd hindex List.not_mem_nil
    · intro index hindex
      have hlt := List.mem_range.mp hindex
      omega
    · intro index hindex
      rcases List.mem_append.mp hindex with hwritten | hlogged
      · rw [← List.range_succ] at hwritten
        have hlt := List.mem_range.mp hwritten
        omega
      · exact (lastByteZero_procWrite hlast call).terminated.stringIndices_lt index hlogged
  | read count pos fault =>
    unfold touched
    dsimp only
    split_ifs
    · exact fun _ hindex ↦ absurd hindex List.not_mem_nil
    · exact hlast.terminated.stringIndices_lt

/-! ### Every reachable state -/

/-- In every run of writes and reads from the module as it is loaded, every call finds a terminated
string of at most 255 bytes and stays inside the array, and the run ends with such a string. -/
theorem run_terminated (calls : List ProcCall) :
    Along procStep StaysInside ProcModule.loaded calls ∧
      (run procStep ProcModule.loaded calls).procMsg.Terminated ∧
      (run procStep ProcModule.loaded calls).procMsg.strlen ≤ 255 := by
  have hlast := run_invariant lastByteZero_procStep lastByteZero_loaded calls
  refine ⟨?_, hlast.terminated, hlast.terminated.strlen_le⟩
  refine along_of_invariant (fun state call hstate _ ↦ lastByteZero_procStep state call hstate)
    (fun _ call hstate _ ↦ staysInside_of_lastByteZero hstate call) lastByteZero_loaded
    (along_of_forall (fun _ _ ↦ trivial) _ calls)

end KernelExperiments.ProcMessage
