import KernelExperiments.Foundation.Runs
import KernelExperiments.Myfs.FileOperations

/-!
# The stream of bytes behind the files

Reads and writes, one at a time and with user copies that may fault, move bytes into and out of
`mydemo_fifo`. `StreamLaw` says that no byte is lost and none comes twice: what the reads reported
to their callers is a prefix of what was queued at first and what the writes reported as accepted,
and a call that returns `-EIO` leaves the queue as it was.

A call whose user copy faults after some bytes have been moved (`StreamCall.CutShort`) returns
`-EIO` and reports none of them, but the kfifo keeps them moved: a write has put them in, and a read
has thrown them away. The law holds in exactly the runs without such a call (`streamLaw_iff`); a
fault at the first byte does no harm, for nothing is moved then.
-/

set_option autoImplicit false
set_option relaxedAutoImplicit false

namespace KernelExperiments.Myfs

open Foundation

/-! ### Calls and what they report -/

/-- A call of `myfs_file_write` or `myfs_file_read`, and the fault of its user copy, if any. -/
inductive StreamCall
  | write (data : List UInt8) (fault : Option ℕ)
  | read (count : ℕ) (fault : Option ℕ)

/-- What the call returns and leaves. -/
def StreamCall.result (fifo : Kfifo) : StreamCall → TransferResult
  | .write data fault => myfsFileWrite fifo data fault
  | .read count fault => myfsFileRead fifo count fault

/-- The queue after a call. -/
def streamStep (fifo : Kfifo) (call : StreamCall) : Kfifo := (call.result fifo).fifo

/-- The bytes that a write reported as accepted. -/
def acceptedBytes (fifo : Kfifo) (call : StreamCall) : List UInt8 :=
  match call with
  | .write data _ => data.take (call.result fifo).ret.toNat
  | .read _ _ => []

/-- The bytes that a read reported to its caller. -/
def deliveredBytes (fifo : Kfifo) (call : StreamCall) : List UInt8 :=
  match call with
  | .write _ _ => []
  | .read _ _ => (call.result fifo).buffer.take (call.result fifo).ret.toNat

/-- The number of bytes that the kfifo sets out to move. -/
def StreamCall.length (fifo : Kfifo) : StreamCall → ℕ
  | .write data _ => min data.length fifo.room
  | .read count _ => min count fifo.used

/-- The fault of the user copy. -/
def StreamCall.fault : StreamCall → Option ℕ
  | .write _ fault => fault
  | .read _ fault => fault

/-- The number of bytes that are moved. -/
def StreamCall.moved (fifo : Kfifo) (call : StreamCall) : ℕ := copied (call.length fifo) call.fault

/-- The user copy faults behind the first byte and before the last one of those to be moved. -/
def StreamCall.CutShort (fifo : Kfifo) (call : StreamCall) : Prop :=
  ∃ position, call.fault = some position ∧ 0 < position ∧ position < call.length fifo

/-- No byte of the stream is lost or comes twice in a run. -/
structure StreamLaw (fifo : Kfifo) (calls : List StreamCall) : Prop where
  delivered_prefix : (outputs streamStep deliveredBytes fifo calls).flatten <+:
    fifo.contents ++ (outputs streamStep acceptedBytes fifo calls).flatten
  eio_unchanged : Along streamStep
    (fun fifo call ↦ (call.result fifo).ret = eio → (streamStep fifo call).contents = fifo.contents)
    fifo calls

/-! ### What one call does -/

/-- A call fails when its user copy faults, and returns the number of bytes moved otherwise. -/
theorem StreamCall.result_ret (fifo : Kfifo) (call : StreamCall) :
    (call.result fifo).ret =
      if Faults (call.length fifo) call.fault then eio else (call.moved fifo : ℤ) := by
  cases call with
  | write data fault =>
    by_cases hfault : Faults (min data.length fifo.room) fault
    · simp [StreamCall.result, myfsFileWrite, kfifoFromUser, StreamCall.length, StreamCall.fault,
        hfault, efault]
    · simp [StreamCall.result, myfsFileWrite, kfifoFromUser, StreamCall.length, StreamCall.fault,
        StreamCall.moved, hfault]
  | read count fault =>
    by_cases hfault : Faults (min count fifo.used) fault
    · simp [StreamCall.result, myfsFileRead, kfifoToUser, StreamCall.length, StreamCall.fault,
        hfault, efault]
    · simp [StreamCall.result, myfsFileRead, kfifoToUser, StreamCall.length, StreamCall.fault,
        StreamCall.moved, hfault]

/-- A write puts in the bytes it moves, whatever it returns. -/
theorem contents_streamStep_write (fifo : Kfifo) (data : List UInt8) (fault : Option ℕ) :
    (streamStep fifo (.write data fault)).contents =
      fifo.contents ++ data.take (StreamCall.moved fifo (.write data fault)) := by
  have hfifo : streamStep fifo (.write data fault) =
      fifo.enqueue (data.take (StreamCall.moved fifo (.write data fault))) := by
    simp only [streamStep, StreamCall.result, myfsFileWrite]
    split_ifs <;> rfl
  have hmoved : StreamCall.moved fifo (.write data fault) ≤ fifo.room :=
    Nat.le_trans (copied_le _ _) (Nat.min_le_right _ _)
  rw [hfifo, Fifo.contents_enqueue, List.take_take, Nat.min_eq_right hmoved]

/-- A read takes out the bytes it moves, whatever it returns, and they are in the user buffer. -/
theorem contents_streamStep_read (fifo : Kfifo) (count : ℕ) (fault : Option ℕ) :
    (StreamCall.result fifo (.read count fault)).buffer =
        fifo.contents.take (StreamCall.moved fifo (.read count fault)) ∧
      (streamStep fifo (.read count fault)).contents =
        fifo.contents.drop (StreamCall.moved fifo (.read count fault)) := by
  have hresult : (StreamCall.result fifo (.read count fault)).buffer =
        fifo.front (StreamCall.moved fifo (.read count fault)) ∧
      streamStep fifo (.read count fault) =
        fifo.dequeue (StreamCall.moved fifo (.read count fault)) := by
    simp only [streamStep, StreamCall.result, myfsFileRead]
    split_ifs
    · exact ⟨rfl, rfl⟩
    · exact ⟨rfl, rfl⟩
  exact ⟨hresult.1.trans (Fifo.front_eq _ _), by rw [hresult.2, Fifo.contents_dequeue]⟩

/-- A call is cut short when its user copy faults and some bytes are moved. -/
theorem StreamCall.cutShort_iff (fifo : Kfifo) (call : StreamCall) :
    call.CutShort fifo ↔ Faults (call.length fifo) call.fault ∧ 0 < call.moved fifo := by
  unfold StreamCall.CutShort StreamCall.moved Faults
  cases hfault : call.fault with
  | none => simp [copied]
  | some position =>
    simp only [copied, Option.some.injEq, exists_eq_left']
    omega

/-- A call that is not cut short reports all the bytes that it moves. -/
theorem StreamCall.toNat_ret (fifo : Kfifo) {call : StreamCall} (hwhole : ¬ call.CutShort fifo) :
    (call.result fifo).ret.toNat = call.moved fifo := by
  rw [call.result_ret]
  by_cases hfault : Faults (call.length fifo) call.fault
  · have hmoved : call.moved fifo = 0 :=
      Nat.eq_zero_of_not_pos fun hpos ↦ hwhole ((call.cutShort_iff fifo).mpr ⟨hfault, hpos⟩)
    rw [if_pos hfault, hmoved]
    rfl
  · rw [if_neg hfault, Int.toNat_natCast]

/-- A call that is not cut short takes in and gives out exactly what it reports. -/
theorem deliveredBytes_append_contents {fifo : Kfifo} {call : StreamCall}
    (hwhole : ¬ call.CutShort fifo) :
    deliveredBytes fifo call ++ (streamStep fifo call).contents =
      fifo.contents ++ acceptedBytes fifo call := by
  have hret := StreamCall.toNat_ret fifo hwhole
  cases call with
  | write data fault =>
    rw [contents_streamStep_write, deliveredBytes, acceptedBytes, hret, List.nil_append]
  | read count fault =>
    obtain ⟨hbuffer, hcontents⟩ := contents_streamStep_read fifo count fault
    rw [deliveredBytes, acceptedBytes, hret, hbuffer, hcontents, List.take_take, Nat.min_self,
      List.take_append_drop, List.append_nil]

/-- The number of bytes queued changes by the number of bytes moved. -/
theorem contents_streamStep_ne {fifo : Kfifo} {call : StreamCall} (hmoved : 0 < call.moved fifo) :
    (streamStep fifo call).contents ≠ fifo.contents := by
  intro hcontents
  have hlength := congrArg List.length hcontents
  have hle : call.moved fifo ≤ call.length fifo := copied_le _ _
  cases call with
  | write data fault =>
    have hdata : StreamCall.length fifo (.write data fault) ≤ data.length := Nat.min_le_left _ _
    rw [contents_streamStep_write, List.length_append, List.length_take] at hlength
    omega
  | read count fault =>
    have hused : StreamCall.length fifo (.read count fault) ≤ fifo.used := Nat.min_le_right _ _
    rw [(contents_streamStep_read fifo count fault).2, List.length_drop, Fifo.length_contents]
      at hlength
    omega

/-- A call keeps to the rule on `-EIO` exactly when it is not cut short. -/
theorem eio_unchanged_iff (fifo : Kfifo) (call : StreamCall) :
    ((call.result fifo).ret = eio → (streamStep fifo call).contents = fifo.contents) ↔
      ¬ call.CutShort fifo := by
  constructor
  · intro hunchanged hcut
    obtain ⟨hfault, hmoved⟩ := (call.cutShort_iff fifo).mp hcut
    refine contents_streamStep_ne hmoved (hunchanged ?_)
    rw [call.result_ret, if_pos hfault]
  · intro hwhole hret
    have hmoved : call.moved fifo = 0 := by
      rw [← call.toNat_ret fifo hwhole, hret]
      rfl
    cases call with
    | write data fault =>
      rw [contents_streamStep_write, hmoved, List.take_zero, List.append_nil]
    | read count fault =>
      rw [(contents_streamStep_read fifo count fault).2, hmoved, List.drop_zero]

/-! ### Exactly when the stream is kept -/

/-- No byte is lost or comes twice in a run, and every call that returns `-EIO` leaves the queue as
it was, exactly when no user copy of the run faults after some bytes have been moved. -/
theorem streamLaw_iff (fifo : Kfifo) (calls : List StreamCall) :
    StreamLaw fifo calls ↔
      Along streamStep (fun fifo call ↦ ¬ call.CutShort fifo) fifo calls := by
  constructor
  · intro hlaw
    exact hlaw.eio_unchanged.mono fun fifo call ↦ (eio_unchanged_iff fifo call).mp
  · intro hwhole
    refine ⟨?_, hwhole.mono fun fifo call ↦ (eio_unchanged_iff fifo call).mpr⟩
    have hconserved := outputs_conservation Fifo.contents
      (fun fifo call hcall ↦ deliveredBytes_append_contents hcall) hwhole
    exact ⟨_, hconserved⟩

/-- A write of two bytes whose user copy faults at the second one, and a read. -/
def faultingWrite : List StreamCall := [.write [97, 98] (some 1), .read 1 none]

/-- The write fails, and the read then delivers a byte of it. -/
theorem not_streamLaw_faultingWrite : ¬ StreamLaw (Fifo.empty 64 0) faultingWrite := by
  intro hlaw
  have hprefix := hlaw.delivered_prefix
  revert hprefix
  decide +kernel

end KernelExperiments.Myfs
