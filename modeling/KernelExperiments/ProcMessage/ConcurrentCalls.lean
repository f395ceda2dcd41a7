import KernelExperiments.Foundation.Interleaving
import KernelExperiments.ProcMessage.Driver

/-!
# Concurrent calls on the proc file

Nothing in `exp3.1.c` keeps two calls apart: while one process copies a message into `PROC_MSG`,
another may measure, copy or log the one that is there. Here a call is a frame that goes one access
to memory at a time, and the frames of any number of processes take turns in any order. A read takes
`strlen(PROC_MSG)` three times, and the three may differ; a message may be read torn.

What survives is safety. No step of an accepted write stores anything but zero in the last byte of
the array, so every scan for the terminator, begun at any moment, ends inside the array. Whatever
the calls and their order, no access leaves the 256 bytes, no return value of a call is above 255,
and no byte is handed out that was not at its index in the first message or in one that was written,
except for zeros (`concurrentCalls_inside`).

## Scope

Copies go upwards. The variable `finished` is tested and assigned in separate steps.
-/

set_option autoImplicit false
set_option relaxedAutoImplicit false

namespace KernelExperiments.ProcMessage

open Foundation

/-! ### Calls in progress -/

/-- Where a call of `proc_write` is: at the check of the count, in `copy_from_user`, in the zeros
after its fault, at the terminator, or in the log message. -/
inductive WritePc
  | check
  | copy (index : ℕ)
  | fill (index : ℕ)
  | terminate
  | log (index : ℕ)

/-- Where a call of `proc_read` is: at the test of `finished` or one of the two assignments, in one
of the three `strlen(PROC_MSG)`, or in `copy_to_user` between the first and the second. -/
inductive ReadPc
  | test
  | clear
  | set
  | measure (index : ℕ)
  | copy (length index : ℕ)
  | advance (index : ℕ)
  | result (index : ℕ)

/-- A call in progress. A read has handed out some bytes and moves its file position. -/
inductive Frame
  | write (buffer : ℕ → UInt8) (count : ℕ) (pc : WritePc)
  | read (pc : ReadPc) (delivered : List UInt8) (pos : ℤ)

/-- What a call leaves to its caller. -/
structure Reply where
  ret : ℤ
  delivered : List UInt8
  pos : ℤ

/-- What a step does: to the memory from `PROC_MSG` on, to `finished` and to its call, which goes on
or returns; and the indices it touches. -/
structure Outcome where
  memory : ℕ → UInt8
  finished : Bool
  call : Frame ⊕ Reply
  touched : List ℕ

/-- A byte of a string is looked at: the string ends there or goes on. -/
def scan (memory : ℕ → UInt8) (finished : Bool) (index : ℕ) (found more : ℕ → Frame ⊕ Reply) :
    Outcome :=
  ⟨memory, finished, if memory index = 0 then found index else more (index + 1), [index]⟩

/-- A step of `proc_write`. -/
def procWriteStep (memory : ℕ → UInt8) (finished : Bool) (buffer : ℕ → UInt8) (count : ℕ) :
    WritePc → Outcome
  | .check =>
    ⟨memory, finished,
      if count > 256 - 1 then .inr ⟨einval, [], 0⟩ else .inl (.write buffer count (.copy 0)), []⟩
  | .copy index =>
    if index < count then
      ⟨Function.update memory index (buffer index), finished,
        .inl (.write buffer count (.copy (index + 1))), [index]⟩
    else ⟨memory, finished, .inl (.write buffer count .terminate), []⟩
  | .fill index =>
    if index < count then
      ⟨Function.update memory index 0, finished,
        .inl (.write buffer count (.fill (index + 1))), [index]⟩
    else ⟨memory, finished, .inr ⟨efault, [], 0⟩, []⟩
  | .terminate =>
    ⟨Function.update memory count 0, finished, .inl (.write buffer count (.log 0)), [count]⟩
  | .log index =>
    scan memory finished index (fun _ ↦ .inr ⟨count, [], 0⟩)
      fun index ↦ .inl (.write buffer count (.log index))

/-- A step of `proc_read`. -/
def procReadStep (memory : ℕ → UInt8) (finished : Bool) (delivered : List UInt8) (pos : ℤ) :
    ReadPc → Outcome
  | .test =>
    ⟨memory, finished, .inl (.read (if finished then .clear else .set) delivered pos), []⟩
  | .clear => ⟨memory, false, .inr ⟨0, delivered, pos⟩, []⟩
  | .set => ⟨memory, true, .inl (.read (.measure 0) delivered pos), []⟩
  | .measure index =>
    scan memory finished index (fun length ↦ .inl (.read (.copy length 0) delivered pos))
      fun index ↦ .inl (.read (.measure index) delivered pos)
  | .copy length index =>
    if index < length then
      ⟨memory, finished,
        .inl (.read (.copy length (index + 1)) (delivered ++ [memory index]) pos), [index]⟩
    else ⟨memory, finished, .inl (.read (.advance 0) delivered pos), []⟩
  | .advance index =>
    scan memory finished index (fun length ↦ .inl (.read (.result 0) delivered (pos + length)))
      fun index ↦ .inl (.read (.advance index) delivered pos)
  | .result index =>
    scan memory finished index (fun length ↦ .inr ⟨length, delivered, pos⟩)
      fun index ↦ .inl (.read (.result index) delivered pos)

/-- A step of a call. -/
def Frame.step (memory : ℕ → UInt8) (finished : Bool) : Frame → Outcome
  | .write buffer count pc => procWriteStep memory finished buffer count pc
  | .read pc delivered pos => procReadStep memory finished delivered pos pc

/-- The copy of a call faults at its next byte. Other steps do not fault. -/
def Frame.fault (memory : ℕ → UInt8) (finished zeroFill : Bool) : Frame → Option Outcome
  | .write buffer count (.copy index) =>
    if index < count then
      some ⟨memory, finished,
        if zeroFill then .inl (.write buffer count (.fill index)) else .inr ⟨efault, [], 0⟩, []⟩
    else none
  | .read (.copy length index) delivered pos =>
    if index < length then some ⟨memory, finished, .inr ⟨efault, delivered, pos⟩, []⟩ else none
  | _ => none

/-! ### Many calls -/

/-- The memory from `PROC_MSG` on, `finished`, the calls in progress, and what there has been: the
indices touched, the writes begun and the replies. -/
structure Shared (Process : Type*) where
  memory : ℕ → UInt8
  finished : Bool
  frames : Process → Option Frame
  touched : List ℕ
  begun : List ((ℕ → UInt8) × ℕ)
  replies : List (Process × Reply)

/-- A call begins, takes a step, or meets a fault of its copy. -/
inductive CallEvent (Process : Type*)
  | beginWrite (process : Process) (buffer : ℕ → UInt8) (count : ℕ)
  | beginRead (process : Process) (pos : ℤ)
  | step (process : Process)
  | fault (process : Process) (zeroFill : Bool)

variable {Process : Type*} [DecidableEq Process]

/-- The module as it is loaded, in front of some other memory. -/
def Shared.loaded (behind : ℕ → UInt8) : Shared Process where
  memory := fun index ↦ if index < 256 then helloWorld.getD index 0 else behind index
  finished := false
  frames := fun _ ↦ none
  touched := []
  begun := []
  replies := []

/-- A call of a process has taken a step. -/
def Shared.after (shared : Shared Process) (process : Process) (outcome : Outcome) :
    Shared Process where
  memory := outcome.memory
  finished := outcome.finished
  frames := Function.update shared.frames process outcome.call.getLeft?
  touched := shared.touched ++ outcome.touched
  begun := shared.begun
  replies := shared.replies ++ (outcome.call.getRight?.map fun reply ↦ (process, reply)).toList

/-- One event. A process that is in a call begins no other, and one that is in none takes no
step. -/
def sharedStep (shared : Shared Process) : CallEvent Process → Shared Process
  | .beginWrite process buffer count =>
    if (shared.frames process).isSome then shared
    else
      { shared with
        frames := Function.update shared.frames process (some (.write buffer count .check))
        begun := shared.begun ++ [(buffer, count)] }
  | .beginRead process pos =>
    if (shared.frames process).isSome then shared
    else
      { shared with
        frames := Function.update shared.frames process (some (.read .test [] pos)) }
  | .step process =>
    match shared.frames process with
    | none => shared
    | some frame => shared.after process (frame.step shared.memory shared.finished)
  | .fault process zeroFill =>
    match (shared.frames process).bind (Frame.fault shared.memory shared.finished zeroFill) with
    | none => shared
    | some outcome => shared.after process outcome

/-! ### What is safe -/

/-- The byte was at the index in the first message or in one that was written, or it is zero. -/
def Source (begun : List ((ℕ → UInt8) × ℕ)) (index : ℕ) (byte : UInt8) : Prop :=
  byte = 0 ∨ byte = helloWorld.getD index 0 ∨
    ∃ write ∈ begun, index < write.2 ∧ byte = write.1 index

/-- The bytes of a message have sources, each at its index. -/
def SafeBytes (begun : List ((ℕ → UInt8) × ℕ)) (bytes : List UInt8) : Prop :=
  ∀ index byte, bytes[index]? = some byte → Source begun index byte

/-- The array ends in a zero and holds bytes that have sources; the memory behind it is as it
was. -/
structure SafeMemory (behind : ℕ → UInt8) (begun : List ((ℕ → UInt8) × ℕ)) (memory : ℕ → UInt8) :
    Prop where
  last_eq : memory 255 = 0
  behind_eq : ∀ index, 256 ≤ index → memory index = behind index
  source : ∀ index < 256, Source begun index (memory index)

/-- Behind the check of a write its count is below the length of the array. -/
def WritePc.Safe (count : ℕ) : WritePc → Prop
  | .check => True
  | .copy _ | .fill _ | .terminate => count ≤ 255
  | .log index => count ≤ 255 ∧ index ≤ 255

/-- A scan of a read is inside the array, and so is its copy, which has handed out what it has
gone over. -/
def ReadPc.Safe (delivered : List UInt8) : ReadPc → Prop
  | .test | .clear | .set => delivered = []
  | .measure index => delivered = [] ∧ index ≤ 255
  | .copy length index => delivered.length = index ∧ index ≤ length ∧ length ≤ 255
  | .advance index | .result index => delivered.length ≤ 255 ∧ index ≤ 255

/-- A call in progress does no harm. -/
def SafeFrame (begun : List ((ℕ → UInt8) × ℕ)) : Frame → Prop
  | .write buffer count pc => (buffer, count) ∈ begun ∧ pc.Safe count
  | .read pc delivered _ => pc.Safe delivered ∧ SafeBytes begun delivered

/-- A call has failed or returned a length, and handed out a message. -/
structure SafeReply (begun : List ((ℕ → UInt8) × ℕ)) (reply : Reply) : Prop where
  ret : reply.ret = einval ∨ reply.ret = efault ∨ 0 ≤ reply.ret ∧ reply.ret ≤ 255
  length_le : reply.delivered.length ≤ 255
  source : SafeBytes begun reply.delivered

/-- A step stays inside the array and keeps what is safe. -/
structure SafeOutcome (behind : ℕ → UInt8) (begun : List ((ℕ → UInt8) × ℕ)) (outcome : Outcome) :
    Prop where
  memory : SafeMemory behind begun outcome.memory
  frame : ∀ frame, outcome.call = .inl frame → SafeFrame begun frame
  reply : ∀ reply, outcome.call = .inr reply → SafeReply begun reply
  touched : ∀ index ∈ outcome.touched, index < 256

variable {behind memory : ℕ → UInt8} {begun : List ((ℕ → UInt8) × ℕ)} {finished : Bool}

theorem safeBytes_nil : SafeBytes begun [] := nofun

/-- A safe message grows by a byte that has a source. -/
theorem SafeBytes.concat {bytes : List UInt8} (hbytes : SafeBytes begun bytes) {byte : UInt8}
    (hbyte : Source begun bytes.length byte) : SafeBytes begun (bytes ++ [byte]) := by
  intro index found hfound
  rcases Nat.lt_or_ge index bytes.length with hold | hnew
  · rw [List.getElem?_append_left hold] at hfound
    exact hbytes index found hfound
  · rw [List.getElem?_append_right hnew, List.getElem?_singleton] at hfound
    split at hfound
    · have hsame : index = bytes.length := by omega
      rwa [hsame, ← Option.some.inj hfound]
    · cases hfound

/-- A store inside the array that leaves a zero at its end. -/
theorem SafeMemory.update (hmemory : SafeMemory behind begun memory) {index : ℕ} {byte : UInt8}
    (hindex : index ≤ 255) (hlast : index = 255 → byte = 0) (hbyte : Source begun index byte) :
    SafeMemory behind begun (Function.update memory index byte) where
  last_eq := by
    rw [Function.update_apply]
    split
    · rename_i hsame
      exact hlast hsame.symm
    · exact hmemory.last_eq
  behind_eq := fun other hother ↦ by
    rw [Function.update_of_ne (by omega)]
    exact hmemory.behind_eq other hother
  source := fun other hother ↦ by
    rw [Function.update_apply]
    split
    · rename_i hsame
      rwa [hsame]
    · exact hmemory.source other hother

/-- A step of a write that goes on. -/
theorem safeOutcome_write (hmemory : SafeMemory behind begun memory) {buffer : ℕ → UInt8}
    {count : ℕ} (hbegun : (buffer, count) ∈ begun) {pc : WritePc} (hpc : pc.Safe count)
    {touched : List ℕ} (htouched : ∀ index ∈ touched, index < 256) :
    SafeOutcome behind begun ⟨memory, finished, .inl (.write buffer count pc), touched⟩ :=
  ⟨hmemory, fun _ hsame ↦ Sum.inl.inj hsame ▸ ⟨hbegun, hpc⟩, nofun, htouched⟩

/-- A step of a read that goes on. -/
theorem safeOutcome_read (hmemory : SafeMemory behind begun memory) {delivered : List UInt8}
    {pos : ℤ}
    (hdelivered : SafeBytes begun delivered) {pc : ReadPc} (hpc : pc.Safe delivered)
    {touched : List ℕ} (htouched : ∀ index ∈ touched, index < 256) :
    SafeOutcome behind begun ⟨memory, finished, .inl (.read pc delivered pos), touched⟩ :=
  ⟨hmemory, fun _ hsame ↦ Sum.inl.inj hsame ▸ ⟨hpc, hdelivered⟩, nofun, htouched⟩

/-- A step that returns. -/
theorem safeOutcome_inr (hmemory : SafeMemory behind begun memory) {reply : Reply}
    (hreply : SafeReply begun reply) {touched : List ℕ}
    (htouched : ∀ index ∈ touched, index < 256) :
    SafeOutcome behind begun ⟨memory, finished, .inr reply, touched⟩ :=
  ⟨hmemory, nofun, fun _ hsame ↦ Sum.inr.inj hsame ▸ hreply, htouched⟩

/-- A scan does not go past the last byte of the array, which is zero. -/
theorem scan_safe (hmemory : SafeMemory behind begun memory) {index : ℕ} (hindex : index ≤ 255)
    {found more : ℕ → Frame ⊕ Reply}
    (hfound : SafeOutcome behind begun ⟨memory, finished, found index, [index]⟩)
    (hmore : index + 1 ≤ 255 →
      SafeOutcome behind begun ⟨memory, finished, more (index + 1), [index]⟩) :
    SafeOutcome behind begun (scan memory finished index found more) := by
  unfold scan
  split
  · exact hfound
  · rename_i hgoes
    have hne : index ≠ 255 := fun hsame ↦ hgoes (hsame ▸ hmemory.last_eq)
    exact hmore (by omega)

/-! ### Every step is safe -/

theorem safeReply_error (begun : List ((ℕ → UInt8) × ℕ)) {code : ℤ}
    (hcode : code = einval ∨ code = efault) : SafeReply begun ⟨code, [], 0⟩ :=
  ⟨hcode.imp_right Or.inl, Nat.zero_le _, safeBytes_nil⟩

/-- A length that is returned. -/
theorem safeReply_length {delivered : List UInt8} (hdelivered : SafeBytes begun delivered)
    (hlength : delivered.length ≤ 255) {ret : ℕ} (hret : ret ≤ 255) (pos : ℤ) :
    SafeReply begun ⟨ret, delivered, pos⟩ :=
  ⟨Or.inr (Or.inr ⟨Int.natCast_nonneg ret, Int.ofNat_le.mpr hret⟩), hlength, hdelivered⟩

theorem touched_singleton {index : ℕ} (hindex : index ≤ 255) : ∀ other ∈ [index], other < 256 := by
  intro other hother
  rw [List.mem_singleton.mp hother]
  omega

/-- A step of a write is safe. -/
theorem procWriteStep_safe (hmemory : SafeMemory behind begun memory) {buffer : ℕ → UInt8}
    {count : ℕ} (hbegun : (buffer, count) ∈ begun) {pc : WritePc} (hpc : pc.Safe count) :
    SafeOutcome behind begun (procWriteStep memory finished buffer count pc) := by
  cases pc with
  | check =>
    rw [procWriteStep]
    split
    · exact safeOutcome_inr hmemory (safeReply_error begun (Or.inl rfl)) (List.forall_mem_nil _)
    · rename_i hcount
      have hnext : (WritePc.copy 0).Safe count := Nat.not_lt.mp hcount
      exact safeOutcome_write hmemory hbegun hnext (List.forall_mem_nil _)
  | copy index =>
    have hcount : count ≤ 255 := hpc
    rw [procWriteStep]
    split
    · rename_i hindex
      have hsource : Source begun index (buffer index) :=
        Or.inr (Or.inr ⟨(buffer, count), hbegun, hindex, rfl⟩)
      have hstored := hmemory.update (by omega) (fun hsame ↦ by omega) hsource
      have hnext : (WritePc.copy (index + 1)).Safe count := hcount
      exact safeOutcome_write hstored hbegun hnext (touched_singleton (by omega))
    · have hnext : WritePc.terminate.Safe count := hcount
      exact safeOutcome_write hmemory hbegun hnext (List.forall_mem_nil _)
  | fill index =>
    have hcount : count ≤ 255 := hpc
    rw [procWriteStep]
    split
    · rename_i hindex
      have hstored := @SafeMemory.update behind memory begun hmemory index 0 (by omega)
        (fun _ ↦ rfl) (Or.inl rfl)
      have hnext : (WritePc.fill (index + 1)).Safe count := hcount
      exact safeOutcome_write hstored hbegun hnext (touched_singleton (by omega))
    · exact safeOutcome_inr hmemory (safeReply_error begun (Or.inr rfl)) (List.forall_mem_nil _)
  | terminate =>
    have hcount : count ≤ 255 := hpc
    have hstored := @SafeMemory.update behind memory begun hmemory count 0 hcount
      (fun _ ↦ rfl) (Or.inl rfl)
    have hlog : (WritePc.log 0).Safe count := ⟨hcount, Nat.zero_le _⟩
    exact safeOutcome_write hstored hbegun hlog (touched_singleton hcount)
  | log index =>
    obtain ⟨hcount, hindex⟩ := hpc
    have hreply := safeReply_length (@safeBytes_nil begun) (Nat.zero_le _) hcount 0
    rw [procWriteStep]
    refine scan_safe hmemory hindex ?_ fun hmore ↦ ?_
    · exact safeOutcome_inr hmemory hreply (touched_singleton hindex)
    · have hlog : (WritePc.log (index + 1)).Safe count := ⟨hcount, hmore⟩
      exact safeOutcome_write hmemory hbegun hlog (touched_singleton hindex)

/-- A step of a read is safe. -/
theorem procReadStep_safe (hmemory : SafeMemory behind begun memory) {delivered : List UInt8}
    (pos : ℤ) (hdelivered : SafeBytes begun delivered) {pc : ReadPc} (hpc : pc.Safe delivered) :
    SafeOutcome behind begun (procReadStep memory finished delivered pos pc) := by
  cases pc with
  | test =>
    have hnil : delivered = [] := hpc
    have hnext : (if finished then ReadPc.clear else .set).Safe delivered := by
      split <;> exact hnil
    exact safeOutcome_read hmemory hdelivered hnext (List.forall_mem_nil _)
  | clear =>
    have hnil : delivered = [] := hpc
    have hlength : delivered.length ≤ 255 := by rw [hnil]; exact Nat.zero_le _
    have hreply := safeReply_length hdelivered hlength (Nat.zero_le 255) pos
    exact safeOutcome_inr hmemory hreply (List.forall_mem_nil _)
  | set =>
    have hnext : (ReadPc.measure 0).Safe delivered := ⟨hpc, Nat.zero_le _⟩
    exact safeOutcome_read hmemory hdelivered hnext (List.forall_mem_nil _)
  | measure index =>
    obtain ⟨hnil, hindex⟩ := hpc
    have hcopy : (ReadPc.copy index 0).Safe delivered := by
      rw [hnil]
      exact ⟨rfl, Nat.zero_le _, hindex⟩
    rw [procReadStep]
    refine scan_safe hmemory hindex ?_ fun hmore ↦ ?_
    · exact safeOutcome_read hmemory hdelivered hcopy (touched_singleton hindex)
    · have hnext : (ReadPc.measure (index + 1)).Safe delivered := ⟨hnil, hmore⟩
      exact safeOutcome_read hmemory hdelivered hnext (touched_singleton hindex)
  | copy length index =>
    obtain ⟨hlength, hle, hshort⟩ := hpc
    rw [procReadStep]
    split
    · rename_i hindex
      have hgrown : SafeBytes begun (delivered ++ [memory index]) := by
        refine hdelivered.concat ?_
        rw [hlength]
        exact hmemory.source index (by omega)
      have hnext : (ReadPc.copy length (index + 1)).Safe (delivered ++ [memory index]) := by
        refine ⟨?_, hindex, hshort⟩
        rw [List.length_append, hlength, List.length_singleton]
      exact safeOutcome_read hmemory hgrown hnext (touched_singleton (by omega))
    · have hnext : (ReadPc.advance 0).Safe delivered := ⟨by omega, Nat.zero_le _⟩
      exact safeOutcome_read hmemory hdelivered hnext (List.forall_mem_nil _)
  | advance index =>
    obtain ⟨hlength, hindex⟩ := hpc
    have hresult : (ReadPc.result 0).Safe delivered := ⟨hlength, Nat.zero_le _⟩
    rw [procReadStep]
    refine scan_safe hmemory hindex ?_ fun hmore ↦ ?_
    · exact safeOutcome_read hmemory hdelivered hresult (touched_singleton hindex)
    · have hnext : (ReadPc.advance (index + 1)).Safe delivered := ⟨hlength, hmore⟩
      exact safeOutcome_read hmemory hdelivered hnext (touched_singleton hindex)
  | result index =>
    obtain ⟨hlength, hindex⟩ := hpc
    have hreply := safeReply_length hdelivered hlength hindex pos
    rw [procReadStep]
    refine scan_safe hmemory hindex ?_ fun hmore ↦ ?_
    · exact safeOutcome_inr hmemory hreply (touched_singleton hindex)
    · have hnext : (ReadPc.result (index + 1)).Safe delivered := ⟨hlength, hmore⟩
      exact safeOutcome_read hmemory hdelivered hnext (touched_singleton hindex)

/-- A step of a call in progress is safe. -/
theorem SafeFrame.step {frame : Frame} (hframe : SafeFrame begun frame)
    (hmemory : SafeMemory behind begun memory) :
    SafeOutcome behind begun (frame.step memory finished) := by
  cases frame with
  | write buffer count pc => exact procWriteStep_safe hmemory hframe.1 hframe.2
  | read pc delivered pos => exact procReadStep_safe hmemory pos hframe.2 hframe.1

/-- A fault in a copy is safe. -/
theorem SafeFrame.fault {frame : Frame} (hframe : SafeFrame begun frame)
    (hmemory : SafeMemory behind begun memory) {zeroFill : Bool} {outcome : Outcome}
    (hfault : frame.fault memory finished zeroFill = some outcome) :
    SafeOutcome behind begun outcome := by
  unfold Frame.fault at hfault
  split at hfault
  · split at hfault
    · cases hfault
      rename_i count index hindex
      obtain ⟨hbegun, hcount⟩ := hframe
      split
      · have hnext : (WritePc.fill index).Safe count := hcount
        exact safeOutcome_write hmemory hbegun hnext (List.forall_mem_nil _)
      · exact safeOutcome_inr hmemory (safeReply_error begun (Or.inr rfl)) (List.forall_mem_nil _)
    · cases hfault
  · split at hfault
    · cases hfault
      obtain ⟨⟨hlength, hle, hshort⟩, hdelivered⟩ := hframe
      refine safeOutcome_inr hmemory ⟨Or.inr (Or.inl rfl), ?_, hdelivered⟩ (List.forall_mem_nil _)
      dsimp only
      omega
    · cases hfault
  · cases hfault

/-! ### Every run is safe -/

/-- The memory, the calls in progress and the replies are safe, and nothing outside the array has
been touched. -/
structure SafeShared (behind : ℕ → UInt8) (shared : Shared Process) : Prop where
  memory : SafeMemory behind shared.begun shared.memory
  frames : ∀ process frame, shared.frames process = some frame → SafeFrame shared.begun frame
  touched : ∀ index ∈ shared.touched, index < 256
  replies : ∀ reply ∈ shared.replies, SafeReply shared.begun reply.2

variable {shared : Shared Process} {process : Process}

/-- A source is one still when another write has begun. -/
theorem Source.concat {index : ℕ} {byte : UInt8} (hsource : Source begun index byte)
    (write : (ℕ → UInt8) × ℕ) : Source (begun ++ [write]) index byte :=
  hsource.imp_right <| Or.imp_right fun ⟨earlier, hearlier, hbyte⟩ ↦
    ⟨earlier, List.mem_append_left _ hearlier, hbyte⟩

theorem SafeBytes.begin {bytes : List UInt8} (hbytes : SafeBytes begun bytes)
    (write : (ℕ → UInt8) × ℕ) : SafeBytes (begun ++ [write]) bytes :=
  fun index byte hbyte ↦ (hbytes index byte hbyte).concat write

theorem SafeFrame.begin {frame : Frame} (hframe : SafeFrame begun frame)
    (write : (ℕ → UInt8) × ℕ) : SafeFrame (begun ++ [write]) frame := by
  cases frame with
  | write buffer count pc => exact ⟨List.mem_append_left _ hframe.1, hframe.2⟩
  | read pc delivered pos => exact ⟨hframe.1, hframe.2.begin write⟩

/-- The calls in progress after one of them has moved on or ended. -/
theorem safeFrames_update {frames : Process → Option Frame}
    (hframes : ∀ process frame, frames process = some frame → SafeFrame begun frame)
    (process : Process) {moved : Option Frame}
    (hmoved : ∀ frame, moved = some frame → SafeFrame begun frame) :
    ∀ other frame, Function.update frames process moved other = some frame →
      SafeFrame begun frame :=
  forall_update frames process moved
    (fun _ found ↦ ∀ frame, found = some frame → SafeFrame begun frame) hmoved
    fun other _ ↦ hframes other

/-- A write begins. -/
theorem SafeShared.beginWrite (hsafe : SafeShared behind shared) (process : Process)
    (buffer : ℕ → UInt8) (count : ℕ) :
    SafeShared behind (sharedStep shared (.beginWrite process buffer count)) := by
  rw [sharedStep]
  split
  · exact hsafe
  · refine ⟨⟨hsafe.memory.last_eq, hsafe.memory.behind_eq, ?_⟩, ?_, hsafe.touched, ?_⟩
    · exact fun index hindex ↦ (hsafe.memory.source index hindex).concat _
    · refine safeFrames_update
        (fun other frame hframe ↦ (hsafe.frames other frame hframe).begin _) process ?_
      rintro frame ⟨⟩
      exact ⟨List.mem_append_right _ (List.mem_singleton.mpr rfl), trivial⟩
    · intro reply hreply
      obtain ⟨hret, hlength, hsource⟩ := hsafe.replies reply hreply
      exact ⟨hret, hlength, hsource.begin _⟩

/-- A call takes a step. -/
theorem SafeShared.after (hsafe : SafeShared behind shared) (process : Process) {outcome : Outcome}
    (houtcome : SafeOutcome behind shared.begun outcome) :
    SafeShared behind (shared.after process outcome) := by
  refine ⟨houtcome.memory, safeFrames_update hsafe.frames process fun frame hframe ↦
    houtcome.frame frame (Sum.getLeft?_eq_some_iff.mp hframe), ?_, ?_⟩
  · intro index hindex
    rcases List.mem_append.mp hindex with hold | hnew
    · exact hsafe.touched index hold
    · exact houtcome.touched index hnew
  · intro reply hreply
    rcases List.mem_append.mp hreply with hold | hnew
    · exact hsafe.replies reply hold
    · obtain ⟨found, hfound, rfl⟩ := Option.map_eq_some_iff.mp (Option.mem_toList.mp hnew)
      exact houtcome.reply found (Sum.getRight?_eq_some_iff.mp hfound)

/-- Every event keeps the module safe. -/
theorem sharedStep_safe (shared : Shared Process) (event : CallEvent Process)
    (hsafe : SafeShared behind shared) : SafeShared behind (sharedStep shared event) := by
  cases event with
  | beginWrite process buffer count => exact hsafe.beginWrite process buffer count
  | beginRead process pos =>
    rw [sharedStep]
    split
    · exact hsafe
    · refine ⟨hsafe.memory, safeFrames_update hsafe.frames process ?_, hsafe.touched, hsafe.replies⟩
      rintro frame ⟨⟩
      exact ⟨rfl, safeBytes_nil⟩
  | step process =>
    rw [sharedStep]
    cases hframe : shared.frames process with
    | none => exact hsafe
    | some frame =>
      exact hsafe.after process ((hsafe.frames process frame hframe).step hsafe.memory)
  | fault process zeroFill =>
    rw [sharedStep]
    split
    · exact hsafe
    · rename_i outcome hfault
      obtain ⟨frame, hframe, hoften⟩ := Option.bind_eq_some_iff.mp hfault
      exact hsafe.after process ((hsafe.frames process frame hframe).fault hsafe.memory hoften)

omit [DecidableEq Process] in
theorem safeShared_loaded (behind : ℕ → UInt8) :
    SafeShared behind (Shared.loaded behind : Shared Process) where
  memory :=
    { last_eq := rfl
      behind_eq := fun _ hindex ↦ if_neg (Nat.not_lt.mpr hindex)
      source := fun _ hindex ↦ Or.inr (Or.inl (if_pos hindex)) }
  frames := nofun
  touched := nofun
  replies := nofun

/-- Whatever calls any number of processes make, with any counts, contents and faults, and in
whatever order their accesses to memory come: no access leaves the array, the memory behind it is
untouched, the array ends in a zero, and every call has failed or returned at most 255 and handed
out at most 255 bytes, each from its place in a message. -/
theorem concurrentCalls_inside (behind : ℕ → UInt8) (events : List (CallEvent Process)) :
    let final := run sharedStep (Shared.loaded behind) events
    (∀ index ∈ final.touched, index < 256) ∧
      (∀ index, 256 ≤ index → final.memory index = behind index) ∧ final.memory 255 = 0 ∧
      ∀ reply ∈ final.replies, SafeReply final.begun reply.2 := by
  have hsafe := run_invariant sharedStep_safe (safeShared_loaded behind) events
  exact ⟨hsafe.touched, hsafe.memory.behind_eq, hsafe.memory.last_eq, hsafe.replies⟩

/-- One process reads the first message; when it has copied the 14 bytes and moved its position,
another stores a message of one byte, and the third `strlen` gives 1. -/
theorem tornRead_inside :
    let message : ℕ → UInt8 := fun _ ↦ 65
    let final := run sharedStep (Shared.loaded fun _ ↦ 255)
      ([.beginRead 1 0] ++ List.replicate 47 (.step 1) ++ [.beginWrite 2 message 1] ++
        List.replicate 4 (.step 2) ++ List.replicate 2 (.step 1))
    ((∀ index ∈ final.touched, index < 256) ∧
      (∀ index, 256 ≤ index → final.memory index = 255) ∧ final.memory 255 = 0 ∧
      ∀ reply ∈ final.replies, SafeReply final.begun reply.2) ∧
      final.replies.map (fun reply ↦ (reply.1, reply.2.ret, reply.2.delivered)) =
        [(1, 1, helloWorld)] :=
  ⟨concurrentCalls_inside _ _, by decide +kernel⟩

end KernelExperiments.ProcMessage
