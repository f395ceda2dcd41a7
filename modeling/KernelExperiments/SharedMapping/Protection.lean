import KernelExperiments.SharedMapping.AddressSpace
import Mathlib.Logic.Function.Basic

/-!
# Writable mappings of the device are to be shared

`mapdrv_mmap` rejects a mapping that is writable and not shared. The flags of a mapping change later
on: `mprotect` adds `VM_WRITE` to a vma that has `VM_MAYWRITE`, and the kernel sets `VM_MAYWRITE` on
a private mapping before it calls the driver. `WritableShared` says that no vma over the device, in
any process, is both writable and not shared.

The driver leaves `VM_MAYWRITE` as it finds it. Let processes map the device as they will, and call
`mprotect` and `munmap` between and after the mappings: the law holds in every state of all these
runs if and only if every mapping that the driver accepted is shared or lacks `VM_MAYWRITE`
(`writableShared_iff`). A private read-only mapping is accepted and has it.
-/

set_option autoImplicit false
set_option relaxedAutoImplicit false

namespace KernelExperiments.SharedMapping

open Foundation

variable {w : ℕ}

/-! ### Flags as bits -/

/-- `VM_MAYWRITE`. -/
def vmMaywrite (w : ℕ) : BitVec w := BitVec.ofNat w 0x20

/-- The mask of one flag tests one bit. -/
theorem VmArea.has_twoPow_iff (vma : VmArea w) {i : ℕ} (hi : i < w) :
    vma.Has (BitVec.twoPow w i) ↔ vma.vmFlags.getLsbD i = true := by
  have hset : BitVec.twoPow w i ≠ 0 := by
    intro hzero
    have hflag := BitVec.getLsbD_twoPow (w := w) i i
    rw [hzero] at hflag
    simp [hi] at hflag
  unfold VmArea.Has
  rw [BitVec.and_twoPow]
  split_ifs with hbit
  · exact iff_of_true hset hbit
  · exact iff_of_false (fun hne ↦ hne rfl) hbit

theorem vmWrite_eq_twoPow (w : ℕ) : vmWrite w = BitVec.twoPow w 1 :=
  BitVec.eq_of_toNat_eq (by rw [BitVec.toNat_twoPow]; rfl)

theorem VmArea.has_vmWrite_iff (vma : VmArea w) (hw : 32 ≤ w) :
    vma.Has (vmWrite w) ↔ vma.vmFlags.getLsbD 1 = true := by
  rw [vmWrite_eq_twoPow, vma.has_twoPow_iff (by omega)]

theorem VmArea.has_vmShared_iff (vma : VmArea w) (hw : 32 ≤ w) :
    vma.Has (vmShared w) ↔ vma.vmFlags.getLsbD 3 = true := by
  have hmask : vmShared w = BitVec.twoPow w 3 :=
    BitVec.eq_of_toNat_eq (by rw [BitVec.toNat_twoPow]; rfl)
  rw [hmask, vma.has_twoPow_iff (by omega)]

theorem VmArea.has_vmMaywrite_iff (vma : VmArea w) (hw : 32 ≤ w) :
    vma.Has (vmMaywrite w) ↔ vma.vmFlags.getLsbD 5 = true := by
  have hmask : vmMaywrite w = BitVec.twoPow w 5 :=
    BitVec.eq_of_toNat_eq (by rw [BitVec.toNat_twoPow]; rfl)
  rw [hmask, vma.has_twoPow_iff (by omega)]

/-- The mask of the three lowest bits. -/
theorem getLsbD_lowMask {i : ℕ} (hi : i < w) : (BitVec.ofNat w 7).getLsbD i = decide (i < 3) := by
  rw [BitVec.getLsbD_ofNat, show 7 = 2 ^ 3 - 1 from rfl, Nat.testBit_two_pow_sub_one]
  simp [hi]

/-- `mprotect` replaces the three lowest bits and keeps the others. -/
theorem getLsbD_mprotectFlags (flags prot : BitVec w) {i : ℕ} (hi : i < w) :
    (mprotectFlags flags prot).getLsbD i =
      if i < 3 then prot.getLsbD i else flags.getLsbD i := by
  unfold mprotectFlags
  rw [BitVec.getLsbD_or, BitVec.getLsbD_and, BitVec.getLsbD_and, BitVec.getLsbD_not,
    getLsbD_lowMask hi]
  by_cases hlow : i < 3
  · simp [hlow]
  · simp [hlow, hi]

/-- A bit of what `mprotect` tests before it allows the new flags. -/
theorem getLsbD_denied (flags prot : BitVec w) (hw : 32 ≤ w) {i : ℕ} (hi : i < w) :
    (mprotectFlags flags prot &&& ~~~(mprotectFlags flags prot >>> 4) &&&
        BitVec.ofNat w 7).getLsbD i =
      (decide (i < 3) && prot.getLsbD i && !flags.getLsbD (4 + i)) := by
  rw [BitVec.getLsbD_and, BitVec.getLsbD_and, BitVec.getLsbD_not, BitVec.getLsbD_ushiftRight,
    getLsbD_lowMask hi, getLsbD_mprotectFlags flags prot hi]
  by_cases hlow : i < 3
  · have hmay : (mprotectFlags flags prot).getLsbD (4 + i) = flags.getLsbD (4 + i) := by
      rw [getLsbD_mprotectFlags flags prot (show 4 + i < w by omega),
        if_neg (show ¬ 4 + i < 3 by omega)]
    rw [hmay]
    simp [hlow, hi]
  · simp [hlow]

/-- `mprotect` lets `VM_WRITE` in only where `VM_MAYWRITE` is. -/
theorem maywrite_of_not_denied {flags prot : BitVec w} (hw : 32 ≤ w)
    (hallowed : ¬ mprotectDenied flags prot)
    (hwrite : (mprotectFlags flags prot).getLsbD 1 = true) : flags.getLsbD 5 = true := by
  rw [getLsbD_mprotectFlags flags prot (by omega), if_pos (by omega)] at hwrite
  by_contra hclear
  refine hallowed fun hzero ↦ ?_
  have hbit := getLsbD_denied flags prot hw (show 1 < w by omega)
  rw [hzero, hwrite] at hbit
  simp [hclear] at hbit

/-- Where `VM_MAYWRITE` is, `mprotect` to `VM_WRITE` is allowed. -/
theorem not_denied_vmWrite {flags : BitVec w} (hw : 32 ≤ w) (hmay : flags.getLsbD 5 = true) :
    ¬ mprotectDenied flags (vmWrite w) := by
  rw [mprotectDenied, ne_eq, not_not]
  apply BitVec.eq_of_getLsbD_eq
  intro i hi
  rw [getLsbD_denied flags (vmWrite w) hw hi, vmWrite_eq_twoPow, BitVec.getLsbD_twoPow]
  by_cases hone : 1 = i
  · rw [← hone]
    simp [hmay]
  · simp [hone]

/-! ### Runs of mappings and system calls -/

/-- A mapping of the device as the kernel asks the driver for it: the process, and a vma of whole
pages. -/
structure MmapRequest (w : ℕ) where
  process : ℕ
  vma : VmArea w
  valid : ValidRange vma.vmStart vma.vmEnd

/-- A process maps the device, or cuts the vmas it has over the device by `mprotect` or `munmap`. -/
inductive DeviceEvent (w : ℕ)
  | mmap (request : MmapRequest w)
  | call (process : ℕ) (op : MapOp w)

/-- The vmas over the device in each process. -/
abbrev DeviceVmas (w : ℕ) := ℕ → List (VmArea w)

/-- The vmas after an event. A mapping that the driver rejects makes none. -/
def deviceStep (vmas : DeviceVmas w) : DeviceEvent w → DeviceVmas w
  | .mmap request =>
    let (ret, vma) := mapdrvMmap request.vma
    if ret = 0 then Function.update vmas request.process (vmas request.process ++ [vma])
    else vmas
  | .call process op => Function.update vmas process (mapStep (vmas process) op)

/-- The request of a mapping. -/
def DeviceEvent.request? : DeviceEvent w → Option (MmapRequest w)
  | .mmap request => some request
  | .call _ _ => none

/-- The driver accepts the mapping. -/
def MmapRequest.Accepted (request : MmapRequest w) : Prop := (mapdrvMmap request.vma).1 = 0

/-- No vma over the device is both writable and not shared. -/
def WritableShared (vmas : DeviceVmas w) : Prop :=
  ∀ process, ∀ vma ∈ vmas process, vma.Has (vmWrite w) → vma.Has (vmShared w)

/-- The mapping is shared, or its vma will not become writable. -/
def VmArea.Settled (vma : VmArea w) : Prop := vma.Has (vmShared w) ∨ ¬ vma.Has (vmMaywrite w)

/-- What keeps the law for good: a vma that is not shared is not writable and will not become so. -/
structure VmArea.Kept (vma : VmArea w) : Prop where
  settled : vma.Settled
  writable_shared : vma.Has (vmWrite w) → vma.Has (vmShared w)

/-- A mapping adds its vma to those of its process, if it is accepted. -/
theorem mem_deviceStep_mmap {vmas : DeviceVmas w} {request : MmapRequest w} {process : ℕ}
    {vma : VmArea w} :
    vma ∈ deviceStep vmas (.mmap request) process ↔
      vma ∈ vmas process ∨
        request.Accepted ∧ process = request.process ∧ vma = (mapdrvMmap request.vma).2 := by
  unfold MmapRequest.Accepted
  simp only [deviceStep]
  split_ifs with haccepted
  · by_cases hprocess : process = request.process
    · rw [hprocess, Function.update_self, List.mem_append, List.mem_singleton]
      simp only [haccepted, true_and]
    · rw [Function.update_of_ne hprocess]
      simp only [hprocess, false_and, and_false, or_false]
  · simp only [haccepted, false_and, or_false]

/-- A system call cuts the vmas of its process. -/
theorem mem_deviceStep_call {vmas : DeviceVmas w} {caller process : ℕ} {op : MapOp w}
    {vma : VmArea w} :
    vma ∈ deviceStep vmas (.call caller op) process ↔
      process ≠ caller ∧ vma ∈ vmas process ∨
        process = caller ∧ ∃ whole ∈ vmas caller, vma ∈ op.apply whole := by
  simp only [deviceStep]
  by_cases hprocess : process = caller
  · rw [hprocess, Function.update_self, mapStep, List.mem_flatMap]
    simp only [ne_eq, not_true_eq_false, false_and, true_and, false_or]
  · rw [Function.update_of_ne hprocess]
    simp only [ne_eq, hprocess, not_false_eq_true, true_and, false_and, or_false]

/-! ### What the driver accepts -/

/-- An accepted mapping keeps its addresses and the flags that the law is about, and it is not
writable without being shared. -/
theorem mapdrvMmap_spec {vma : VmArea w} (hw : 32 ≤ w) (haccepted : (mapdrvMmap vma).1 = 0) :
    (mapdrvMmap vma).2.vmStart = vma.vmStart ∧ (mapdrvMmap vma).2.vmEnd = vma.vmEnd ∧
      ((mapdrvMmap vma).2.Has (vmShared w) ↔ vma.Has (vmShared w)) ∧
      ((mapdrvMmap vma).2.Has (vmMaywrite w) ↔ vma.Has (vmMaywrite w)) ∧
      ((mapdrvMmap vma).2.Has (vmWrite w) ↔ vma.Has (vmWrite w)) ∧
      (vma.Has (vmWrite w) → vma.Has (vmShared w)) := by
  have hlock : ∀ i < 19, (vmLockonfault w).getLsbD i = false := by
    intro i hi
    rw [vmLockonfault, BitVec.getLsbD_ofNat, show 0x80000 = 2 ^ 19 from rfl, Nat.testBit_two_pow]
    simp [show ¬ 19 = i by omega]
  have hflag : ∀ i < 19, ∀ flags : BitVec w,
      (flags ||| vmLockonfault w).getLsbD i = flags.getLsbD i := by
    intro i hi flags
    rw [BitVec.getLsbD_or, hlock i hi, Bool.or_false]
  obtain ⟨-, hchecked, -, hresult⟩ := mapdrvMmap_of_accepted haccepted
  rw [hresult]
  refine ⟨rfl, rfl, ?_, ?_, ?_, hchecked⟩
  · rw [VmArea.has_vmShared_iff _ hw, VmArea.has_vmShared_iff _ hw, VmArea.locked,
      hflag 3 (by omega)]
  · rw [VmArea.has_vmMaywrite_iff _ hw, VmArea.has_vmMaywrite_iff _ hw, VmArea.locked,
      hflag 5 (by omega)]
  · rw [VmArea.has_vmWrite_iff _ hw, VmArea.has_vmWrite_iff _ hw, VmArea.locked,
      hflag 1 (by omega)]

/-! ### What the system calls keep -/

/-- A cut keeps the flags of a vma. -/
theorem vmFlags_of_mem_clip {vma piece : VmArea w} {low high : BitVec w}
    (hmem : piece ∈ vma.clip low high) : piece.vmFlags = vma.vmFlags := by
  obtain ⟨start, finish, rfl, -⟩ := exists_piece_of_mem_clip hmem
  rfl

/-- A piece that a system call makes of a vma has its flags, or the flags that `mprotect` was
allowed to give it. -/
theorem vmFlags_of_mem_apply {vma piece : VmArea w} {op : MapOp w} (hmem : piece ∈ op.apply vma) :
    piece.vmFlags = vma.vmFlags ∨
      ∃ prot, ¬ mprotectDenied vma.vmFlags prot ∧
        piece.vmFlags = mprotectFlags vma.vmFlags prot := by
  cases op with
  | munmap start finish =>
    simp only [MapOp.apply] at hmem
    split_ifs at hmem with hvalid
    · rcases List.mem_append.mp hmem with hbelow | habove
      · exact Or.inl (vmFlags_of_mem_clip hbelow)
      · exact Or.inl (vmFlags_of_mem_clip habove)
    · rw [List.mem_singleton.mp hmem]
      exact Or.inl rfl
  | mprotect start finish prot =>
    simp only [MapOp.apply] at hmem
    split_ifs at hmem with hcall
    · rcases List.mem_append.mp hmem with hrest | habove
      · rcases List.mem_append.mp hrest with hbelow | hinside
        · exact Or.inl (vmFlags_of_mem_clip hbelow)
        · obtain ⟨part, hpart, rfl⟩ := List.mem_map.mp hinside
          refine Or.inr ⟨prot, hcall.2.1, ?_⟩
          dsimp only
          rw [vmFlags_of_mem_clip hpart]
      · exact Or.inl (vmFlags_of_mem_clip habove)
    · rw [List.mem_singleton.mp hmem]
      exact Or.inl rfl

/-- What keeps the law of a vma keeps it of every piece of it. -/
theorem VmArea.Kept.of_mem_apply {vma piece : VmArea w} (hw : 32 ≤ w) (hkept : vma.Kept)
    {op : MapOp w} (hmem : piece ∈ op.apply vma) : piece.Kept := by
  obtain ⟨hsettled, hwritable⟩ := hkept
  unfold VmArea.Settled at hsettled
  rw [vma.has_vmShared_iff hw, vma.has_vmMaywrite_iff hw] at hsettled
  rw [vma.has_vmShared_iff hw, vma.has_vmWrite_iff hw] at hwritable
  have hiff : piece.Kept ↔ (piece.vmFlags.getLsbD 3 = true ∨ ¬ piece.vmFlags.getLsbD 5 = true) ∧
      (piece.vmFlags.getLsbD 1 = true → piece.vmFlags.getLsbD 3 = true) := by
    rw [← piece.has_vmShared_iff hw, ← piece.has_vmMaywrite_iff hw, ← piece.has_vmWrite_iff hw]
    exact ⟨fun hpiece ↦ ⟨hpiece.settled, hpiece.writable_shared⟩, fun hpiece ↦ ⟨hpiece.1, hpiece.2⟩⟩
  rw [hiff]
  rcases vmFlags_of_mem_apply hmem with hflags | ⟨prot, hallowed, hflags⟩
  · rw [hflags]
    exact ⟨hsettled, hwritable⟩
  · have hhigh : ∀ i, 3 ≤ i → i < w → piece.vmFlags.getLsbD i = vma.vmFlags.getLsbD i := by
      intro i hlow hi
      rw [hflags, getLsbD_mprotectFlags _ _ hi, if_neg (by omega)]
    rw [hhigh 3 (by omega) (by omega), hhigh 5 (by omega) (by omega)]
    refine ⟨hsettled, fun hwrite ↦ ?_⟩
    rw [hflags] at hwrite
    exact hsettled.resolve_right fun hclear ↦ hclear (maywrite_of_not_denied hw hallowed hwrite)

/-! ### Runs that keep the law -/

/-- Every vma over the device is kept. -/
def AllKept (vmas : DeviceVmas w) : Prop := ∀ process, ∀ vma ∈ vmas process, vma.Kept

/-- An event keeps the law for good when the mapping it makes, if any, is settled. -/
theorem allKept_deviceStep (hw : 32 ≤ w) {vmas : DeviceVmas w} (hkept : AllKept vmas)
    {event : DeviceEvent w}
    (hsettled : ∀ request, event = .mmap request → request.Accepted → request.vma.Settled) :
    AllKept (deviceStep vmas event) := by
  intro process vma hvma
  cases event with
  | mmap request =>
    rcases mem_deviceStep_mmap.mp hvma with hold | ⟨haccepted, -, rfl⟩
    · exact hkept process vma hold
    · obtain ⟨-, -, hshared, hmay, hwrite, hchecked⟩ := mapdrvMmap_spec hw haccepted
      refine ⟨?_, fun hwritable ↦ hshared.mpr (hchecked (hwrite.mp hwritable))⟩
      have hrequest := hsettled request rfl haccepted
      rwa [VmArea.Settled, ← hshared, ← hmay] at hrequest
  | call caller op =>
    rcases mem_deviceStep_call.mp hvma with ⟨-, hold⟩ | ⟨-, whole, hwhole, hpiece⟩
    · exact hkept process vma hold
    · exact (hkept caller whole hwhole).of_mem_apply hw hpiece

/-! ### Runs that break it -/

/-- A vma is still there after further mappings. -/
theorem mem_run_mmaps {vma : VmArea w} {process : ℕ} (requests : List (MmapRequest w))
    {vmas : DeviceVmas w} (hvma : vma ∈ vmas process) :
    vma ∈ run deviceStep vmas (requests.map DeviceEvent.mmap) process := by
  induction requests generalizing vmas with
  | nil => exact hvma
  | cons request rest ih => exact ih (mem_deviceStep_mmap.mpr (Or.inl hvma))

/-- The vma of an accepted mapping is there after all mappings. -/
theorem mem_run_mmaps_of_accepted {request : MmapRequest w} {requests : List (MmapRequest w)}
    (hrequest : request ∈ requests) (haccepted : request.Accepted) (vmas : DeviceVmas w) :
    (mapdrvMmap request.vma).2 ∈
      run deviceStep vmas (requests.map DeviceEvent.mmap) request.process := by
  obtain ⟨before, after, rfl⟩ := List.append_of_mem hrequest
  rw [List.map_append, run_append, List.map_cons, run_cons]
  exact mem_run_mmaps after (mem_deviceStep_mmap.mpr (Or.inr ⟨haccepted, rfl, rfl⟩))

/-- `mprotect` to `VM_WRITE` on the whole of a vma that has `VM_MAYWRITE` and is not writable makes
it writable, and keeps whether it is shared. -/
theorem exists_writable_of_mprotect (hw : 32 ≤ w) {vma : VmArea w}
    (hvalid : ValidRange vma.vmStart vma.vmEnd) (hmay : vma.Has (vmMaywrite w))
    (hread : ¬ vma.Has (vmWrite w)) :
    ∃ piece ∈ (MapOp.mprotect vma.vmStart vma.vmEnd (vmWrite w)).apply vma,
      piece.Has (vmWrite w) ∧ (piece.Has (vmShared w) → vma.Has (vmShared w)) := by
  rw [vma.has_vmMaywrite_iff hw] at hmay
  rw [vma.has_vmWrite_iff hw] at hread
  have hwrite : (mprotectFlags vma.vmFlags (vmWrite w)).getLsbD 1 = true := by
    rw [getLsbD_mprotectFlags _ _ (by omega), if_pos (by omega), vmWrite_eq_twoPow,
      BitVec.getLsbD_twoPow]
    simp [show 1 < w by omega]
  have hshared : (mprotectFlags vma.vmFlags (vmWrite w)).getLsbD 3 = vma.vmFlags.getLsbD 3 := by
    rw [getLsbD_mprotectFlags _ _ (by omega), if_neg (by omega)]
  have hne : mprotectFlags vma.vmFlags (vmWrite w) ≠ vma.vmFlags := by
    intro heq
    rw [heq] at hwrite
    exact hread hwrite
  have hclip : vma.clip vma.vmStart vma.vmEnd = [vma.piece vma.vmStart vma.vmEnd] := by
    simp only [VmArea.clip, if_neg (BitVec.lt_irrefl vma.vmStart),
      if_neg (BitVec.lt_irrefl vma.vmEnd), if_pos hvalid.1]
  refine ⟨{ vma.piece vma.vmStart vma.vmEnd with
    vmFlags := mprotectFlags vma.vmFlags (vmWrite w) }, ?_, ?_, ?_⟩
  · simp only [MapOp.apply]
    rw [if_pos ⟨hvalid, not_denied_vmWrite hw hmay, hne⟩, hclip]
    exact List.mem_append_left _ (List.mem_append_right _ (List.mem_singleton.mpr rfl))
  · exact (VmArea.has_vmWrite_iff _ hw).mpr hwrite
  · rw [VmArea.has_vmShared_iff _ hw, vma.has_vmShared_iff hw, ← hshared]
    exact id

/-! ### Exactly when the law holds for good -/

/-- A mapping that the driver accepts and that is not settled lets its process break the law: after
all the mappings are made, it makes this one writable. -/
theorem not_along_of_unsettled (hw : 32 ≤ w) {requests : List (MmapRequest w)}
    {request : MmapRequest w} (hrequest : request ∈ requests) (haccepted : request.Accepted)
    (hunsettled : ¬ request.vma.Settled) :
    ¬ Along deviceStep (fun vmas event ↦ WritableShared (deviceStep vmas event)) (fun _ ↦ [])
      (requests.map DeviceEvent.mmap ++
        [.call request.process (.mprotect (mapdrvMmap request.vma).2.vmStart
          (mapdrvMmap request.vma).2.vmEnd (vmWrite w))]) := by
  intro hrun
  obtain ⟨hprivate, hmay⟩ := not_or.mp hunsettled
  rw [not_not] at hmay
  obtain ⟨hstart, hend, hshared, hmayAfter, hwrite, hchecked⟩ := mapdrvMmap_spec hw haccepted
  have hvalid : ValidRange (mapdrvMmap request.vma).2.vmStart
      (mapdrvMmap request.vma).2.vmEnd := by
    rw [hstart, hend]
    exact request.valid
  obtain ⟨piece, hpiece, hwritable, hsharedPiece⟩ := exists_writable_of_mprotect hw hvalid
    (hmayAfter.mpr hmay) fun hbefore ↦ hprivate (hchecked (hwrite.mp hbefore))
  rw [along_append, along_cons] at hrun
  have hmapped := mem_run_mmaps_of_accepted hrequest haccepted fun _ ↦ []
  have hshares := hrun.2.1 request.process piece
    (mem_deviceStep_call.mpr (Or.inr ⟨rfl, _, hmapped, hpiece⟩)) hwritable
  exact hprivate (hshared.mp (hsharedPiece hshares))

/-- Runs in which every accepted mapping is settled keep the law. -/
theorem along_of_settled (hw : 32 ≤ w) {events : List (DeviceEvent w)}
    (hadmissible : ∀ event ∈ events, ∀ request, event = .mmap request → request.Accepted →
      request.vma.Settled) :
    Along deviceStep (fun vmas event ↦ WritableShared (deviceStep vmas event)) (fun _ ↦ [])
      events := by
  have hstart : AllKept fun _ : ℕ ↦ ([] : List (VmArea w)) :=
    fun _ _ hnone ↦ absurd hnone List.not_mem_nil
  have hstep : ∀ (vmas : DeviceVmas w) (event : DeviceEvent w), AllKept vmas →
      (∀ request, event = .mmap request → request.Accepted → request.vma.Settled) →
        AllKept (deviceStep vmas event) :=
    fun _ _ hkept hevent ↦ allKept_deviceStep hw hkept hevent
  refine along_of_invariant hstep ?_ hstart (along_of_mem deviceStep hadmissible _)
  exact fun vmas event hkept hevent process vma hvma ↦
    (hstep vmas event hkept hevent process vma hvma).writable_shared

/-- Given the mappings that the processes ask for, the law holds in every state of every run of
them and of any system calls if and only if every mapping that the driver accepts is shared or lacks
`VM_MAYWRITE`. -/
theorem writableShared_iff (hw : 32 ≤ w) (requests : List (MmapRequest w)) :
    (∀ events : List (DeviceEvent w), events.filterMap DeviceEvent.request? = requests →
        Along deviceStep (fun vmas event ↦ WritableShared (deviceStep vmas event)) (fun _ ↦ [])
          events) ↔
      ∀ request ∈ requests, request.Accepted → request.vma.Settled := by
  constructor
  · intro hlaw request hrequest haccepted
    by_contra hunsettled
    have hrequests : (requests.map DeviceEvent.mmap).filterMap DeviceEvent.request? = requests := by
      rw [List.filterMap_map]
      exact List.filterMap_some
    refine not_along_of_unsettled hw hrequest haccepted hunsettled (hlaw _ ?_)
    rw [List.filterMap_append, hrequests]
    exact List.append_nil requests
  · intro hsettled events hevents
    refine along_of_settled hw ?_
    rintro event hevent request rfl
    refine hsettled request ?_
    rw [← hevents]
    exact List.mem_filterMap.mpr ⟨_, hevent, rfl⟩

/-- A read-only mapping of one page with the flags of the driver's test program, private or
shared. -/
def readOnlyPage (shared : Bool) : MmapRequest 64 where
  process := 1
  vma := ⟨0x10000#64, 0x11000#64, 0#64, if shared then 0xf9#64 else 0x71#64, .unset⟩
  valid := show ValidRange 0x10000#64 0x11000#64 by decide

/-- A shared mapping that is made writable keeps the law. -/
theorem readOnlyPage_shared_writableShared :
    (readOnlyPage true).Accepted ∧
      Along deviceStep (fun vmas event ↦ WritableShared (deviceStep vmas event)) (fun _ ↦ [])
        [.mmap (readOnlyPage true), .call 1 (.mprotect 0x10000#64 0x11000#64 3#64)] := by
  have haccepted : (mapdrvMmap (readOnlyPage true).vma).1 = 0 := by decide
  refine ⟨haccepted, (writableShared_iff (by decide) [readOnlyPage true]).mpr ?_ _ rfl⟩
  intro request hrequest _
  rw [List.mem_singleton.mp hrequest]
  exact Or.inl (by decide)

/-- A private mapping that is made writable breaks it. -/
theorem not_writableShared_private :
    ¬ Along deviceStep (fun vmas event ↦ WritableShared (deviceStep vmas event)) (fun _ ↦ [])
      [.mmap (readOnlyPage false), .call 1 (.mprotect 0x10000#64 0x11000#64 3#64)] := by
  rintro ⟨-, hlaw, -⟩
  have hmem : (⟨0x10000#64, 0x11000#64, 0#64, 0x80073#64, .mapVmOps⟩ : VmArea 64) ∈
      deviceStep (deviceStep (fun _ ↦ []) (.mmap (readOnlyPage false)))
        (.call 1 (.mprotect 0x10000#64 0x11000#64 3#64)) 1 := by decide
  exact absurd (hlaw 1 _ hmem (by decide)) (by decide)

end KernelExperiments.SharedMapping
