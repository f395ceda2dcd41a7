import KernelExperiments.Foundation.Runs
import KernelExperiments.SharedMapping.Driver

/-!
# The life of a mapping in the kernel

After `mmap` the vma of a mapping belongs to the kernel, which cuts it when a part of it is unmapped
or gets another protection. A cut keeps `vm_pgoff` the page index, within the mapped object, of
`vm_start` (`VmArea.piece`). `mapStep` applies one `munmap` or `mprotect` to the vmas of a mapping.
What holds of the pieces of a vma holds of all that a call makes of it (`forall_mem_apply`), and
every vma any sequence of calls makes is a piece of the original one (`pieceOf_of_mem_run`).

`mprotect` keeps the flags outside `VM_READ`, `VM_WRITE` and `VM_EXEC`, refuses a protection whose
`VM_MAY*` bit, four bits higher, is clear, and does nothing when the flags stay the same.
-/

set_option autoImplicit false
set_option relaxedAutoImplicit false

namespace KernelExperiments.SharedMapping

open Foundation

variable {w : ℕ}

/-! ### Cutting a vma -/

/-- The part `[start, finish)` of a vma, as the kernel sets it up. -/
def VmArea.piece (vma : VmArea w) (start finish : BitVec w) : VmArea w :=
  { vma with
    vmStart := start
    vmEnd := finish
    vmPgoff := vma.vmPgoff + (start - vma.vmStart) >>> pageShift }

/-- The part of a vma in the range `[low, high)`, when there is one. -/
def VmArea.clip (vma : VmArea w) (low high : BitVec w) : List (VmArea w) :=
  let start := if vma.vmStart < low then low else vma.vmStart
  let finish := if high < vma.vmEnd then high else vma.vmEnd
  if start < finish then [vma.piece start finish] else []

/-! ### The system calls -/

/-- The flags of a vma after `mprotect` to `prot`, a combination of `VM_READ`, `VM_WRITE` and
`VM_EXEC`. -/
def mprotectFlags (flags prot : BitVec w) : BitVec w :=
  (flags &&& ~~~(BitVec.ofNat w 7)) ||| (prot &&& BitVec.ofNat w 7)

/-- The protection asks for an access whose `VM_MAY*` bit is clear. -/
def mprotectDenied (flags prot : BitVec w) : Prop :=
  mprotectFlags flags prot &&& ~~~(mprotectFlags flags prot >>> 4) &&& BitVec.ofNat w 7 ≠ 0

instance decidableMprotectDenied (flags prot : BitVec w) : Decidable (mprotectDenied flags prot) :=
  inferInstanceAs (Decidable (_ ≠ _))

/-- A system call that cuts the vmas of an address space, on the range `[start, finish)`. -/
inductive MapOp (w : ℕ)
  | munmap (start finish : BitVec w)
  | mprotect (start finish prot : BitVec w)

/-- The range of a call is not empty and whole pages. -/
def ValidRange (start finish : BitVec w) : Prop :=
  start < finish ∧ start.toNat % 4096 = 0 ∧ finish.toNat % 4096 = 0

instance decidableValidRange (start finish : BitVec w) : Decidable (ValidRange start finish) :=
  inferInstanceAs (Decidable (_ ∧ _ ∧ _))

/-- What a call makes of one vma: `munmap` keeps the parts below and above the range, `mprotect`
also the part inside, with new flags. A call on a range that is empty or not whole pages does
nothing. -/
def MapOp.apply (vma : VmArea w) : MapOp w → List (VmArea w)
  | .munmap start finish =>
    if ValidRange start finish then
      vma.clip vma.vmStart start ++ vma.clip finish vma.vmEnd
    else [vma]
  | .mprotect start finish prot =>
    if ValidRange start finish ∧ ¬ mprotectDenied vma.vmFlags prot ∧
        mprotectFlags vma.vmFlags prot ≠ vma.vmFlags then
      vma.clip vma.vmStart start ++
        (vma.clip start finish).map
          (fun piece ↦ { piece with vmFlags := mprotectFlags piece.vmFlags prot }) ++
        vma.clip finish vma.vmEnd
    else [vma]

/-- The vmas of a mapping after a call. -/
def mapStep (vmas : List (VmArea w)) (op : MapOp w) : List (VmArea w) :=
  vmas.flatMap fun vma ↦ op.apply vma

/-! ### What a call makes of a vma -/

/-- The part of a vma in a range is a piece of it that is not empty, with its ends at ends of the
vma or of the range. -/
theorem exists_piece_of_mem_clip {vma piece : VmArea w} {low high : BitVec w}
    (hmem : piece ∈ vma.clip low high) :
    ∃ start finish : BitVec w, piece = vma.piece start finish ∧
      vma.vmStart.toNat ≤ start.toNat ∧ start.toNat < finish.toNat ∧
      finish.toNat ≤ vma.vmEnd.toNat ∧ (start = low ∨ start = vma.vmStart) ∧
      (finish = high ∨ finish = vma.vmEnd) := by
  obtain ⟨start, hstart⟩ : ∃ start, start = if vma.vmStart < low then low else vma.vmStart :=
    ⟨_, rfl⟩
  obtain ⟨finish, hfinish⟩ : ∃ finish, finish = if high < vma.vmEnd then high else vma.vmEnd :=
    ⟨_, rfl⟩
  have hlow : vma.vmStart.toNat ≤ start.toNat ∧ (start = low ∨ start = vma.vmStart) := by
    rw [hstart]
    split_ifs with hlt
    · exact ⟨Nat.le_of_lt (BitVec.lt_def.mp hlt), Or.inl rfl⟩
    · exact ⟨Nat.le_refl _, Or.inr rfl⟩
  have hhigh : finish.toNat ≤ vma.vmEnd.toNat ∧ (finish = high ∨ finish = vma.vmEnd) := by
    rw [hfinish]
    split_ifs with hlt
    · exact ⟨Nat.le_of_lt (BitVec.lt_def.mp hlt), Or.inl rfl⟩
    · exact ⟨Nat.le_refl _, Or.inr rfl⟩
  simp only [VmArea.clip, ← hstart, ← hfinish] at hmem
  split_ifs at hmem with hlt
  · exact ⟨start, finish, List.mem_singleton.mp hmem, hlow.1, BitVec.lt_def.mp hlt, hhigh.1,
      hlow.2, hhigh.2⟩
  · cases hmem

/-- The rule for cuts. A property that a vma of whole pages has, that its pieces of whole pages
have, and that does not depend on the flags, holds of everything a call makes of the vma. -/
theorem forall_mem_apply {property : VmArea w → Prop} {vma : VmArea w}
    (hstart : vma.vmStart.toNat % 4096 = 0) (hend : vma.vmEnd.toNat % 4096 = 0)
    (hself : property vma)
    (hpiece : ∀ start finish : BitVec w, vma.vmStart.toNat ≤ start.toNat →
      start.toNat < finish.toNat → finish.toNat ≤ vma.vmEnd.toNat → start.toNat % 4096 = 0 →
        finish.toNat % 4096 = 0 → property (vma.piece start finish))
    (hflags : ∀ (piece : VmArea w) (flags : BitVec w), property piece →
      property { piece with vmFlags := flags }) (op : MapOp w) :
    ∀ piece ∈ op.apply vma, property piece := by
  have hclip : ∀ low high : BitVec w, low.toNat % 4096 = 0 → high.toNat % 4096 = 0 →
      ∀ piece ∈ vma.clip low high, property piece := by
    intro low high hlow hhigh piece hmem
    obtain ⟨start, finish, rfl, hle, hlt, hfinish, hstarts, hends⟩ := exists_piece_of_mem_clip hmem
    refine hpiece start finish hle hlt hfinish ?_ ?_
    · rcases hstarts with rfl | rfl
      · exact hlow
      · exact hstart
    · rcases hends with rfl | rfl
      · exact hhigh
      · exact hend
  intro piece hmem
  cases op with
  | munmap start finish =>
    simp only [MapOp.apply] at hmem
    split_ifs at hmem with hvalid
    · obtain ⟨-, hlow, hhigh⟩ := hvalid
      rcases List.mem_append.mp hmem with hbelow | habove
      · exact hclip _ _ hstart hlow piece hbelow
      · exact hclip _ _ hhigh hend piece habove
    · rwa [List.mem_singleton.mp hmem]
  | mprotect start finish prot =>
    simp only [MapOp.apply] at hmem
    split_ifs at hmem with hcall
    · obtain ⟨⟨-, hlow, hhigh⟩, -⟩ := hcall
      rcases List.mem_append.mp hmem with hrest | habove
      · rcases List.mem_append.mp hrest with hbelow | hinside
        · exact hclip _ _ hstart hlow piece hbelow
        · obtain ⟨part, hpart, rfl⟩ := List.mem_map.mp hinside
          exact hflags part _ (hclip _ _ hlow hhigh part hpart)
      · exact hclip _ _ hhigh hend piece habove
    · rwa [List.mem_singleton.mp hmem]

/-! ### Every vma is a piece of the original one -/

/-- `piece` covers whole pages of `original`, and its `vm_pgoff` is the index in `original` of its
first page. -/
structure PieceOf (original piece : VmArea w) : Prop where
  start_le : original.vmStart.toNat ≤ piece.vmStart.toNat
  end_le : piece.vmEnd.toNat ≤ original.vmEnd.toNat
  start_lt_end : piece.vmStart.toNat < piece.vmEnd.toNat
  start_aligned : piece.vmStart.toNat % 4096 = 0
  end_aligned : piece.vmEnd.toNat % 4096 = 0
  pgoff_eq : piece.vmPgoff.toNat =
    (piece.vmStart.toNat - original.vmStart.toNat) / 4096

/-- Cutting a piece at page boundaries gives a piece. -/
theorem PieceOf.cut {original vma : VmArea w} (hpiece : PieceOf original vma)
    (haligned : original.vmStart.toNat % 4096 = 0) {start finish : BitVec w}
    (hstart : vma.vmStart.toNat ≤ start.toNat) (hlt : start.toNat < finish.toNat)
    (hfinish : finish.toNat ≤ vma.vmEnd.toNat) (hstartAligned : start.toNat % 4096 = 0)
    (hfinishAligned : finish.toNat % 4096 = 0) : PieceOf original (vma.piece start finish) := by
  have hoffset : ((start - vma.vmStart) >>> pageShift).toNat =
      (start.toNat - vma.vmStart.toNat) / 4096 := by
    rw [BitVec.toNat_ushiftRight, BitVec.toNat_sub_of_le (BitVec.le_def.mpr hstart),
      Nat.shiftRight_eq_div_pow]
    rfl
  have hpgoff : (vma.vmPgoff + (start - vma.vmStart) >>> pageShift).toNat =
      (start.toNat - original.vmStart.toNat) / 4096 := by
    have hbound := finish.isLt
    have hle := hpiece.start_le
    have hpieceAligned := hpiece.start_aligned
    rw [BitVec.toNat_add, hoffset, hpiece.pgoff_eq, Nat.mod_eq_of_lt]
    · omega
    · omega
  exact {
    start_le := Nat.le_trans hpiece.start_le hstart
    end_le := Nat.le_trans hfinish hpiece.end_le
    start_lt_end := hlt
    start_aligned := hstartAligned
    end_aligned := hfinishAligned
    pgoff_eq := hpgoff }

/-- What a call makes of a piece are pieces. -/
theorem pieceOf_of_mem_apply {original vma piece : VmArea w} (hpiece : PieceOf original vma)
    (haligned : original.vmStart.toNat % 4096 = 0) {op : MapOp w}
    (hmem : piece ∈ op.apply vma) : PieceOf original piece := by
  have hflags : ∀ (part : VmArea w) (flags : BitVec w), PieceOf original part →
      PieceOf original { part with vmFlags := flags } := by
    intro part flags hpart
    exact { hpart with }
  exact forall_mem_apply hpiece.start_aligned hpiece.end_aligned hpiece
    (fun start finish ↦ hpiece.cut haligned) hflags op piece hmem

/-- Every vma that a sequence of calls makes out of pieces is a piece. -/
theorem pieceOf_of_mem_run {original : VmArea w} (haligned : original.vmStart.toNat % 4096 = 0)
    (ops : List (MapOp w)) {vmas : List (VmArea w)}
    (hvmas : ∀ vma ∈ vmas, PieceOf original vma) :
    ∀ piece ∈ run mapStep vmas ops, PieceOf original piece := by
  have hstep : ∀ (vmas : List (VmArea w)) (op : MapOp w), (∀ vma ∈ vmas, PieceOf original vma) →
      ∀ piece ∈ mapStep vmas op, PieceOf original piece := by
    intro vmas op hpieces piece hmem
    obtain ⟨vma, hvma, hpiece⟩ := List.mem_flatMap.mp hmem
    exact pieceOf_of_mem_apply (hpieces vma hvma) haligned hpiece
  exact run_invariant hstep hvmas ops

end KernelExperiments.SharedMapping
