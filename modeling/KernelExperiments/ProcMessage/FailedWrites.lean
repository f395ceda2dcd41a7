import KernelExperiments.ProcMessage.Termination

/-!
# Whether a failed write to the proc file can be seen

A call of `proc_write` that returns an error should leave the message alone, so that every later
call returns and delivers what it would have without it (`Invisible`).

A write that is too long is refused before it does anything. A write whose copy faults has moved the
bytes in front of the fault over the live message, and may have zeroed the rest of its range. It is
invisible exactly when those bytes are the ones that were there (`Unseen`), and over a run of calls
that is all there is to ask of each of them (`along_invisible_iff`).
-/

set_option autoImplicit false
set_option relaxedAutoImplicit false

namespace KernelExperiments.ProcMessage

open Foundation

/-! ### What a failed write is not to do -/

/-- A write that returns a negative error leaves all bytes of the array as they were, and whatever
is called afterwards returns and delivers the same. -/
structure Invisible (state : ProcModule) (call : WriteCall) : Prop where
  procMsg_eq : (procWrite state call).2 < 0 → (procWrite state call).1.procMsg = state.procMsg
  later_eq : (procWrite state call).2 < 0 → ∀ later : List ProcCall,
    outputs procStep procResult (procWrite state call).1 later =
      outputs procStep procResult state later

/-- The bytes that the copy moves or fills with zeros are those that were there. -/
structure Unseen (procMsg : ProcMsg) (call : WriteCall) : Prop where
  moved_eq : ∀ index : Fin 256, index.val < copied call.count call.fault →
    call.buffer index = procMsg index
  filled_eq : ∀ index : Fin 256, copied call.count call.fault ≤ index.val →
    index.val < call.count → call.zeroFill = true → procMsg index = 0

/-- The write is refused for its length, or its copy does not fault, or the copy is unseen. -/
def Harmless (state : ProcModule) (call : WriteCall) : Prop :=
  255 < call.count ∨ ¬ Faults call.count call.fault ∨ Unseen state.procMsg call

/-! ### One write -/

/-- A copy leaves the array as it was exactly when it is unseen. -/
theorem copyFromUser_eq_iff (procMsg : ProcMsg) (call : WriteCall) :
    copyFromUser procMsg call = procMsg ↔ Unseen procMsg call := by
  have hcell : ∀ index : Fin 256, copyFromUser procMsg call index = procMsg index ↔ _ :=
    fun index ↦ copiedCell_eq_old_iff
  rw [funext_iff]
  constructor
  · intro hsame
    exact ⟨fun index ↦ ((hcell index).mp (hsame index)).1,
      fun index ↦ ((hcell index).mp (hsame index)).2⟩
  · intro hunseen index
    exact (hcell index).mpr ⟨hunseen.moved_eq index, hunseen.filled_eq index⟩

/-- A write is refused and changes nothing, or its copy faults and leaves what it copied, or it
returns the count. -/
theorem procWrite_cases (state : ProcModule) (call : WriteCall) :
    (255 < call.count ∧ procWrite state call = (state, einval)) ∨
      (¬ 255 < call.count ∧ Faults call.count call.fault ∧
        procWrite state call =
          ({ state with procMsg := copyFromUser state.procMsg call }, efault)) ∨
      (¬ 255 < call.count ∧ ¬ Faults call.count call.fault ∧
        (procWrite state call).2 = call.count) := by
  unfold procWrite
  dsimp only
  split_ifs with hcount hfault
  · exact Or.inl ⟨hcount, rfl⟩
  · exact Or.inr (Or.inl ⟨hcount, hfault, rfl⟩)
  · exact Or.inr (Or.inr ⟨hcount, hfault, rfl⟩)

/-- A write that leaves the module as it was is invisible. -/
theorem invisible_of_eq {state : ProcModule} {call : WriteCall} {code : ℤ}
    (hresult : procWrite state call = (state, code)) : Invisible state call := by
  refine ⟨fun _ ↦ ?_, fun _ later ↦ ?_⟩ <;> rw [hresult]

/-- In every state, a write is invisible if and only if it is harmless. -/
theorem invisible_iff (state : ProcModule) (call : WriteCall) :
    Invisible state call ↔ Harmless state call := by
  unfold Harmless
  rcases procWrite_cases state call with ⟨hcount, hresult⟩ | ⟨hcount, hfault, hresult⟩ |
    ⟨hcount, hfault, hret⟩
  · exact iff_of_true (invisible_of_eq hresult) (Or.inl hcount)
  · rw [or_iff_right hcount, or_iff_right (not_not.mpr hfault), ← copyFromUser_eq_iff]
    constructor
    · intro hinvisible
      have hsame := hinvisible.procMsg_eq
      rw [hresult] at hsame
      exact hsame (by decide : efault < 0)
    · intro hsame
      rw [hsame] at hresult
      exact invisible_of_eq hresult
  · have hnonneg : ¬ (procWrite state call).2 < 0 := by
      rw [hret]
      omega
    exact iff_of_true ⟨fun hneg ↦ absurd hneg hnonneg, fun hneg ↦ absurd hneg hnonneg⟩
      (Or.inr (Or.inl hfault))

/-! ### Exactly when every failed write of a run is invisible -/

/-- In every run of writes and reads from the module as it is loaded, all failed writes are
invisible if and only if all writes are harmless in the state they are made in. -/
theorem along_invisible_iff (calls : List ProcCall) :
    Along procStep (fun state call ↦ ∀ write, call = .write write → Invisible state write)
        ProcModule.loaded calls ↔
      Along procStep (fun state call ↦ ∀ write, call = .write write → Harmless state write)
        ProcModule.loaded calls :=
  along_congr fun state _ ↦
    forall_congr' fun write ↦ imp_congr_right fun _ ↦ invisible_iff state write

/-- A write of two bytes over the first message whose copy faults at the second one: it fails, and
the message has another first letter. -/
theorem not_along_invisible :
    ¬ Along procStep (fun state call ↦ ∀ write, call = .write write → Invisible state write)
      ProcModule.loaded [.write ⟨fun _ ↦ 74, 2, some 1, false⟩] := by
  rintro ⟨hinvisible, -⟩
  have hsame := (hinvisible _ rfl).procMsg_eq (by decide)
  exact absurd (congrFun hsame 0) (by decide)

end KernelExperiments.ProcMessage
