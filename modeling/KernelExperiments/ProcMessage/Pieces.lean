import KernelExperiments.ProcMessage.Termination

/-!
# Reading the message in pieces

A reader that has the proc file to itself reads it from the start, with counts of its choice, and
should get at most that many bytes with each call, and the message from all of them up to the first
zero (`PiecesLaw`).

`proc_read` does not look at the count. Its first call hands out the whole message, its second one
nothing, and so on in turns, whatever the position (`pieceResult_of_clear`, `pieceResult_of_set`).
Put together the pieces are the message; what goes wrong is the bound, in the first call and in
every other one after it whose count is less than the message's length (`piecesLaw_iff`).
-/

set_option autoImplicit false
set_option relaxedAutoImplicit false

namespace KernelExperiments.ProcMessage

open Foundation

/-! ### The reader -/

/-- The module and the file position of its only reader. -/
structure SoleReader where
  state : ProcModule
  pos : ℤ

/-- A call of `proc_read` by the reader, into a buffer that does not fault. -/
def pieceResult (reader : SoleReader) (count : ℕ) : ReadResult :=
  procRead reader.state count reader.pos none

/-- The reader after a call. -/
def pieceStep (reader : SoleReader) (count : ℕ) : SoleReader :=
  ⟨(pieceResult reader count).state, (pieceResult reader count).pos⟩

/-- The reader at the start of a file that holds the message. -/
def SoleReader.atStart (procMsg : ProcMsg) : SoleReader := ⟨⟨procMsg, false⟩, 0⟩

/-- The calls of the reader, one for each count. -/
def pieces (procMsg : ProcMsg) (counts : List ℕ) : List ReadResult :=
  outputs pieceStep pieceResult (SoleReader.atStart procMsg) counts

/-- The bytes that the calls before the first zero returned. -/
def deliveredBytes (results : List ReadResult) : List UInt8 :=
  (results.takeWhile fun result ↦ decide (result.ret ≠ 0)).flatMap fun result ↦
    result.buffer.take result.ret.toNat

/-- Every call copies and returns at most its count, and the calls before the first zero, once there
is one, return the message. -/
structure PiecesLaw (procMsg : ProcMsg) (counts : List ℕ) : Prop where
  within_count : Along pieceStep
    (fun reader count ↦ (pieceResult reader count).buffer.length ≤ count ∧
      (pieceResult reader count).ret ≤ count) (SoleReader.atStart procMsg) counts
  delivered : (∃ result ∈ pieces procMsg counts, result.ret = 0) →
    deliveredBytes (pieces procMsg counts) = procMsg.message

/-! ### Where the reader starts -/

/-- No write touches the flag. -/
theorem finished_procWrite (state : ProcModule) (call : WriteCall) :
    (procWrite state call).1.finished = state.finished := by
  unfold procWrite
  dsimp only
  split_ifs <;> rfl

/-- With the file to itself, a reader finds the flag clear after any writes from the load on: it is
at the start of the message they left. -/
theorem atStart_of_writes (calls : List WriteCall) :
    SoleReader.atStart (run procStep ProcModule.loaded (calls.map ProcCall.write)).procMsg =
      ⟨run procStep ProcModule.loaded (calls.map ProcCall.write), 0⟩ := by
  have hclear : (run procStep ProcModule.loaded (calls.map ProcCall.write)).finished = false := by
    rw [run_map]
    exact run_invariant (fun state call ↦ (finished_procWrite state call).trans) rfl calls
  rw [SoleReader.atStart, ← hclear]

/-! ### Calls in turns -/

/-- With the flag clear a call hands out the whole message. -/
theorem pieceResult_of_clear {reader : SoleReader} (hclear : reader.state.finished = false)
    (count : ℕ) :
    pieceResult reader count =
      ⟨⟨reader.state.procMsg, true⟩, reader.state.procMsg.strlen, reader.state.procMsg.message,
        reader.pos + reader.state.procMsg.strlen⟩ :=
  procRead_of_not_faults hclear count reader.pos (Nat.lt_irrefl _)

/-- With the flag set a call hands out nothing. -/
theorem pieceResult_of_set {reader : SoleReader} (hset : reader.state.finished = true)
    (count : ℕ) : pieceResult reader count = ⟨⟨reader.state.procMsg, false⟩, 0, [], reader.pos⟩ :=
  procRead_of_finished hset count reader.pos none

/-- With the flag clear, a call stays within its count exactly when the message does. -/
theorem pieceResult_within_count_iff {reader : SoleReader}
    (hclear : reader.state.finished = false) (count : ℕ) :
    ((pieceResult reader count).buffer.length ≤ count ∧ (pieceResult reader count).ret ≤ count) ↔
      reader.state.procMsg.strlen ≤ count := by
  rw [pieceResult_of_clear hclear]
  exact ⟨fun hwithin ↦ hwithin.1, fun hle ↦ ⟨hle, Int.ofNat_le.mpr hle⟩⟩

/-- A property of every other entry of a list, from the first one on, is one of the first entry and
of every other one behind the second. -/
theorem forall_every_other_cons {property : ℕ → Prop} (first second : ℕ) (rest : List ℕ) :
    (∀ index count, (first :: second :: rest)[2 * index]? = some count → property count) ↔
      property first ∧ ∀ index count, rest[2 * index]? = some count → property count := by
  constructor
  · intro hall
    exact ⟨hall 0 first rfl, fun index count hget ↦ hall (index + 1) count hget⟩
  · rintro ⟨hfirst, hrest⟩ index count hget
    cases index with
    | zero => exact Option.some.inj hget ▸ hfirst
    | succ index => exact hrest index count hget

/-- With the flag clear, the calls stay within their counts exactly when every other count, from the
first one on, is at least the length of the message. -/
theorem along_within_count_iff (procMsg : ProcMsg) :
    ∀ (counts : List ℕ) (pos : ℤ), Along pieceStep
        (fun reader count ↦ (pieceResult reader count).buffer.length ≤ count ∧
          (pieceResult reader count).ret ≤ count) ⟨⟨procMsg, false⟩, pos⟩ counts ↔
      ∀ index count, counts[2 * index]? = some count → procMsg.strlen ≤ count
  | [], _ => iff_of_true trivial fun _ _ hget ↦ absurd hget (by simp)
  | [count], pos => by
    rw [along_cons, pieceResult_within_count_iff rfl, and_iff_left (along_nil _)]
    constructor
    · intro hle index other hget
      cases index with
      | zero => exact Option.some.inj hget ▸ hle
      | succ index => cases hget
    · exact fun hall ↦ hall 0 count rfl
  | first :: second :: rest, pos => by
    have hfirst : pieceStep ⟨⟨procMsg, false⟩, pos⟩ first =
        ⟨⟨procMsg, true⟩, pos + procMsg.strlen⟩ := by
      rw [pieceStep, pieceResult_of_clear rfl]
    have hsecond : pieceStep ⟨⟨procMsg, true⟩, pos + procMsg.strlen⟩ second =
        ⟨⟨procMsg, false⟩, pos + procMsg.strlen⟩ := by
      rw [pieceStep, pieceResult_of_set rfl]
    rw [along_cons, along_cons, hfirst, hsecond, pieceResult_within_count_iff rfl,
      pieceResult_of_set rfl, along_within_count_iff procMsg rest, forall_every_other_cons]
    refine and_congr_right fun _ ↦ and_iff_right ?_
    exact ⟨Nat.zero_le second, Int.natCast_nonneg second⟩

/-- The first call hands out the whole message. -/
theorem pieces_cons (procMsg : ProcMsg) (first : ℕ) (rest : List ℕ) :
    pieces procMsg (first :: rest) =
      ⟨⟨procMsg, true⟩, procMsg.strlen, procMsg.message, procMsg.strlen⟩ ::
        outputs pieceStep pieceResult ⟨⟨procMsg, true⟩, procMsg.strlen⟩ rest := by
  have hfirst : pieceResult (SoleReader.atStart procMsg) first =
      ⟨⟨procMsg, true⟩, procMsg.strlen, procMsg.message, procMsg.strlen⟩ := by
    rw [pieceResult_of_clear rfl]
    simp only [SoleReader.atStart, Int.zero_add]
  rw [pieces, outputs, pieceStep, hfirst]

/-- Once a call has returned zero, the calls before the first zero have returned the message. -/
theorem deliveredBytes_pieces (procMsg : ProcMsg) (counts : List ℕ)
    (hzero : ∃ result ∈ pieces procMsg counts, result.ret = 0) :
    deliveredBytes (pieces procMsg counts) = procMsg.message := by
  cases counts with
  | nil =>
    obtain ⟨_, hresult, -⟩ := hzero
    cases hresult
  | cons first rest =>
    rw [pieces_cons] at hzero ⊢
    by_cases hempty : procMsg.strlen = 0
    · have hmessage : procMsg.message = [] := List.eq_nil_of_length_eq_zero hempty
      simp [deliveredBytes, hempty, hmessage]
    · cases rest with
      | nil =>
        obtain ⟨result, hresult, hret⟩ := hzero
        rw [outputs, List.mem_singleton] at hresult
        rw [hresult] at hret
        exact absurd (Int.natCast_eq_zero.mp hret) hempty
      | cons second rest =>
        have htake : procMsg.message.take procMsg.strlen = procMsg.message := List.take_length
        rw [outputs, pieceResult_of_set rfl]
        simp [deliveredBytes, hempty, htake]

/-! ### Exactly when the law holds -/

/-- For every message and every sequence of counts, the pieces obey the law if and only if every
other count, from the first one on, is at least the length of the message. -/
theorem piecesLaw_iff (procMsg : ProcMsg) (counts : List ℕ) :
    PiecesLaw procMsg counts ↔
      ∀ index count, counts[2 * index]? = some count → procMsg.strlen ≤ count := by
  rw [← along_within_count_iff procMsg counts 0]
  exact ⟨PiecesLaw.within_count, fun hwithin ↦ ⟨hwithin, deliveredBytes_pieces procMsg counts⟩⟩

/-- One byte asked for, and fourteen copied and returned. -/
theorem not_piecesLaw_single : ¬ PiecesLaw ProcModule.loaded.procMsg [1, 1] := by
  rintro ⟨hwithin, -⟩
  exact absurd hwithin.1.1 (by decide +kernel)

end KernelExperiments.ProcMessage
