import KernelExperiments.Foundation.Interleaving
import KernelExperiments.Myfs.FileOperations

/-!
# Concurrent writers of myfs

`myfs_file_write` takes no lock. `kfifo_from_user` goes in three steps: it takes the positions `in`
and `out`, copies as many bytes as there is room for to `in`, and advances `in` by their number;
`kfifo_to_user` does the same on the other side. `ConcurrentLaw` is what the return values promise:
the bytes that were delivered, followed by those that are queued, are a merge of the bytes that the
calls have reported as written, and never more than 64 bytes are queued.

One writer and one reader keep the law without a lock, for each moves a position of its own. Two
writers that have both taken `in` write to the same slots and then advance twice, and bytes are lost
(`not_concurrentLaw_twoWriters`). `concurrentWriters_law` says that nothing else goes wrong: every
interleaving of any number of writes and a reader keeps the law if no write sets out to move bytes
while another is between taking its positions and advancing.

## Scope

The user copies do not fault. The positions grow without bound, where the kfifo counts them modulo
2^32, a multiple of 64; the room is the unsigned difference that the kfifo computes. When more than
64 bytes are queued the law has failed, and what a copy then does to the memory behind the ring is
not modelled.
-/

set_option autoImplicit false
set_option relaxedAutoImplicit false

namespace KernelExperiments.Myfs

open Foundation

/-! ### The steps of the calls -/

/-- Where a call of `myfs_file_write` is: before its first step, with the positions it has taken,
with the number of bytes it has copied, or returned. -/
inductive WriterPc
  | start
  | copy (head tail : ℕ)
  | advance (length : ℕ)
  | returned (length : ℕ)

/-- Where the reader is: between two calls of `myfs_file_read`, in one with the positions it has
taken, or in one with the bytes it has copied to the user. -/
inductive ReaderPc
  | idle
  | copy (count head tail : ℕ)
  | advance (bytes : List UInt8)

/-- `mydemo_fifo` and the calls that use it. `delivered` are the bytes that the calls of
`myfs_file_read` have returned. -/
structure SharedFifo where
  ring : Ring UInt8 64
  writer : ℕ → WriterPc
  reader : ReaderPc
  delivered : List UInt8

/-- The module is loaded, and no call is made yet. -/
def SharedFifo.loaded : SharedFifo where
  ring := ⟨fun _ ↦ 0, 0, 0⟩
  writer := fun _ ↦ .start
  reader := .idle
  delivered := []

/-- `kfifo_unused`, a difference of unsigned ints. -/
def kfifoUnused (head tail : ℕ) : ℕ := (64#32 - BitVec.ofNat 32 (tail - head)).toNat

/-- The bytes that a write of `data` moves when it has taken the positions. -/
def bytesToMove (data : List UInt8) (head tail : ℕ) : List UInt8 :=
  data.take (kfifoUnused head tail)

/-- A turn of a call of `myfs_file_write`, or of the reader, who calls `myfs_file_read` with a count
when it is not in a call. -/
inductive Turn
  | write (call : ℕ)
  | read (count : ℕ)

/-- A step of a call of `myfs_file_write` with the bytes `data`. -/
def writeNext (data : List UInt8) (call : ℕ) (shared : SharedFifo) : Option SharedFifo :=
  match shared.writer call with
  | .start =>
    some { shared with
      writer := Function.update shared.writer call (.copy shared.ring.head shared.ring.tail) }
  | .copy head tail =>
    some { shared with
      ring := { shared.ring with
        slots := store shared.ring.slots tail (bytesToMove data head tail) }
      writer :=
        Function.update shared.writer call (.advance (bytesToMove data head tail).length) }
  | .advance length =>
    some { shared with
      ring := { shared.ring with tail := shared.ring.tail + length }
      writer := Function.update shared.writer call (.returned length) }
  | .returned _ => none

/-- A step of the reader. -/
def readNext (count : ℕ) (shared : SharedFifo) : SharedFifo :=
  match shared.reader with
  | .idle => { shared with reader := .copy count shared.ring.head shared.ring.tail }
  | .copy count head tail =>
    { shared with
      reader := .advance (window shared.ring.slots head (min count (tail - head))) }
  | .advance bytes =>
    { shared with
      ring := { shared.ring with head := shared.ring.head + bytes.length }
      reader := .idle
      delivered := shared.delivered ++ bytes }

/-- A step of a call, where the call numbered `call` writes the bytes `data call`. -/
def fifoNext (data : ℕ → List UInt8) (shared : SharedFifo) : Turn → Option SharedFifo
  | .write call => writeNext (data call) call shared
  | .read count => some (readNext count shared)

/-! ### The law and the condition -/

/-- The bytes in the queue. -/
def SharedFifo.queued (shared : SharedFifo) : List UInt8 :=
  window shared.ring.slots shared.ring.head (shared.ring.tail - shared.ring.head)

/-- The bytes that a call has reported as written: as many as it has returned. -/
def WriterPc.accepted (data : List UInt8) : WriterPc → List UInt8
  | .returned length => data.take length
  | .start | .copy _ _ | .advance _ => []

/-- The bytes with the given tag. -/
def tagged (call : ℕ) (bytes : List (ℕ × UInt8)) : List UInt8 :=
  (bytes.filter fun byte ↦ byte.1 = call).map Prod.snd

/-- Never more than 64 bytes are queued, and the bytes delivered and queued can be given each to a
call so that every call has those that it has reported as written, in their order. -/
structure ConcurrentLaw (data : ℕ → List UInt8) (shared : SharedFifo) : Prop where
  head_le_tail : shared.ring.head ≤ shared.ring.tail
  tail_le : shared.ring.tail ≤ shared.ring.head + 64
  delivered_once : ∃ bytes : List (ℕ × UInt8),
    bytes.map Prod.snd = shared.delivered ++ shared.queued ∧
      ∀ call, tagged call bytes = (shared.writer call).accepted (data call)

/-- The call has bytes to move and is between taking its positions and advancing. -/
def WriterPc.Moving (data : List UInt8) : WriterPc → Prop
  | .copy head tail => bytesToMove data head tail ≠ []
  | .advance length => length ≠ 0
  | .start | .returned _ => False

/-- A call that takes its positions with bytes to move does so while no other call is moving
bytes. -/
def Alone (data : ℕ → List UInt8) (shared : SharedFifo) (turn : Turn) : Prop :=
  ∀ call, turn = .write call → shared.writer call = .start →
    bytesToMove (data call) shared.ring.head shared.ring.tail ≠ [] →
      ∀ other, ¬ (shared.writer other).Moving (data other)

/-! ### The invariant -/

/-- What a call has taken or copied fits the ring, if it has bytes to move. -/
def WriterPc.Sound (ring : Ring UInt8 64) (data : List UInt8) : WriterPc → Prop
  | .copy head tail =>
    bytesToMove data head tail ≠ [] → tail = ring.tail ∧ head ≤ ring.head ∧ tail ≤ head + 64
  | .advance length =>
    length ≠ 0 → window ring.slots ring.tail length = data.take length ∧
      ring.tail + length ≤ ring.head + 64
  | .start | .returned _ => True

/-- What the reader has taken or copied is in the queue. -/
def ReaderPc.Sound (ring : Ring UInt8 64) : ReaderPc → Prop
  | .idle => True
  | .copy _ head tail => head = ring.head ∧ head ≤ tail ∧ tail ≤ ring.tail
  | .advance bytes =>
    window ring.slots ring.head bytes.length = bytes ∧ ring.head + bytes.length ≤ ring.tail

/-- At most one call is moving bytes. -/
def OneMoving (data : ℕ → List UInt8) (writer : ℕ → WriterPc) : Prop :=
  ∀ first second, (writer first).Moving (data first) → (writer second).Moving (data second) →
    first = second

/-- The law, with what the calls know and with at most one call that is moving bytes. -/
structure SharedFifo.Invariant (data : ℕ → List UInt8) (shared : SharedFifo) : Prop
    extends ConcurrentLaw data shared where
  writer_sound : ∀ call, (shared.writer call).Sound shared.ring (data call)
  reader_sound : shared.reader.Sound shared.ring
  one_moving : OneMoving data shared.writer

variable {data : ℕ → List UInt8} {shared final : SharedFifo}

/-- The room in a queue of at most 64 bytes. -/
theorem kfifoUnused_eq {head tail : ℕ} (hle : tail ≤ head + 64) :
    kfifoUnused head tail = 64 - (tail - head) := by
  have hsize : tail - head ≤ 64 := by omega
  unfold kfifoUnused
  rw [BitVec.toNat_sub, BitVec.toNat_ofNat, BitVec.toNat_ofNat]
  omega

/-! ### Calls that nothing interrupts -/

/-- The three steps of a write in a row are the write of one call. -/
theorem run_write (data : ℕ → List UInt8) (shared : SharedFifo) (fifo : Kfifo) {call : ℕ}
    (hring : shared.ring = fifo.toRing) (hpc : shared.writer call = .start) :
    run (attempt (fifoNext data)) shared [.write call, .write call, .write call] =
      { shared with
        ring := (myfsFileWrite fifo (data call) none).fifo.toRing
        writer := Function.update shared.writer call
          (.returned (myfsFileWrite fifo (data call) none).ret.toNat) } := by
  have hroom : kfifoUnused shared.ring.head shared.ring.tail = fifo.room := by
    rw [hring]
    exact kfifoUnused_eq fifo.tail_le
  have hmoved : bytesToMove (data call) shared.ring.head shared.ring.tail =
      ((data call).take (min (data call).length fifo.room)).take fifo.room := by
    rw [bytesToMove, hroom, List.take_take, Nat.min_comm (data call).length,
      ← Nat.min_assoc, Nat.min_self, ← List.take_eq_take_min]
  have hlength : (bytesToMove (data call) shared.ring.head shared.ring.tail).length =
      min (data call).length fifo.room := by
    rw [bytesToMove, hroom, List.length_take, Nat.min_comm]
  have hfifo : (fifo.enqueue ((data call).take (min (data call).length fifo.room))).toRing =
      ⟨store shared.ring.slots shared.ring.tail
        (bytesToMove (data call) shared.ring.head shared.ring.tail), shared.ring.head,
        shared.ring.tail + (bytesToMove (data call) shared.ring.head shared.ring.tail).length⟩ := by
    rw [hmoved, hring]
    rfl
  rw [myfsFileWrite_none, hfifo, Int.toNat_natCast, ← hlength]
  simp only [run_cons, run_nil, attempt, fifoNext, writeNext, hpc, Option.getD_some,
    Function.update_self, Function.update_idem]

/-- The three steps of a read in a row are the read of one call. -/
theorem run_read (data : ℕ → List UInt8) (shared : SharedFifo) (fifo : Kfifo) (count : ℕ)
    (hring : shared.ring = fifo.toRing) (hidle : shared.reader = .idle) :
    run (attempt (fifoNext data)) shared [.read count, .read count, .read count] =
      { shared with
        ring := (myfsFileRead fifo count none).fifo.toRing
        delivered := shared.delivered ++ (myfsFileRead fifo count none).buffer } := by
  have hfifo : (fifo.dequeue (min count fifo.used)).toRing =
      ⟨shared.ring.slots, shared.ring.head + min count fifo.used, shared.ring.tail⟩ := by
    have hmoved : min (min count fifo.used) fifo.used = min count fifo.used := by
      rw [Nat.min_assoc, Nat.min_self]
    have hdequeue : (fifo.dequeue (min count fifo.used)).toRing =
        ⟨fifo.slots, fifo.head + min (min count fifo.used) fifo.used, fifo.tail⟩ := rfl
    rw [hring, hdequeue, hmoved]
  have hfront : fifo.front (min count fifo.used) =
      window shared.ring.slots shared.ring.head (min count fifo.used) := by
    rw [hring, Fifo.front, Nat.min_assoc, Nat.min_self]
  have hused : shared.ring.tail - shared.ring.head = fifo.used := by
    rw [hring]
    rfl
  rw [myfsFileRead_none, hfifo, hfront]
  simp only [run_cons, run_nil, attempt, fifoNext, readNext, hidle, Option.getD_some,
    length_window, hused]

/-- A call that has no bytes to move fits every ring. -/
theorem WriterPc.Sound.of_not_moving {bytes : List UInt8} {pc : WriterPc}
    (hmoving : ¬ pc.Moving bytes) (ring : Ring UInt8 64) : pc.Sound ring bytes := by
  cases pc with
  | start => trivial
  | copy head tail => exact fun hbytes ↦ absurd hbytes hmoving
  | advance length => exact fun hlength ↦ absurd hlength hmoving
  | returned length => trivial

/-- What a call has taken or copied still fits when bytes are taken out of the queue. -/
theorem WriterPc.Sound.consumed {ring : Ring UInt8 64} {bytes : List UInt8} {pc : WriterPc}
    (hsound : pc.Sound ring bytes) (count : ℕ) :
    pc.Sound ⟨ring.slots, ring.head + count, ring.tail⟩ bytes := by
  cases pc with
  | start => trivial
  | returned length => trivial
  | copy head tail =>
    intro hbytes
    obtain ⟨htail, hhead, hnear⟩ := hsound hbytes
    exact ⟨htail, Nat.le_trans hhead (Nat.le_add_right _ _), hnear⟩
  | advance length =>
    intro hlength
    obtain ⟨hcopied, hfits⟩ := hsound hlength
    refine ⟨hcopied, Nat.le_trans hfits ?_⟩
    exact Nat.add_le_add_right (Nat.le_add_right _ _) 64

/-- What the reader has taken or copied is still in the queue when bytes are put behind it, whatever
the slots behind the queue hold. -/
theorem ReaderPc.Sound.extended {ring : Ring UInt8 64} {pc : ReaderPc} (hsound : pc.Sound ring)
    {slots : Fin 64 → UInt8} {tail : ℕ} (htail : ring.tail ≤ tail)
    (hkept : ∀ count, ring.head + count ≤ ring.tail →
      window slots ring.head count = window ring.slots ring.head count) :
    pc.Sound ⟨slots, ring.head, tail⟩ := by
  cases pc with
  | idle => trivial
  | copy count head taken => exact ⟨hsound.1, hsound.2.1, Nat.le_trans hsound.2.2 htail⟩
  | advance bytes =>
    exact ⟨(hkept _ hsound.2).trans hsound.1, Nat.le_trans hsound.2 htail⟩

theorem tagged_append (call : ℕ) (first second : List (ℕ × UInt8)) :
    tagged call (first ++ second) = tagged call first ++ tagged call second := by
  rw [tagged, List.filter_append, List.map_append]
  rfl

theorem tagged_map_self (call : ℕ) (bytes : List UInt8) :
    tagged call (bytes.map fun byte ↦ (call, byte)) = bytes := by
  have hall : ∀ byte ∈ bytes.map fun byte ↦ (call, byte), decide (byte.1 = call) = true := by
    intro byte hbyte
    obtain ⟨_, _, rfl⟩ := List.mem_map.mp hbyte
    exact decide_eq_true rfl
  rw [tagged, List.filter_eq_self.mpr hall, List.map_map]
  exact List.map_id bytes

theorem tagged_map_of_ne {call tag : ℕ} (hne : call ≠ tag) (bytes : List UInt8) :
    tagged call (bytes.map fun byte ↦ (tag, byte)) = [] := by
  have hnone : ∀ byte ∈ bytes.map fun byte ↦ (tag, byte), ¬ decide (byte.1 = call) = true := by
    intro byte hbyte
    obtain ⟨_, _, rfl⟩ := List.mem_map.mp hbyte
    exact fun heq ↦ hne (of_decide_eq_true heq).symm
  rw [tagged, List.filter_eq_nil_iff.mpr hnone]
  rfl

theorem invariant_loaded (data : ℕ → List UInt8) : SharedFifo.loaded.Invariant data where
  head_le_tail := Nat.le_refl 0
  tail_le := Nat.zero_le _
  delivered_once := ⟨[], rfl, fun _ ↦ rfl⟩
  writer_sound := fun _ ↦ trivial
  reader_sound := trivial
  one_moving := fun _ _ hmoving ↦ hmoving.elim

/-- A call that moves on is alone if no other call is moving bytes when it is. -/
theorem OneMoving.update {writer : ℕ → WriterPc} (hone : OneMoving data writer) {call : ℕ}
    {pc : WriterPc} (hothers : pc.Moving (data call) → ∀ other, other ≠ call →
      ¬ (writer other).Moving (data other)) : OneMoving data (Function.update writer call pc) := by
  have hmoving : ∀ other, (Function.update writer call pc other).Moving (data other) →
      other = call ∧ pc.Moving (data call) ∨ other ≠ call ∧ (writer other).Moving (data other) :=
    forall_update writer call pc (fun other pc' ↦ pc'.Moving (data other) →
      other = call ∧ pc.Moving (data call) ∨ other ≠ call ∧ (writer other).Moving (data other))
      (fun hself ↦ Or.inl ⟨rfl, hself⟩) fun other hne hother ↦ Or.inr ⟨hne, hother⟩
  intro first second hfirst hsecond
  rcases hmoving first hfirst with ⟨hsame, hself⟩ | ⟨hne, hbefore⟩
  · rcases hmoving second hsecond with ⟨hsame', -⟩ | ⟨hne, hbefore⟩
    · rw [hsame, hsame']
    · exact absurd hbefore (hothers hself second hne)
  · rcases hmoving second hsecond with ⟨-, hself⟩ | ⟨-, hbefore'⟩
    · exact absurd hbefore (hothers hself first hne)
    · exact hone first second hbefore hbefore'

/-! ### What the steps keep -/

/-- A step in which a call accepts nothing more keeps the bytes of all calls where they are. -/
theorem forall_tagged_update {bytes : List (ℕ × UInt8)}
    (htags : ∀ call, tagged call bytes = (shared.writer call).accepted (data call)) {call : ℕ}
    {next : WriterPc} (hsame : (shared.writer call).accepted (data call) =
      next.accepted (data call)) :
    ∀ other, tagged other bytes =
      (Function.update shared.writer call next other).accepted (data other) := by
  refine forall_update shared.writer call next
    (fun other pc ↦ tagged other bytes = pc.accepted (data other)) ?_ fun other _ ↦ htags other
  exact (htags call).trans hsame

/-- A call takes its positions. -/
theorem SharedFifo.Invariant.take (hinv : shared.Invariant data) {call : ℕ}
    (hpc : shared.writer call = .start) (halone : Alone data shared (.write call)) :
    SharedFifo.Invariant data { shared with
      writer := Function.update shared.writer call (.copy shared.ring.head shared.ring.tail) } := by
  obtain ⟨bytes, hbytes, htags⟩ := hinv.delivered_once
  have hothers : bytesToMove (data call) shared.ring.head shared.ring.tail ≠ [] →
      ∀ other, ¬ (shared.writer other).Moving (data other) := halone call rfl hpc
  refine { hinv with delivered_once := ⟨bytes, hbytes, ?_⟩, writer_sound := ?_, one_moving := ?_ }
  · exact forall_tagged_update htags (by rw [hpc]; rfl)
  · refine forall_update shared.writer call _
      (fun other pc ↦ pc.Sound shared.ring (data other)) ?_ fun other _ ↦ hinv.writer_sound other
    exact fun _ ↦ ⟨rfl, Nat.le_refl _, hinv.tail_le⟩
  · exact hinv.one_moving.update fun hmoving other _ ↦ hothers hmoving other

/-- A copy that fits leaves the queue alone and puts the bytes behind it. -/
theorem copy_facts {bytes : List UInt8} {head tail : ℕ} (hinv : shared.Invariant data)
    (hsound : WriterPc.Sound shared.ring bytes (.copy head tail)) :
    (∀ count, shared.ring.head + count ≤ shared.ring.tail →
      window (store shared.ring.slots tail (bytesToMove bytes head tail)) shared.ring.head count =
        window shared.ring.slots shared.ring.head count) ∧
    ((bytesToMove bytes head tail).length ≠ 0 →
      window (store shared.ring.slots tail (bytesToMove bytes head tail)) shared.ring.tail
          (bytesToMove bytes head tail).length =
        bytes.take (bytesToMove bytes head tail).length ∧
      shared.ring.tail + (bytesToMove bytes head tail).length ≤ shared.ring.head + 64) := by
  by_cases hempty : bytesToMove bytes head tail = []
  · rw [hempty]
    exact ⟨fun _ _ ↦ rfl, fun hlength ↦ absurd rfl hlength⟩
  · obtain ⟨rfl, hhead, htail⟩ := hsound hempty
    have hroom : (bytesToMove bytes head shared.ring.tail).length ≤
        64 - (shared.ring.tail - head) := by
      rw [bytesToMove, kfifoUnused_eq htail]
      exact List.length_take_le _ _
    have hordered := hinv.head_le_tail
    have hfits : shared.ring.tail + (bytesToMove bytes head shared.ring.tail).length ≤
        shared.ring.head + 64 := by omega
    refine ⟨fun count hcount ↦ window_store_of_outside _ hcount hfits, fun _ ↦ ⟨?_, hfits⟩⟩
    rw [window_store _ _ (by omega), bytesToMove, List.length_take, ← List.take_eq_take_min]

/-- What a call has copied is behind the queue and fits. -/
theorem advance_facts {bytes : List UInt8} {length : ℕ} (hinv : shared.Invariant data)
    (hsound : WriterPc.Sound shared.ring bytes (.advance length)) :
    window shared.ring.slots shared.ring.tail length = bytes.take length ∧
      shared.ring.tail + length ≤ shared.ring.head + 64 := by
  by_cases hzero : length = 0
  · rw [hzero]
    exact ⟨rfl, hinv.tail_le⟩
  · exact hsound hzero

/-- A call copies its bytes: behind the queue, and where no other call has bytes. -/
theorem SharedFifo.Invariant.copy (hinv : shared.Invariant data) {call head tail : ℕ}
    (hpc : shared.writer call = .copy head tail) :
    SharedFifo.Invariant data { shared with
      ring := { shared.ring with
        slots := store shared.ring.slots tail (bytesToMove (data call) head tail) }
      writer := Function.update shared.writer call
        (.advance (bytesToMove (data call) head tail).length) } := by
  obtain ⟨bytes, hbytes, htags⟩ := hinv.delivered_once
  have hsound := hinv.writer_sound call
  rw [hpc] at hsound
  obtain ⟨hkept, hnew⟩ := copy_facts hinv hsound
  have hqueued : shared.ring.head + (shared.ring.tail - shared.ring.head) ≤ shared.ring.tail :=
    Nat.le_of_eq (Nat.add_sub_cancel' hinv.head_le_tail)
  have hothers : bytesToMove (data call) head tail ≠ [] → ∀ other, other ≠ call →
      ¬ (shared.writer other).Moving (data other) := by
    intro hmoves other hne hmoving
    refine hne (hinv.one_moving other call hmoving ?_)
    rw [hpc]
    exact hmoves
  refine { hinv with
    delivered_once := ⟨bytes, ?_, ?_⟩, writer_sound := ?_, reader_sound := ?_, one_moving := ?_ }
  · rw [hbytes]
    exact congrArg _ (hkept _ hqueued).symm
  · exact forall_tagged_update htags (by rw [hpc]; rfl)
  · refine forall_update shared.writer call _
      (fun other pc ↦ pc.Sound
        ⟨store shared.ring.slots tail (bytesToMove (data call) head tail), shared.ring.head,
          shared.ring.tail⟩ (data other)) hnew fun other hne ↦ ?_
    by_cases hempty : bytesToMove (data call) head tail = []
    · rw [hempty]
      exact hinv.writer_sound other
    · exact WriterPc.Sound.of_not_moving (hothers hempty other hne) _
  · exact hinv.reader_sound.extended (Nat.le_refl _) hkept
  · exact hinv.one_moving.update fun hmoving ↦
      hothers fun hempty ↦ hmoving (congrArg List.length hempty)

/-- A call advances: its bytes join the queue. -/
theorem SharedFifo.Invariant.advance (hinv : shared.Invariant data) {call length : ℕ}
    (hpc : shared.writer call = .advance length) :
    SharedFifo.Invariant data { shared with
      ring := { shared.ring with tail := shared.ring.tail + length }
      writer := Function.update shared.writer call (.returned length) } := by
  obtain ⟨bytes, hbytes, htags⟩ := hinv.delivered_once
  have hsound := hinv.writer_sound call
  have htag := htags call
  rw [hpc] at hsound htag
  obtain ⟨hcopied, hfits⟩ := advance_facts hinv hsound
  have hordered := hinv.head_le_tail
  have hqueued : window shared.ring.slots shared.ring.head
      (shared.ring.tail + length - shared.ring.head) =
        shared.queued ++ (data call).take length := by
    have hsplit : shared.ring.tail + length - shared.ring.head =
        shared.ring.tail - shared.ring.head + length := by omega
    rw [hsplit, window_add, Nat.add_sub_cancel' hordered, hcopied]
    rfl
  refine {
    head_le_tail := Nat.le_trans hordered (Nat.le_add_right _ _)
    tail_le := hfits
    delivered_once := ⟨bytes ++ ((data call).take length).map fun byte ↦ (call, byte), ?_, ?_⟩
    writer_sound := ?_
    reader_sound := ?_
    one_moving := hinv.one_moving.update fun hmoving ↦ hmoving.elim }
  · rw [List.map_append, hbytes, List.map_map, List.append_assoc]
    refine congrArg (shared.delivered ++ ·) (Eq.trans ?_ hqueued.symm)
    exact congrArg (shared.queued ++ ·) (List.map_id _)
  · refine forall_update shared.writer call _
      (fun other pc ↦
        tagged other (bytes ++ ((data call).take length).map fun byte ↦ (call, byte)) =
          pc.accepted (data other)) ?_ fun other hne ↦ ?_
    · rw [tagged_append, tagged_map_self, htag]
      rfl
    · rw [tagged_append, tagged_map_of_ne hne, List.append_nil]
      exact htags other
  · refine forall_update shared.writer call _
      (fun other pc ↦ pc.Sound
        ⟨shared.ring.slots, shared.ring.head, shared.ring.tail + length⟩ (data other)) trivial
      fun other hne ↦ ?_
    by_cases hzero : length = 0
    · rw [hzero]
      exact hinv.writer_sound other
    · refine WriterPc.Sound.of_not_moving (fun hmoving ↦ hne ?_) _
      refine hinv.one_moving other call hmoving ?_
      rw [hpc]
      exact hzero
  · exact hinv.reader_sound.extended (Nat.le_add_right _ _) fun _ _ ↦ rfl

/-- A step of the reader: what it returns leaves the front of the queue. -/
theorem SharedFifo.Invariant.read (hinv : shared.Invariant data) (count : ℕ) :
    (readNext count shared).Invariant data := by
  have hreader := hinv.reader_sound
  have hordered := hinv.head_le_tail
  unfold readNext
  cases hpos : shared.reader with
  | idle =>
    exact { hinv with reader_sound := ⟨rfl, hordered, Nat.le_refl _⟩ }
  | copy count head tail =>
    rw [hpos] at hreader
    obtain ⟨rfl, hle, htail⟩ := hreader
    refine { hinv with reader_sound := ?_ }
    refine ⟨by rw [length_window], ?_⟩
    rw [length_window]
    show shared.ring.head + _ ≤ shared.ring.tail
    omega
  | advance taken =>
    rw [hpos] at hreader
    obtain ⟨hwindow, htaken⟩ := hreader
    obtain ⟨bytes, hbytes, htags⟩ := hinv.delivered_once
    refine { hinv with
      head_le_tail := htaken, tail_le := ?_, delivered_once := ⟨bytes, ?_, htags⟩,
      writer_sound := ?_, reader_sound := trivial }
    · have hnear := hinv.tail_le
      show shared.ring.tail ≤ shared.ring.head + taken.length + 64
      omega
    · have hsplit : shared.ring.tail - shared.ring.head =
          taken.length + (shared.ring.tail - (shared.ring.head + taken.length)) := by omega
      rw [hbytes, SharedFifo.queued, hsplit, window_add, hwindow, ← List.append_assoc]
      rfl
    · exact fun call ↦ (hinv.writer_sound call).consumed taken.length

/-! ### The law along a run -/

/-- A turn keeps the invariant if no two calls move bytes at once. -/
theorem invariant_attempt (data : ℕ → List UInt8) (shared : SharedFifo) (turn : Turn)
    (hinv : shared.Invariant data) (halone : Alone data shared turn) :
    (attempt (fifoNext data) shared turn).Invariant data := by
  cases turn with
  | read count =>
    have hnext : fifoNext data shared (.read count) = some (readNext count shared) := rfl
    rw [attempt_of_some hnext]
    exact hinv.read count
  | write call =>
    cases hpc : shared.writer call with
    | start =>
      rw [attempt_of_some (by simp only [fifoNext, writeNext, hpc]; rfl)]
      exact hinv.take hpc halone
    | copy head tail =>
      rw [attempt_of_some (by simp only [fifoNext, writeNext, hpc]; rfl)]
      exact hinv.copy hpc
    | advance length =>
      rw [attempt_of_some (by simp only [fifoNext, writeNext, hpc]; rfl)]
      exact hinv.advance hpc
    | returned length =>
      rw [attempt_of_none (by simp only [fifoNext, writeNext, hpc])]
      exact hinv

/-- Every interleaving of any number of writes with one reader in which no call takes its positions
while another is moving bytes keeps the law: in each of its states, the bytes delivered and queued
are a merge of those that the calls have reported as written. -/
theorem concurrentWriters_law (data : ℕ → List UInt8) {schedule : List Turn}
    (halone : Along (attempt (fifoNext data)) (Alone data) SharedFifo.loaded schedule) :
    Along (attempt (fifoNext data))
      (fun shared turn ↦ ConcurrentLaw data (attempt (fifoNext data) shared turn))
      SharedFifo.loaded schedule :=
  along_of_invariant (invariant_attempt data)
    (fun shared turn hinv halone ↦
      (invariant_attempt data shared turn hinv halone).toConcurrentLaw)
    (invariant_loaded data) halone

/-- While the law holds, a read that asks for 64 bytes delivers what is queued. -/
theorem ConcurrentLaw.delivered_run_read (hlaw : ConcurrentLaw data shared)
    (hidle : shared.reader = .idle) {count : ℕ} (hcount : 64 ≤ count) :
    (run (attempt (fifoNext data)) shared [.read count, .read count, .read count]).delivered =
      shared.delivered ++ shared.queued := by
  obtain ⟨fifo, hfifo⟩ : ∃ fifo : Kfifo, shared.ring = fifo.toRing :=
    ⟨⟨shared.ring, hlaw.head_le_tail, hlaw.tail_le⟩, rfl⟩
  have hused : fifo.used ≤ count := Nat.le_trans fifo.used_le_size hcount
  have hfront : fifo.front fifo.used = shared.queued := by
    rw [Fifo.front, Nat.min_self, SharedFifo.queued, hfifo]
    rfl
  rw [run_read data shared fifo count hfifo hidle, myfsFileRead_none, Nat.min_eq_right hused,
    hfront]

/-- Two calls, of one byte each. -/
def twoWrites (call : ℕ) : List UInt8 := if call = 0 then [97] else [98]

/-- Writes that follow each other keep the law. -/
theorem twoWrites_inTurn :
    Along (attempt (fifoNext twoWrites))
      (fun shared turn ↦ ConcurrentLaw twoWrites (attempt (fifoNext twoWrites) shared turn))
      SharedFifo.loaded
      [.write 0, .read 64, .write 0, .write 0, .write 1, .read 64, .write 1, .write 1] := by
  have hread : ∀ shared : SharedFifo, Alone twoWrites shared (.read 64) := fun _ ↦ nofun
  have hgoes : ∀ (shared : SharedFifo) (call : ℕ), shared.writer call ≠ .start →
      Alone twoWrites shared (.write call) := by
    intro shared call hpc other hturn hstart
    cases hturn
    exact absurd hstart hpc
  refine concurrentWriters_law twoWrites
    ⟨?_, hread _, hgoes _ 0 nofun, hgoes _ 0 nofun, ?_, hread _, hgoes _ 1 nofun, hgoes _ 1 nofun,
      trivial⟩
  · intro call _ _ _ other
    exact id
  · intro call _ _ _ other
    cases other <;> exact id

/-- Both calls take their positions before one of them advances: the first byte is lost. -/
theorem not_concurrentLaw_twoWriters :
    ¬ ConcurrentLaw twoWrites (run (attempt (fifoNext twoWrites)) SharedFifo.loaded
      [.write 0, .write 1, .write 0, .write 1, .write 0, .write 1]) := by
  rintro ⟨-, -, bytes, hbytes, htags⟩
  have hfirst : tagged 0 bytes = [97] := htags 0
  have hqueued : bytes.map Prod.snd = [98, 0] := hbytes
  have hmem : (97 : UInt8) ∈ tagged 0 bytes := by rw [hfirst]; exact List.mem_singleton.mpr rfl
  obtain ⟨byte, hbyte, hvalue⟩ := List.mem_map.mp hmem
  have hlost : (97 : UInt8) ∈ bytes.map Prod.snd :=
    List.mem_map.mpr ⟨byte, (List.mem_filter.mp hbyte).1, hvalue⟩
  rw [hqueued] at hlost
  exact absurd hlost (by decide)

end KernelExperiments.Myfs
