import Mathlib.Data.Fin.Basic
import Mathlib.Data.Nat.ModEq
import Mathlib.Logic.Function.Basic

/-!
# A queue in a ring of slots

A ring of `size` slots with two positions that only grow: elements are put in at `tail` and taken
out at `head`, and position `p` is slot `p % size`. `window slots position count` reads consecutive
positions and `store slots position elements` writes them, each as if the ring had no end; what a
store leaves alone and what it puts there are `window_store_of_outside` and `window_store`.

`Fifo` is a ring whose positions are in order and at most `size` apart. It is a bounded queue: on
its `contents`, `enqueue` appends what there is room for (`Fifo.contents_enqueue`) and `dequeue`
drops from the front (`Fifo.contents_dequeue`), and `front` reads what the next `dequeue` drops
(`Fifo.front_eq`).
-/

set_option autoImplicit false
set_option relaxedAutoImplicit false

namespace KernelExperiments.Foundation

variable {α : Type*} {size : ℕ}

/-! ### Slots and windows -/

/-- The slot of a position. -/
def slot (size : ℕ) [NeZero size] (position : ℕ) : Fin size := Fin.ofNat size position

/-- The elements at `count` consecutive positions. -/
def window [NeZero size] (slots : Fin size → α) (position : ℕ) : ℕ → List α
  | 0 => []
  | count + 1 => slots (slot size position) :: window slots (position + 1) count

/-- The slots after a list is written at consecutive positions. -/
def store [NeZero size] (slots : Fin size → α) (position : ℕ) : List α → Fin size → α
  | [] => slots
  | element :: rest =>
    store (Function.update slots (slot size position) element) (position + 1) rest

variable [NeZero size]

/-- Positions less than `size` apart have different slots. -/
theorem slot_ne {first second : ℕ} (hlt : first < second) (hnear : second < first + size) :
    slot size first ≠ slot size second := by
  intro hslot
  have hmod : first % size = second % size := congrArg Fin.val hslot
  have hdvd : size ∣ second - first := (Nat.modEq_iff_dvd' (Nat.le_of_lt hlt)).mp hmod
  have hle := Nat.le_of_dvd (by omega) hdvd
  omega

@[simp] theorem length_window (slots : Fin size → α) (position count : ℕ) :
    (window slots position count).length = count := by
  induction count generalizing position with
  | zero => rfl
  | succ count ih => simp only [window, List.length_cons, ih]

/-- A window in two parts. -/
theorem window_add (slots : Fin size → α) (position first second : ℕ) :
    window slots position (first + second) =
      window slots position first ++ window slots (position + first) second := by
  induction first generalizing position with
  | zero => rw [Nat.zero_add, Nat.add_zero]; rfl
  | succ first ih =>
    rw [Nat.add_right_comm]
    simp only [window, ih, List.cons_append]
    rw [Nat.add_right_comm position 1 first, Nat.add_assoc position first 1]

/-- A window of which only the first elements are wanted. -/
theorem take_window (slots : Fin size → α) (position : ℕ) {first count : ℕ} (hle : first ≤ count) :
    (window slots position count).take first = window slots position first := by
  obtain ⟨rest, rfl⟩ := Nat.exists_eq_add_of_le hle
  rw [window_add, List.take_append_of_le_length (by rw [length_window]), List.take_of_length_le]
  rw [length_window]

/-- A window without its first elements. -/
theorem drop_window (slots : Fin size → α) (position : ℕ) {first count : ℕ} (hle : first ≤ count) :
    (window slots position count).drop first =
      window slots (position + first) (count - first) := by
  obtain ⟨rest, rfl⟩ := Nat.exists_eq_add_of_le hle
  rw [window_add, List.drop_left' (length_window slots position first), Nat.add_sub_cancel_left]

/-- A store behind a window, less than a turn of the ring away, leaves the window alone. -/
theorem window_store_of_outside (slots : Fin size → α) {position count target : ℕ}
    {elements : List α} (hbehind : position + count ≤ target)
    (hnear : target + elements.length ≤ position + size) :
    window (store slots target elements) position count = window slots position count := by
  have hupdate : ∀ (slots : Fin size → α) (element : α) (target position count : ℕ),
      position + count ≤ target → target < position + size →
        window (Function.update slots (slot size target) element) position count =
          window slots position count := by
    intro slots element target position count hbehind hnear
    induction count generalizing position with
    | zero => rfl
    | succ count ih =>
      have hne : slot size position ≠ slot size target := slot_ne (by omega) hnear
      simp only [window, Function.update_of_ne hne]
      rw [ih (position + 1) (by omega) (by omega)]
  induction elements generalizing slots target with
  | nil => rfl
  | cons element rest ih =>
    rw [List.length_cons] at hnear
    rw [store, ih _ (by omega) (by omega), hupdate slots element target _ _ hbehind (by omega)]

/-- What was stored, if it goes around the ring at most once, is what is read. -/
theorem window_store (slots : Fin size → α) (position : ℕ) {elements : List α}
    (hlength : elements.length ≤ size) :
    window (store slots position elements) position elements.length = elements := by
  induction elements generalizing slots position with
  | nil => rfl
  | cons element rest ih =>
    rw [List.length_cons] at hlength
    have hfirst : window (store slots position (element :: rest)) position 1 = [element] := by
      rw [store, window_store_of_outside _ (Nat.le_refl _) (by omega)]
      simp only [window, Function.update_self]
    have hrest : window (store slots position (element :: rest)) (position + 1) rest.length =
        rest := ih _ (position + 1) (by omega)
    rw [List.length_cons, Nat.add_comm, window_add, hfirst, hrest]
    rfl

/-! ### The ring -/

omit [NeZero size] in
/-- A ring of slots with the positions at which the next element is taken out and put in. -/
structure Ring (α : Type*) (size : ℕ) where
  slots : Fin size → α
  head : ℕ
  tail : ℕ

/-- A ring whose positions are in order and at most `size` apart. -/
structure Fifo (α : Type*) (size : ℕ) extends Ring α size where
  head_le_tail : head ≤ tail
  tail_le : tail ≤ head + size

namespace Fifo

/-- A queue with nothing in it. -/
def empty (size : ℕ) (filler : α) : Fifo α size where
  slots := fun _ ↦ filler
  head := 0
  tail := 0
  head_le_tail := Nat.le_refl 0
  tail_le := Nat.zero_le _

/-- The number of elements in the queue. -/
def used (fifo : Fifo α size) : ℕ := fifo.tail - fifo.head

/-- The number of elements there is room for. -/
def room (fifo : Fifo α size) : ℕ := size - fifo.used

/-- The elements in the queue, the oldest first. -/
def contents (fifo : Fifo α size) : List α := window fifo.slots fifo.head fifo.used

/-- The oldest elements, at most `count`. -/
def front (fifo : Fifo α size) (count : ℕ) : List α :=
  window fifo.slots fifo.head (min count fifo.used)

/-- The queue after elements are put in, as many as there is room for. -/
def enqueue (fifo : Fifo α size) (elements : List α) : Fifo α size where
  slots := store fifo.slots fifo.tail (elements.take fifo.room)
  head := fifo.head
  tail := fifo.tail + (elements.take fifo.room).length
  head_le_tail := Nat.le_trans fifo.head_le_tail (Nat.le_add_right _ _)
  tail_le := by
    have hlength := List.length_take_le fifo.room elements
    have hordered := fifo.head_le_tail
    have hnear := fifo.tail_le
    unfold room used at hlength
    unfold room used
    omega

/-- The queue after elements are taken out, as many as there are. -/
def dequeue (fifo : Fifo α size) (count : ℕ) : Fifo α size where
  slots := fifo.slots
  head := fifo.head + min count fifo.used
  tail := fifo.tail
  head_le_tail := by
    have hordered := fifo.head_le_tail
    unfold used
    omega
  tail_le := by
    have hnear := fifo.tail_le
    omega

/-! ### The queue of the contents -/

omit [NeZero size] in
theorem used_le_size (fifo : Fifo α size) : fifo.used ≤ size := by
  have hnear := fifo.tail_le
  unfold used
  omega

@[simp] theorem length_contents (fifo : Fifo α size) : fifo.contents.length = fifo.used :=
  length_window _ _ _

/-- The front of the queue is the first part of its contents. -/
theorem front_eq (fifo : Fifo α size) (count : ℕ) :
    fifo.front count = fifo.contents.take count := by
  by_cases hle : count ≤ fifo.used
  · rw [front, Nat.min_eq_left hle]
    exact (take_window _ _ hle).symm
  · rw [front, Nat.min_eq_right (by omega), List.take_of_length_le]
    · rfl
    · rw [length_contents]
      omega

/-- Putting elements in appends those there is room for. -/
theorem contents_enqueue (fifo : Fifo α size) (elements : List α) :
    (fifo.enqueue elements).contents = fifo.contents ++ elements.take fifo.room := by
  obtain ⟨added, hadded⟩ : ∃ added, added = elements.take fifo.room := ⟨_, rfl⟩
  have hlength : added.length ≤ fifo.room := by
    rw [hadded]
    exact List.length_take_le _ _
  have hordered := fifo.head_le_tail
  have hused := fifo.used_le_size
  have htail : fifo.head + fifo.used = fifo.tail := by
    unfold used
    omega
  have hgrown : (fifo.enqueue elements).used = fifo.used + added.length := by
    show fifo.tail + (elements.take fifo.room).length - fifo.head = _
    rw [← hadded]
    omega
  have hroom : fifo.room = size - fifo.used := rfl
  have hold : window (store fifo.slots fifo.tail added) fifo.head fifo.used = fifo.contents :=
    window_store_of_outside _ (by omega) (by omega)
  have hnew : window (store fifo.slots fifo.tail added) fifo.tail added.length = added :=
    window_store _ _ (by omega)
  rw [contents, hgrown]
  show window (store fifo.slots fifo.tail (elements.take fifo.room)) fifo.head _ = _
  rw [← hadded, window_add, hold, htail, hnew]

/-- Taking elements out drops them from the front. -/
theorem contents_dequeue (fifo : Fifo α size) (count : ℕ) :
    (fifo.dequeue count).contents = fifo.contents.drop count := by
  have hshrunk : (fifo.dequeue count).used = fifo.used - min count fifo.used := by
    show fifo.tail - (fifo.head + min count fifo.used) = fifo.tail - fifo.head - _
    omega
  have hdrop : fifo.contents.drop (min count fifo.used) = (fifo.dequeue count).contents := by
    rw [contents, contents, hshrunk]
    exact drop_window _ _ (Nat.min_le_right _ _)
  rw [← hdrop]
  by_cases hle : count ≤ fifo.used
  · rw [Nat.min_eq_left hle]
  · rw [Nat.min_eq_right (by omega), List.drop_eq_nil_of_le, List.drop_eq_nil_of_le]
    · rw [length_contents]
      omega
    · rw [length_contents]

end Fifo

end KernelExperiments.Foundation
