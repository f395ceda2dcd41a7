import KernelExperiments.Foundation.WhileLoops
import KernelExperiments.SharedMapping.Driver
import Mathlib.Data.List.Range

/-!
# Loading the driver of the shared area

`map_driver.c`: `mapdrv_init` registers the character device, allocates the area and goes over its
pages; each is reserved and gets a text of its own. Whether `vmalloc` has succeeded is not tested.

With an area the loop is left after ten pages, and they are the pages of the area in order
(`loopFor_initBody`, `initBody_at_end`).

## Scope

The loop translates each address and stores through it. Without an area these are the addresses from
zero on, and what a machine makes of that is left out: the loop goes on.
-/

set_option autoImplicit false
set_option relaxedAutoImplicit false

namespace KernelExperiments.SharedMapping

open Foundation

variable {w : ℕ}

/-- The addresses that `vmalloc(MAPLEN)` returns: not `NULL`, and with room for the area. -/
structure VmallocRange (w : ℕ) where
  address : BitVec w
  address_ne_zero : address ≠ 0
  fits : address.toNat + 4096 * 10 ≤ (BitVec.allOnes w).toNat

/-- The outcomes of the kernel calls of `mapdrv_init`: what `register_chrdev` returns, and the area,
if `vmalloc` succeeds. -/
structure MapdrvInitCalls (w : ℕ) where
  registerChrdev : ℤ
  vmalloc : Option (VmallocRange w)

/-- The address that `vmalloc` returns. -/
def MapdrvInitCalls.vmallocResult (calls : MapdrvInitCalls w) : BitVec w :=
  match calls.vmalloc with
  | some range => range.address
  | none => 0

/-- An address at which `mapdrv_init` reserves a page, and the text it writes there. -/
structure PageText (w : ℕ) where
  address : BitVec w
  text : String
  deriving DecidableEq

/-- The variables of the loop of `mapdrv_init`, and the pages it has gone over. -/
structure InitLoop (w : ℕ) where
  virtAddr : BitVec w
  i : ℕ
  pages : List (PageText w)

/-- What `mapdrv_init` returns and leaves in `vmalloc_area`, and the pages it went over. -/
structure MapdrvInitResult (w : ℕ) where
  ret : ℤ
  vmallocArea : BitVec w
  pages : List (PageText w)

/-- The text of a page. -/
def pageText (number : ℕ) : String := "test " ++ toString number

/-- One iteration of the loop of `mapdrv_init`. -/
def initBody (vmallocArea : BitVec w) (state : InitLoop w) : Option (InitLoop w) :=
  if state.virtAddr < vmallocArea + maplen w then
    some {
      virtAddr := state.virtAddr + BitVec.ofNat w 4096
      i := state.i + 1
      pages := state.pages ++ [⟨state.virtAddr, pageText state.i⟩] }
  else none

/-- `mapdrv_init`, with an iteration for each page of the area. -/
def mapdrvInit (calls : MapdrvInitCalls w) : MapdrvInitResult w :=
  if calls.registerChrdev < 0 then ⟨calls.registerChrdev, 0, []⟩
  else
    let vmallocArea := calls.vmallocResult
    let final := loopFor (initBody vmallocArea) 10 ⟨vmallocArea, 1, []⟩
    ⟨0, vmallocArea, final.pages⟩

/-- An address that is not behind the last one is exact. -/
theorem toNat_add_ofNat_of_le {address : BitVec w} {offset : ℕ}
    (hfits : address.toNat + offset ≤ (BitVec.allOnes w).toNat) :
    (address + BitVec.ofNat w offset).toNat = address.toNat + offset := by
  have hlast : (BitVec.allOnes w).toNat < 2 ^ w := (BitVec.allOnes w).isLt
  have hlt : offset < 2 ^ w := by omega
  rw [BitVec.toNat_add, BitVec.toNat_ofNat, Nat.mod_eq_of_lt hlt, Nat.mod_eq_of_lt (by omega)]

theorem initBody_of_lt {vmallocArea : BitVec w} {state : InitLoop w}
    (hinside : state.virtAddr < vmallocArea + maplen w) :
    initBody vmallocArea state = some {
      virtAddr := state.virtAddr + BitVec.ofNat w 4096
      i := state.i + 1
      pages := state.pages ++ [⟨state.virtAddr, pageText state.i⟩] } :=
  if_pos hinside

/-- After ten iterations the loop is left. -/
theorem initBody_at_end (vmallocArea : BitVec w) (pages : List (PageText w)) (i : ℕ) :
    initBody vmallocArea ⟨vmallocArea + BitVec.ofNat w (4096 * 10), i, pages⟩ = none :=
  if_neg (BitVec.lt_irrefl _)

/-- After any load `vmalloc_area` is `NULL` or an area. -/
theorem vmallocArea_mapdrvInit (calls : MapdrvInitCalls w) :
    (mapdrvInit calls).vmallocArea = 0 ∨
      (mapdrvInit calls).vmallocArea ≠ 0 ∧
        (mapdrvInit calls).vmallocArea.toNat + 4096 * 10 ≤ (BitVec.allOnes w).toNat := by
  unfold mapdrvInit
  by_cases hregister : calls.registerChrdev < 0
  · rw [if_pos hregister]
    exact Or.inl rfl
  · rw [if_neg hregister]
    dsimp only [MapdrvInitCalls.vmallocResult]
    cases calls.vmalloc with
    | none => exact Or.inl rfl
    | some range => exact Or.inr ⟨range.address_ne_zero, range.fits⟩

end KernelExperiments.SharedMapping
