import KernelExperiments.StringList.Echo

/-!
# The end of the input

The input loop of `exp2.3.cpp` is left when `114514` has been read, and does not look at the state
of `cin`. At the end of the input the extraction fails and leaves in `temp` what the last one put
there, or the empty string; the loop takes that for one more string. So an input without `114514` is
read for ever, and stores its last token again in each iteration (`stored_without_exit`).

`inputLaw_iff` is the exact condition: the input loop ends, stores no token too often and lets the
print loop end if and only if `114514` is in the input.
-/

set_option autoImplicit false
set_option relaxedAutoImplicit false

namespace KernelExperiments.StringList

open Foundation

/-- The input loop ends, at no time a token has been stored more often than it occurs in the input,
and the print loop ends behind it. -/
structure InputLaw (input : List UInt8) : Prop where
  reading_ends : ∃ read, LeftIn readBody (readEntry input) read
  stored_le : ∀ fuel token,
    (loopFor readBody fuel (readEntry input)).memory.stored.count token ≤
      (tokens isSpace input).count token
  printing_ends : ∀ read, LeftIn readBody (readEntry input) read →
    ∃ done, LeftIn printBody (printEntry read) done

/-! ### Inputs without `114514` -/

/-- `114514` is neither to be read nor what a failed extraction would leave. -/
structure NoExit (state : ReadState) : Prop where
  building : ∃ strings earlier path, Building strings earlier path state
  temp_ne : state.temp ≠ exitToken
  notMem_pending : exitToken ∉ state.cin.pending isSpace

theorem NoExit.extract {state : ReadState} (hstate : NoExit state) :
    (state.cin.extract isSpace state.temp).2 ≠ exitToken ∧
      exitToken ∉ (state.cin.extract isSpace state.temp).1.pending isSpace := by
  have hnotMem := hstate.notMem_pending
  cases hpending : state.cin.pending isSpace with
  | nil =>
    obtain ⟨htemp, hlater⟩ := extract_of_pending_nil hpending state.temp
    rw [htemp, hlater]
    exact ⟨hstate.temp_ne, List.not_mem_nil⟩
  | cons token later =>
    obtain ⟨htoken, hlater⟩ := extract_of_pending_cons hpending state.temp
    rw [hpending] at hnotMem
    rw [htoken, hlater]
    exact ⟨fun hexit ↦ hnotMem (hexit ▸ List.mem_cons_self),
      fun hexit ↦ hnotMem (List.mem_cons_of_mem token hexit)⟩

/-- Such a state is followed by another one. -/
theorem NoExit.next {state : ReadState} (hstate : NoExit state) :
    ∃ next, readBody state = some next ∧ NoExit next := by
  obtain ⟨strings, earlier, path, hbuilding⟩ := hstate.building
  obtain ⟨hgoes, hlater⟩ := hstate.extract
  obtain ⟨next, hbody, hcin, htemp, hnext⟩ := hbuilding.next hgoes
  exact ⟨next, hbody, ⟨_, _, _, hnext⟩, htemp ▸ hgoes, hcin ▸ hlater⟩

theorem exitToken_ne_nil : exitToken ≠ [] := by decide +kernel

theorem noExit_readEntry {input : List UInt8} (hinput : exitToken ∉ tokens isSpace input) :
    NoExit (readEntry input) where
  building := ⟨_, _, _, building_readEntry input⟩
  temp_ne := exitToken_ne_nil.symm
  notMem_pending := hinput

theorem not_leftIn_of_noExit {state : ReadState} (hstate : NoExit state) (read : ReadState) :
    ¬ LeftIn readBody state read := by
  refine not_leftIn_of_invariant ?_ ?_ hstate read
  · intro state next hstate hbody
    obtain ⟨other, hother, hnext⟩ := hstate.next
    rw [hbody] at hother
    exact Option.some.inj hother ▸ hnext
  · intro state hstate hbody
    obtain ⟨next, hnext, -⟩ := hstate.next
    cases hbody.symm.trans hnext

/-- The iterations in which the pending tokens are read. -/
theorem Building.readAll {strings : List (List UInt8)} {earlier : List (Node (List UInt8))}
    {path : List ℕ} {state : ReadState} (hbuilding : Building strings earlier path state)
    {pending : List (List UInt8)} (hpending : state.cin.pending isSpace = pending)
    (hexit : exitToken ∉ pending) :
    ∃ earlier path, Building (strings ++ pending) earlier path
        (loopFor readBody pending.length state) ∧
      (loopFor readBody pending.length state).cin.pending isSpace = [] ∧
      (loopFor readBody pending.length state).temp = pending.getLastD state.temp := by
  induction pending generalizing strings earlier path state with
  | nil => exact ⟨earlier, path, by rwa [List.append_nil], hpending, rfl⟩
  | cons token later ih =>
    obtain ⟨htoken, hlater⟩ := extract_of_pending_cons hpending state.temp
    obtain ⟨hne, hexitLater⟩ := List.ne_and_not_mem_of_not_mem_cons hexit
    obtain ⟨next, hbody, hcin, htemp, hnext⟩ := hbuilding.next (htoken.trans_ne hne.symm)
    obtain ⟨earlier, path, hall, hnone, hlast⟩ := ih hnext (hcin ▸ hlater) hexitLater
    rw [List.length_cons, loopFor_succ_of_some hbody]
    refine ⟨earlier, path, ?_, hnone, ?_⟩
    · rwa [htoken, List.append_assoc] at hall
    · rw [hlast, htemp, htoken, List.getLastD_cons]

/-- The iterations at the end of the input store what is in `temp`. -/
theorem Building.readAgain {strings : List (List UInt8)} {earlier : List (Node (List UInt8))}
    {path : List ℕ} {state : ReadState} (hbuilding : Building strings earlier path state)
    (hpending : state.cin.pending isSpace = []) (htemp : state.temp ≠ exitToken) (again : ℕ) :
    ∃ earlier path, Building (strings ++ List.replicate again state.temp) earlier path
      (loopFor readBody again state) := by
  induction again generalizing strings earlier path state with
  | zero => exact ⟨earlier, path, by rwa [List.replicate_zero, List.append_nil]⟩
  | succ again ih =>
    obtain ⟨hsame, hnone⟩ := extract_of_pending_nil hpending state.temp
    obtain ⟨next, hbody, hcin, hnextTemp, hnext⟩ := hbuilding.next (hsame.trans_ne htemp)
    rw [hsame] at hnextTemp hnext
    obtain ⟨earlier, path, hall⟩ := ih hnext (hcin ▸ hnone) (hnextTemp.trans_ne htemp)
    rw [loopFor_succ_of_some hbody]
    rw [hnextTemp, List.append_assoc, List.singleton_append, ← List.replicate_succ] at hall
    exact ⟨earlier, path, hall⟩

/-- An input without `114514` is stored, and then its last token is stored again and again; the
empty string where the input has no token. -/
theorem stored_without_exit {input : List UInt8} (hinput : exitToken ∉ tokens isSpace input)
    (again : ℕ) :
    (loopFor readBody ((tokens isSpace input).length + again) (readEntry input)).memory.stored =
      tokens isSpace input ++ List.replicate again ((tokens isSpace input).getLastD []) := by
  obtain ⟨earlier, path, hall, hnone, hlast⟩ := (building_readEntry input).readAll rfl hinput
  have hlastNe : (tokens isSpace input).getLastD [] ≠ exitToken := by
    intro hlastExit
    have hmem : (tokens isSpace input).getLastD [] ∈ [] :: tokens isSpace input :=
      List.getLastD_mem_cons
    rw [hlastExit] at hmem
    rcases List.mem_cons.mp hmem with hnil | hexit
    · exact exitToken_ne_nil hnil
    · exact hinput hexit
  obtain ⟨earlier, path, hagain⟩ := hall.readAgain hnone (hlast.trans_ne hlastNe) again
  rw [loopFor_add]
  exact hagain.stored_eq.trans (by rw [hlast]; rfl)

/-! ### The exact condition -/

/-- The strings in the chain and the pending tokens are the tokens of the input, and `114514` is
still to be read. -/
def StillToExit (input : List UInt8) (state : ReadState) : Prop :=
  ∃ strings earlier path, Building strings earlier path state ∧
    strings ++ state.cin.pending isSpace = tokens isSpace input ∧
    exitToken ∈ state.cin.pending isSpace

theorem stillToExit_readBody {input : List UInt8} (state next : ReadState)
    (hstate : StillToExit input state) (hbody : readBody state = some next) :
    StillToExit input next := by
  obtain ⟨strings, earlier, path, hbuilding, htokens, hexit⟩ := hstate
  have hgoes : (state.cin.extract isSpace state.temp).2 ≠ exitToken := by
    intro hleave
    cases hbody.symm.trans (readBody_of_exit hleave)
  obtain ⟨other, hother, hcin, -, hnext⟩ := hbuilding.next hgoes
  obtain rfl : other = next := Option.some.inj (hother.symm.trans hbody)
  cases hpending : state.cin.pending isSpace with
  | nil =>
    rw [hpending] at hexit
    cases hexit
  | cons token later =>
    obtain ⟨htoken, hlater⟩ := extract_of_pending_cons hpending state.temp
    rw [htoken] at hgoes hnext
    rw [hpending] at htokens hexit
    refine ⟨_, _, _, hnext, ?_, ?_⟩
    · rw [hcin, hlater, List.append_assoc]
      exact htokens
    · rw [hcin, hlater]
      exact (List.mem_cons.mp hexit).resolve_left hgoes.symm

/-- What has been stored has been read, each token once. -/
theorem count_stored_le {input : List UInt8} (hinput : exitToken ∈ tokens isSpace input)
    (fuel : ℕ) (token : List UInt8) :
    (loopFor readBody fuel (readEntry input)).memory.stored.count token ≤
      (tokens isSpace input).count token := by
  have hentry : StillToExit input (readEntry input) :=
    ⟨[], _, _, building_readEntry input, rfl, hinput⟩
  obtain ⟨strings, _, _, hbuilding, htokens, -⟩ :=
    loopFor_invariant stillToExit_readBody hentry fuel
  rw [hbuilding.stored_eq, ← htokens, List.count_append]
  exact Nat.le_add_right _ _

/-- The input loop keeps to the input if and only if `114514` is in it. -/
theorem inputLaw_iff (input : List UInt8) : InputLaw input ↔ exitToken ∈ tokens isSpace input := by
  constructor
  · intro hlaw
    by_contra hinput
    obtain ⟨read, hleft⟩ := hlaw.reading_ends
    exact not_leftIn_of_noExit (noExit_readEntry hinput) read hleft
  · intro hinput
    obtain ⟨read, earlier, path, hleft, hbuilding⟩ := (building_readEntry input).read rfl hinput
    constructor
    case reading_ends => exact ⟨read, hleft⟩
    case stored_le => exact count_stored_le hinput
    case printing_ends =>
      intro other hother
      obtain ⟨done, -, -, hdone, -⟩ := hbuilding.echoed
      exact ⟨done, hother.unique hleft ▸ hdone⟩

/-- `a` and the end of the input. -/
theorem not_inputLaw_single : ¬ InputLaw (literal "a") := by
  intro hlaw
  obtain ⟨read, hleft⟩ := hlaw.reading_ends
  have hinput : exitToken ∉ tokens isSpace (literal "a") := by decide +kernel
  exact not_leftIn_of_noExit (noExit_readEntry hinput) read hleft

end KernelExperiments.StringList
