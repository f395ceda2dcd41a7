import KernelExperiments.StringList.Program
import Mathlib.Data.List.TakeWhile

/-!
# The string list echoes its input

While `main` reads, the chain behind `head` carries the strings in order and ends in a node that is
allocated and not filled, the last one of the memory (`Building`). An iteration fills that node and
hangs a new one behind it (`Building.next`), so the reading stops at the first `114514` with the
tokens before it in the chain (`Building.read`). The print loop stops at the node in front of which
`NULL` was put, and so prints the filled nodes, each once and in order (`printed_along`).

`echoes_tokensBeforeExit` puts the two loops together. No field is read before it was written in the
whole run; the node at the end of the chain is never printed.
-/

set_option autoImplicit false
set_option relaxedAutoImplicit false

namespace KernelExperiments.StringList

open Foundation

/-! ### The law -/

/-- The tokens in front of the first `114514`. -/
def tokensBeforeExit (input : List UInt8) : List (List UInt8) :=
  (tokens isSpace input).takeWhile (· ≠ exitToken)

/-- The strings have been echoed: the chain from `head->next` goes over one node for each of them
and over one trailing node to `NULL`, and the lines printed are the strings. -/
structure Echoed (strings : List (List UInt8)) (read : ReadState) (done : PrintState)
    (path : List ℕ) (trailing : ℕ) : Prop where
  chain : ∃ first, (done.memory.node done.head).bind Node.next = some first ∧
    done.memory.Segment first (path ++ [trailing]) none
  acyclic : (path ++ [trailing]).Nodup
  length_path : path.length = strings.length
  dataAlong_path : done.memory.dataAlong path = strings.map some
  trailing_unwritten : (done.memory.node (some trailing)).bind Node.data = none
  printed_nodes : ∀ fuel, path.length ≤ fuel →
    (loopStates printBody fuel (printEntry read)).map PrintState.scanner = path.map some
  cout_eq : done.cout = prompt :: strings
  faults_eq : done.memory.faults = []

/-! ### The input loop -/

/-- A memory whose last node has not been filled. -/
def withBlank (nodes : List (Node (List UInt8))) : Memory (List UInt8) := ⟨nodes ++ [.blank], []⟩

/-- The chain while it is being built. The nodes of the path are `head` and those that carry the
strings, `earlier` are all nodes but the last one, and that one is to be filled next. -/
structure Building (strings : List (List UInt8)) (earlier : List (Node (List UInt8)))
    (path : List ℕ) (state : ReadState) : Prop where
  memory_eq : state.memory = withBlank earlier
  scanner_eq : state.scanner = some earlier.length
  segment : state.memory.Segment state.head path state.scanner
  lt_length : ∀ address ∈ path, address < earlier.length
  dataAlong_path : state.memory.dataAlong path = none :: strings.map some
  stored_eq : state.memory.stored = strings
  cout_eq : state.cout = [prompt]

variable {strings : List (List UInt8)} {earlier : List (Node (List UInt8))} {path : List ℕ}
  {state : ReadState}

theorem building_readEntry (input : List UInt8) :
    Building [] [⟨none, some (some 1)⟩] [0] (readEntry input) where
  memory_eq := rfl
  scanner_eq := rfl
  segment := ⟨rfl, some 1, rfl, rfl⟩
  lt_length := by decide
  dataAlong_path := rfl
  stored_eq := rfl
  cout_eq := rfl

/-- The loop is left when `114514` has been read. -/
theorem readBody_of_exit (hexit : (state.cin.extract isSpace state.temp).2 = exitToken) :
    readBody state = none := by
  simp only [readBody, if_pos hexit]

theorem node_withBlank_of_lt (later : List (Node (List UInt8))) {address : ℕ}
    (hlt : address < earlier.length) :
    (withBlank (earlier ++ later)).node (some address) =
      (withBlank earlier).node (some address) := by
  rw [withBlank, List.append_assoc]
  exact node_of_lt hlt

theorem node_withBlank_length (earlier : List (Node (List UInt8))) (node : Node (List UInt8)) :
    (withBlank (earlier ++ [node])).node (some earlier.length) = some node := by
  rw [withBlank, List.append_assoc]
  exact node_at_length earlier [.blank] node []

theorem stored_withBlank (nodes : List (Node (List UInt8))) :
    (withBlank nodes).stored = nodes.filterMap Node.data := by
  rw [Memory.stored, withBlank, List.filterMap_append]
  exact List.append_nil _

/-- The node that is filled, with the pointer to the new one. -/
def filled (earlier : List (Node (List UInt8))) (token : List UInt8) : Node (List UInt8) :=
  ⟨some token, some (some (earlier.length + 1))⟩

/-- An iteration fills the last node and hangs a new one behind it. -/
theorem readBody_of_building (hbuilding : Building strings earlier path state)
    (hgoes : (state.cin.extract isSpace state.temp).2 ≠ exitToken) :
    readBody state = some { state with
      cin := (state.cin.extract isSpace state.temp).1
      temp := (state.cin.extract isSpace state.temp).2
      memory := withBlank (earlier ++ [filled earlier (state.cin.extract isSpace state.temp).2])
      scanner := some (earlier.length + 1) } := by
  generalize hextract : state.cin.extract isSpace state.temp = extracted at hgoes ⊢
  obtain ⟨cin, token⟩ := extracted
  have hdata : (withBlank earlier).writeData (some earlier.length) token =
      ⟨earlier ++ [⟨some token, none⟩], []⟩ := write_at_length earlier [] .blank [] .data _
  have hmalloc : Memory.malloc ⟨earlier ++ [⟨some token, none⟩], []⟩ =
      (withBlank (earlier ++ [⟨some token, none⟩]), some (earlier.length + 1)) := by
    rw [Memory.malloc, List.length_append, List.length_singleton]
    rfl
  have hnext : (withBlank (earlier ++ [⟨some token, none⟩])).writeNext (some earlier.length)
      (some (earlier.length + 1)) = withBlank (earlier ++ [filled earlier token]) := by
    rw [withBlank, withBlank, List.append_assoc, List.append_assoc]
    exact write_at_length earlier [.blank] _ [] .next _
  have hread : (withBlank (earlier ++ [filled earlier token])).readNext (some earlier.length) =
      (withBlank (earlier ++ [filled earlier token]), some (earlier.length + 1)) :=
    readNext_of_written (by rw [node_withBlank_length]; rfl)
  simp only [readBody, hextract, if_neg hgoes, hbuilding.memory_eq, hbuilding.scanner_eq, hdata,
    hmalloc, hnext, hread]

theorem Building.next (hbuilding : Building strings earlier path state)
    (hgoes : (state.cin.extract isSpace state.temp).2 ≠ exitToken) :
    ∃ next, readBody state = some next ∧ next.cin = (state.cin.extract isSpace state.temp).1 ∧
      next.temp = (state.cin.extract isSpace state.temp).2 ∧
      Building (strings ++ [(state.cin.extract isSpace state.temp).2])
        (earlier ++ [filled earlier (state.cin.extract isSpace state.temp).2])
        (path ++ [earlier.length]) next := by
  refine ⟨_, readBody_of_building hbuilding hgoes, rfl, rfl, ?_⟩
  generalize (state.cin.extract isSpace state.temp).2 = token
  obtain ⟨hmemory, hscanner, hsegment, hlt, hdata, hstored, hcout⟩ := hbuilding
  have hnode : ∀ address ∈ path, (withBlank (earlier ++ [filled earlier token])).node
      (some address) = state.memory.node (some address) := by
    intro address haddress
    rw [hmemory]
    exact node_withBlank_of_lt _ (hlt address haddress)
  have hlast := node_withBlank_length earlier (filled earlier token)
  constructor
  case memory_eq => rfl
  case scanner_eq => rw [List.length_append, List.length_singleton]
  case segment =>
    refine segment_append.mpr ⟨some earlier.length, ?_, rfl, _, ?_, rfl⟩
    · exact hscanner ▸ hsegment.of_node_eq hnode
    · rw [hlast]
      rfl
  case lt_length =>
    intro address haddress
    rw [List.length_append, List.length_singleton]
    rcases List.mem_append.mp haddress with hold | hnew
    · exact Nat.lt_succ_of_lt (hlt address hold)
    · rw [List.mem_singleton.mp hnew]
      exact Nat.lt_succ_self _
  case dataAlong_path =>
    have hnew : (withBlank (earlier ++ [filled earlier token])).dataAlong [earlier.length] =
        [some token] := by
      rw [Memory.dataAlong, List.map_singleton, hlast]
      rfl
    rw [dataAlong_append, dataAlong_of_node_eq hnode, hdata, hnew, List.map_append]
    rfl
  case stored_eq =>
    rw [hmemory, stored_withBlank] at hstored
    rw [stored_withBlank, List.filterMap_append, hstored]
    rfl
  case cout_eq => exact hcout

/-- The loop stops at the first `114514`, with the tokens before it in the chain. -/
theorem Building.read (hbuilding : Building strings earlier path state)
    {pending : List (List UInt8)} (hpending : state.cin.pending isSpace = pending)
    (hexit : exitToken ∈ pending) :
    ∃ read earlier path, LeftIn readBody state read ∧
      Building (strings ++ pending.takeWhile (· ≠ exitToken)) earlier path read := by
  induction pending generalizing strings earlier path state with
  | nil => cases hexit
  | cons token later ih =>
    obtain ⟨hread, hlater⟩ := extract_of_pending_cons hpending state.temp
    by_cases htoken : token = exitToken
    · refine ⟨state, earlier, path, leftIn_of_none (readBody_of_exit (hread.trans htoken)), ?_⟩
      rwa [List.takeWhile_cons_of_neg (by simp [htoken]), List.append_nil]
    · obtain ⟨next, hbody, hcin, -, hnext⟩ := hbuilding.next (hread ▸ htoken)
      have hexitLater := (List.mem_cons.mp hexit).resolve_left (Ne.symm htoken)
      obtain ⟨read, earlier, path, hleft, hread'⟩ := ih hnext (hcin ▸ hlater) hexitLater
      refine ⟨read, earlier, path, leftIn_of_some hbody hleft, ?_⟩
      rw [List.takeWhile_cons_of_pos (by simp [htoken])]
      rw [hread, List.append_assoc] at hread'
      exact hread'

/-! ### The print loop -/

/-- The print loop prints the filled nodes in order and stops at the trailing one. -/
theorem printed_along {state : PrintState} {strings : List (List UInt8)} {path : List ℕ}
    {trailing : ℕ} (hsegment : state.memory.Segment state.scanner (path ++ [trailing]) none)
    (htest : (state.memory.node state.scanner).bind Node.next = some state.test)
    (hdata : state.memory.dataAlong path = strings.map some) :
    LeftIn printBody state
        { state with scanner := some trailing, test := none, cout := state.cout ++ strings } ∧
      ∀ fuel, path.length ≤ fuel →
        (loopStates printBody fuel state).map PrintState.scanner = path.map some := by
  induction path generalizing state strings with
  | nil =>
    obtain ⟨hscanner, next, hnext, hnull⟩ := hsegment
    have hnone : state.test = none := by
      rw [htest] at hnext
      exact (Option.some.inj hnext).trans hnull
    have hbody : printBody state = none := by rw [printBody, hnone]
    have hstrings : strings = [] := List.map_eq_nil_iff.mp hdata.symm
    constructor
    · have hstate : { state with
          scanner := some trailing, test := none, cout := state.cout ++ strings } = state := by
        rw [hstrings, List.append_nil, ← hscanner, ← hnone]
      rw [hstate]
      exact leftIn_of_none hbody
    · intro fuel _
      cases fuel with
      | zero => rfl
      | succ fuel => simp only [loopStates, hbody, List.map_nil]
  | cons address rest ih =>
    obtain ⟨hscanner, next, hnext, hrest⟩ := hsegment
    have hnextTest : next = state.test := Option.some.inj (hnext.symm.trans htest)
    cases strings with
    | nil => cases hdata
    | cons string later =>
      obtain ⟨hstring, hlater⟩ := List.cons.inj hdata
      -- the node behind is one of the path or the trailing one, so it has a next field
      obtain ⟨second, test, rfl, hreadTest⟩ := Memory.Segment.exists_start hrest
      have hbody : printBody state = some { state with
          scanner := some second, test, cout := state.cout ++ [string] } := by
        have hread : state.memory.readData state.scanner = (state.memory, string) :=
          readData_of_written (by rw [hscanner]; exact hstring)
        simp only [printBody, ← hnextTest, hread, readNext_of_written hnext,
          readNext_of_written hreadTest]
      obtain ⟨hleft, hnodes⟩ := @ih { state with
        scanner := some second, test, cout := state.cout ++ [string] } later hrest hreadTest hlater
      constructor
      · rw [List.append_cons]
        exact leftIn_of_some hbody hleft
      · intro fuel hfuel
        obtain ⟨fuel, rfl⟩ := Nat.exists_eq_add_of_le' (Nat.one_le_of_lt hfuel)
        simp only [loopStates, hbody, List.map_cons, hscanner]
        rw [hnodes fuel (Nat.le_of_succ_le_succ hfuel)]

/-- The chain is closed by `NULL` behind the node that would have been filled next. -/
theorem Building.echoed {read : ReadState} (hbuilding : Building strings earlier path read) :
    ∃ done path trailing, LeftIn printBody (printEntry read) done ∧
      Echoed strings read done path trailing := by
  obtain ⟨hmemory, hscanner, hsegment, hlt, hdata, -, hcout⟩ := hbuilding
  obtain ⟨front, rest, rfl⟩ : ∃ front rest, path = front :: rest := by
    cases path with
    | nil => cases hdata
    | cons front rest => exact ⟨front, rest, rfl⟩
  let memory : Memory (List UInt8) := ⟨earlier ++ [⟨none, some none⟩], []⟩
  have hnode : ∀ address ∈ front :: rest,
      memory.node (some address) = read.memory.node (some address) := by
    intro address haddress
    rw [hmemory]
    exact node_of_lt (hlt address haddress)
  have hlast : memory.node (some earlier.length) = some ⟨none, some none⟩ :=
    node_at_length earlier [] _ []
  have hwhole : memory.Segment read.head (front :: (rest ++ [earlier.length])) none := by
    refine (@segment_append _ memory read.head none (front :: rest) [earlier.length]).mpr
      ⟨some earlier.length, hscanner ▸ hsegment.of_node_eq hnode, rfl, none, ?_, rfl⟩
    rw [hlast]
    rfl
  have hrest : memory.dataAlong rest = strings.map some := by
    rw [← dataAlong_of_node_eq hnode] at hdata
    exact (List.cons.inj hdata).2
  obtain ⟨-, first, hfirst, hchain⟩ := hwhole
  obtain ⟨second, test, rfl, htest⟩ := Memory.Segment.exists_start hchain
  have hentry : printEntry read =
      { memory, head := read.head, scanner := some second, test, cout := [prompt] } := by
    have hclosed : read.memory.writeNext read.scanner none = memory := by
      rw [hmemory, hscanner]
      exact write_at_length earlier [] _ _ _ _
    simp only [printEntry, hclosed, readNext_of_written hfirst, readNext_of_written htest, hcout]
  obtain ⟨hleft, hnodes⟩ := @printed_along
    { memory, head := read.head, scanner := some second, test, cout := [prompt] }
    strings rest earlier.length hchain htest hrest
  refine ⟨_, rest, earlier.length, by rw [hentry]; exact hleft, ?_⟩
  constructor
  case chain => exact ⟨some second, hfirst, hchain⟩
  case acyclic => exact hchain.nodup
  case length_path =>
    have hlength := congrArg List.length hrest
    rwa [Memory.dataAlong, List.length_map, List.length_map] at hlength
  case dataAlong_path => exact hrest
  case trailing_unwritten => exact congrArg (Option.bind · Node.data) hlast
  case printed_nodes => rwa [hentry]
  case cout_eq => rfl
  case faults_eq => rfl

/-! ### The program -/

/-- Every input that contains `114514` is echoed up to there: both loops end, the chain has one node
for each token and a trailing one, no field is read before it was written, and the lines printed are
the tokens. -/
theorem echoes_tokensBeforeExit (input : List UInt8) (hexit : exitToken ∈ tokens isSpace input) :
    ∃ read done path trailing, LeftIn readBody (readEntry input) read ∧
      LeftIn printBody (printEntry read) done ∧
      Echoed (tokensBeforeExit input) read done path trailing := by
  obtain ⟨read, earlier, path, hreading, hbuilding⟩ :=
    (building_readEntry input).read rfl hexit
  rw [List.nil_append] at hbuilding
  obtain ⟨done, path, trailing, hprinting, hechoed⟩ := hbuilding.echoed
  exact ⟨read, done, path, trailing, hreading, hprinting, hechoed⟩

/-- Two tokens and `114514`. -/
theorem twoTokens_echoed :
    ∃ read done path trailing, LeftIn readBody (readEntry (literal "a\nbc 114514 d")) read ∧
      LeftIn printBody (printEntry read) done ∧
      Echoed (tokensBeforeExit (literal "a\nbc 114514 d")) read done path trailing :=
  echoes_tokensBeforeExit _ (by decide +kernel)

end KernelExperiments.StringList
