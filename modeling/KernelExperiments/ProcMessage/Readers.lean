import KernelExperiments.Foundation.Runs
import KernelExperiments.ProcMessage.Driver
import Mathlib.Logic.Function.Basic

/-!
# Several readers of one message

Every process that opens `/proc/hello/world` reads until it gets zero, or stops before that. It
should have received the message once when it gets the zero, whatever the other readers do
(`ReadersRun.ExactlyOnce`).

`proc_read` keeps the end of the file in one variable for all of them. With a message that is not
empty, the first of two calls delivers it or fails and the second one reports the end, whoever makes
them. So the law holds in exactly the runs whose calls come in pairs: the two calls of a pair are
made by one reader, with no call of another reader in between, and the copy of the first one
succeeds (`exactlyOnce_iff_paired`). An empty message is received by everyone who gets a zero.
-/

set_option autoImplicit false
set_option relaxedAutoImplicit false

namespace KernelExperiments.ProcMessage

open Foundation

variable {Reader : Type*} [DecidableEq Reader]

/-! ### The readers and what they have seen -/

/-- A call of `proc_read` by a reader. -/
structure ReadCall (Reader : Type*) where
  reader : Reader
  count : ℕ
  fault : Option ℕ

/-- The module and its readers: for each reader the bytes that its calls returned, whether it has
got a zero, and the position of its file. -/
structure World (Reader : Type*) where
  state : ProcModule
  received : Reader → List UInt8
  ended : Reader → Bool
  pos : Reader → ℤ

/-- What `proc_read` makes of a call. -/
def readResult (world : World Reader) (call : ReadCall Reader) : ReadResult :=
  procRead world.state call.count (world.pos call.reader) call.fault

/-- A reader makes a call. It takes as many bytes from its buffer as the call returned, and none
when the call failed. -/
def readStep (world : World Reader) (call : ReadCall Reader) : World Reader :=
  let result := readResult world call
  { state := result.state
    received := Function.update world.received call.reader
      (world.received call.reader ++ result.buffer.take result.ret.toNat)
    ended := Function.update world.ended call.reader
      (world.ended call.reader || decide (result.ret = 0))
    pos := Function.update world.pos call.reader result.pos }

/-- The module after some writes, before any reader has made a call. -/
def opened (Reader : Type*) (writes : List WriteCall) : World Reader where
  state := run (fun state call ↦ (procWrite state call).1) ProcModule.loaded writes
  received := fun _ ↦ []
  ended := fun _ ↦ false
  pos := fun _ ↦ 0

/-- A reader makes no call after a zero, and asks for at least as many bytes as the message has. -/
def Admissible (world : World Reader) (call : ReadCall Reader) : Prop :=
  world.ended call.reader = false ∧ world.state.procMsg.strlen ≤ call.count

instance decidableAdmissible (world : World Reader) (call : ReadCall Reader) :
    Decidable (Admissible world call) :=
  inferInstanceAs (Decidable (_ ∧ _))

/-- A run: some completed writes, and then calls of readers in any order. -/
structure ReadersRun (Reader : Type*) [DecidableEq Reader] where
  writes : List WriteCall
  calls : List (ReadCall Reader)
  admissible : Along readStep Admissible (opened Reader writes) calls

/-- The message that the writes left. -/
def ReadersRun.message (readers : ReadersRun Reader) : List UInt8 :=
  (opened Reader readers.writes).state.procMsg.message

/-- A call that returns zero leaves its reader with the message received once. -/
def OnceAtEnd (message : List UInt8) (world : World Reader) (call : ReadCall Reader) : Prop :=
  (readResult world call).ret = 0 → (readStep world call).received call.reader = message

/-- Every reader that gets a zero has received the message exactly once before it. -/
def ReadersRun.ExactlyOnce (readers : ReadersRun Reader) : Prop :=
  Along readStep (OnceAtEnd readers.message) (opened Reader readers.writes) readers.calls

/-! ### Calls in pairs -/

/-- The calls come in pairs of one reader, and the copy of the first call of each pair succeeds. A
call left over at the end may be any. -/
def Paired (length : ℕ) : List (ReadCall Reader) → Prop
  | first :: second :: rest =>
    (first.reader = second.reader ∧ ¬ Faults length first.fault) ∧ Paired length rest
  | _ => True

instance decidablePaired (length : ℕ) : (calls : List (ReadCall Reader)) →
    Decidable (Paired length calls)
  | first :: second :: rest =>
    have := decidablePaired length rest
    inferInstanceAs
      (Decidable ((first.reader = second.reader ∧ ¬ Faults length first.fault) ∧ _))
  | [] => isTrue trivial
  | [_] => isTrue trivial

/-- Between two pairs of calls: the flag is clear, and a reader that has not got a zero has received
nothing. -/
structure BetweenPairs (message : List UInt8) (world : World Reader) : Prop where
  message_eq : world.state.procMsg.message = message
  flag_clear : world.state.finished = false
  received_nil : ∀ reader, world.ended reader = false → world.received reader = []

/-- Writes leave the flag clear. -/
theorem betweenPairs_opened (readers : ReadersRun Reader) :
    BetweenPairs readers.message (opened Reader readers.writes) := by
  have hflag : ∀ state call, state.finished = false →
      (procWrite state call).1.finished = false := by
    intro state call hclear
    unfold procWrite
    dsimp only
    split_ifs
    · exact hclear
    · exact hclear
    · exact hclear
  exact {
    message_eq := rfl
    flag_clear := run_invariant hflag rfl readers.writes
    received_nil := fun _ _ ↦ rfl }

/-- In the middle of a pair that the call `first` began: the flag is set, and a reader that has not
got a zero has received nothing, or the message if it made the call and the copy succeeded. -/
structure MidPair (message : List UInt8) (first : ReadCall Reader) (world : World Reader) :
    Prop where
  message_eq : world.state.procMsg.message = message
  flag_set : world.state.finished = true
  received_eq : ∀ reader, world.ended reader = false → world.received reader =
    if first.reader = reader ∧ ¬ Faults message.length first.fault then message else []

omit [DecidableEq Reader] in
/-- With the flag clear and a message that is not empty, a call sets the flag, does not return zero,
and hands over the message unless its copy faults. -/
theorem readResult_of_betweenPairs {message : List UInt8} (hmessage : message ≠ [])
    {world : World Reader} (hworld : BetweenPairs message world) (call : ReadCall Reader) :
    (readResult world call).state = { world.state with finished := true } ∧
      (readResult world call).ret ≠ 0 ∧
      (readResult world call).buffer.take (readResult world call).ret.toNat =
        if Faults message.length call.fault then [] else message := by
  have hlength : world.state.procMsg.strlen = message.length :=
    congrArg List.length hworld.message_eq
  by_cases hfault : Faults message.length call.fault
  · have hresult : readResult world call = _ :=
      procRead_of_faults hworld.flag_clear call.count _ (hlength ▸ hfault)
    rw [hresult, if_pos hfault]
    refine ⟨rfl, ?_, rfl⟩
    show efault ≠ 0
    decide
  · have hresult : readResult world call = _ :=
      procRead_of_not_faults hworld.flag_clear call.count _ (hlength ▸ hfault)
    have hpos : 0 < message.length := List.length_pos_of_ne_nil hmessage
    rw [hresult, if_neg hfault]
    dsimp only
    rw [hlength, hworld.message_eq, Int.toNat_natCast, List.take_length]
    exact ⟨rfl, by omega, rfl⟩

/-- The first call of a pair delivers the message or fails, and does not return zero. -/
theorem midPair_of_betweenPairs {message : List UInt8} (hmessage : message ≠ [])
    {world : World Reader} (hworld : BetweenPairs message world) {first : ReadCall Reader}
    (hfirst : Admissible world first) :
    OnceAtEnd message world first ∧ MidPair message first (readStep world first) := by
  obtain ⟨hstate, hret, hbytes⟩ := readResult_of_betweenPairs hmessage hworld first
  refine ⟨fun hzero ↦ absurd hzero hret, ?_, ?_, fun reader hreader ↦ ?_⟩
  · simp only [readStep, hstate, hworld.message_eq]
  · simp only [readStep, hstate]
  · by_cases hsame : reader = first.reader
    · subst hsame
      simp only [readStep, Function.update_self, hbytes, hworld.received_nil _ hfirst.1,
        List.nil_append, true_and, ite_not]
    · rw [if_neg fun hdelivered ↦ hsame hdelivered.1.symm]
      simp only [readStep, Function.update_of_ne hsame] at hreader ⊢
      exact hworld.received_nil reader hreader

/-- The second call of a pair returns zero. Its reader has received the message once exactly when it
made the first call too and the copy of that one succeeded. -/
theorem onceAtEnd_second_iff {message : List UInt8} (hmessage : message ≠ [])
    {first second : ReadCall Reader} {world : World Reader} (hworld : MidPair message first world)
    (hsecond : Admissible world second) :
    OnceAtEnd message world second ↔
      first.reader = second.reader ∧ ¬ Faults message.length first.fault := by
  have hresult : readResult world second = _ :=
    procRead_of_finished hworld.flag_set second.count _ second.fault
  have hreceived : (readStep world second).received second.reader =
      world.received second.reader := by
    simp only [readStep, Function.update_self, hresult, List.take_nil, List.append_nil]
  unfold OnceAtEnd
  rw [hreceived, hworld.received_eq second.reader hsecond.1, hresult]
  by_cases hpair : first.reader = second.reader ∧ ¬ Faults message.length first.fault
  · rw [if_pos hpair]
    exact iff_of_true (fun _ ↦ rfl) hpair
  · rw [if_neg hpair]
    exact iff_of_false (fun honce ↦ hmessage (honce rfl).symm) hpair

/-- After a pair of calls of one reader the readers are between pairs again. -/
theorem betweenPairs_of_midPair {message : List UInt8} {first second : ReadCall Reader}
    {world : World Reader} (hworld : MidPair message first world)
    (hsame : first.reader = second.reader) : BetweenPairs message (readStep world second) := by
  have hresult : readResult world second = _ :=
    procRead_of_finished hworld.flag_set second.count _ second.fault
  refine ⟨?_, ?_, ?_⟩
  · simp only [readStep, hresult, hworld.message_eq]
  · simp only [readStep, hresult]
  · intro reader hreader
    by_cases hreads : reader = second.reader
    · subst hreads
      simp [readStep, hresult] at hreader
    · simp only [readStep, Function.update_of_ne hreads] at hreader ⊢
      rw [hworld.received_eq reader hreader, if_neg]
      exact fun hdelivered ↦ hreads (hdelivered.1.symm.trans hsame)

/-- Between pairs, the calls to come give everyone the message once exactly when they come in
pairs. -/
theorem along_onceAtEnd_iff {message : List UInt8} (hmessage : message ≠ []) :
    (calls : List (ReadCall Reader)) → (world : World Reader) → BetweenPairs message world →
      Along readStep Admissible world calls →
        (Along readStep (OnceAtEnd message) world calls ↔ Paired message.length calls)
  | [], _, _, _ => Iff.rfl
  | [first], world, hworld, hcalls =>
    iff_of_true ⟨(midPair_of_betweenPairs hmessage hworld hcalls.1).1, trivial⟩ trivial
  | first :: second :: rest, world, hworld, hcalls => by
    obtain ⟨hfirst, hsecond, hrest⟩ := hcalls
    obtain ⟨honce, hmid⟩ := midPair_of_betweenPairs hmessage hworld hfirst
    have hpair := onceAtEnd_second_iff hmessage hmid hsecond
    constructor
    · rintro ⟨-, honceSecond, honceRest⟩
      have hbetween := betweenPairs_of_midPair hmid (hpair.mp honceSecond).1
      exact ⟨hpair.mp honceSecond,
        (along_onceAtEnd_iff hmessage rest _ hbetween hrest).mp honceRest⟩
    · rintro ⟨hpaired, hpairedRest⟩
      have hbetween := betweenPairs_of_midPair hmid hpaired.1
      exact ⟨honce, hpair.mpr hpaired,
        (along_onceAtEnd_iff hmessage rest _ hbetween hrest).mpr hpairedRest⟩

/-! ### The empty message -/

/-- With an empty message nobody receives anything. -/
theorem along_onceAtEnd_nil {world : World Reader} (hmessage : world.state.procMsg.message = [])
    (hreceived : ∀ reader, world.received reader = []) (calls : List (ReadCall Reader)) :
    Along readStep (OnceAtEnd []) world calls := by
  have hbuffer : ∀ (world : World Reader) (call : ReadCall Reader),
      world.state.procMsg.message = [] →
        (readResult world call).state.procMsg.message = [] ∧
          (readResult world call).buffer = [] := by
    intro world call hnil
    have hlength : world.state.procMsg.strlen = 0 := congrArg List.length hnil
    unfold readResult procRead
    rw [hlength]
    dsimp only
    rw [if_neg (not_faults_zero call.fault)]
    have hzero := Nat.le_zero.mp (copied_le 0 call.fault)
    split_ifs
    · exact ⟨hnil, rfl⟩
    · exact ⟨hnil, by rw [hzero, List.take_zero]⟩
  have hstep : ∀ (world : World Reader) (call : ReadCall Reader),
      (world.state.procMsg.message = [] ∧ ∀ reader, world.received reader = []) → True →
        (readStep world call).state.procMsg.message = [] ∧
          ∀ reader, (readStep world call).received reader = [] := by
    rintro world call ⟨hnil, hnone⟩ -
    obtain ⟨hstate, hempty⟩ := hbuffer world call hnil
    refine ⟨hstate, fun reader ↦ ?_⟩
    simp only [readStep, hempty, List.take_nil, List.append_nil, Function.update_eq_self]
    exact hnone reader
  refine along_of_invariant hstep ?_ ⟨hmessage, hreceived⟩ (along_of_forall (fun _ _ ↦ trivial) _ _)
  intro world call hinvariant _ _
  exact (hstep world call hinvariant trivial).2 call.reader

/-! ### Exactly when every reader gets the message once -/

/-- In a run, every reader that gets a zero has received the message exactly once if and only if the
message is empty or the calls come in pairs. -/
theorem exactlyOnce_iff_paired (readers : ReadersRun Reader) :
    readers.ExactlyOnce ↔
      readers.message = [] ∨ Paired readers.message.length readers.calls := by
  by_cases hmessage : readers.message = []
  · refine iff_of_true ?_ (Or.inl hmessage)
    unfold ReadersRun.ExactlyOnce
    rw [hmessage]
    exact along_onceAtEnd_nil hmessage (fun _ ↦ rfl) readers.calls
  · rw [or_iff_right hmessage]
    exact along_onceAtEnd_iff hmessage readers.calls _ (betweenPairs_opened readers)
      readers.admissible

/-- Two readers of the first message: `false` reads it, and `true` makes the next call. -/
def twoReaders : ReadersRun Bool where
  writes := []
  calls := [⟨false, 64, none⟩, ⟨true, 64, none⟩]
  admissible := by decide +kernel

/-- The second of two readers gets the end of the file without the message. -/
theorem not_exactlyOnce_twoReaders : ¬ twoReaders.ExactlyOnce := by
  rintro ⟨-, honce, -⟩
  have hreceived := honce (by decide +kernel)
  revert hreceived
  decide +kernel

end KernelExperiments.ProcMessage
