import Mathlib.Data.List.Basic

/-!
# Streams of tokens

A stream of symbols is read token by token: an extraction skips the separators in front and takes
the symbols up to the next separator (`TokenStream.extract`). It fails when no symbol is left, and
then leaves the variable it reads into as it is. A token that ends with the input is still read; the
stream has then met its end, and from then on every extraction fails.

`tokens` is what is in an input, the maximal runs of symbols that are not separators. What the
extractions from a stream will return, and in which order, is `TokenStream.pending`
(`extract_of_pending_cons`, `extract_of_pending_nil`).
-/

set_option autoImplicit false
set_option relaxedAutoImplicit false

namespace KernelExperiments.Foundation

variable {Symbol : Type*} (isSpace : Symbol → Bool)

/-- The tokens of an input. -/
def tokens (input : List Symbol) : List (List Symbol) :=
  (input.splitOnP isSpace).filter fun token ↦ !token.isEmpty

/-- A stream of symbols. It is good until it has met its end. -/
structure TokenStream (Symbol : Type*) where
  rest : List Symbol
  good : Bool

/-- An extraction of a token into a variable that holds `old`. -/
def TokenStream.extract (stream : TokenStream Symbol) (old : List Symbol) :
    TokenStream Symbol × List Symbol :=
  if stream.good then
    match stream.rest.dropWhile isSpace with
    | [] => (⟨[], false⟩, old)
    | symbol :: rest =>
      let after := (symbol :: rest).dropWhile fun symbol ↦ !isSpace symbol
      (⟨after, !after.isEmpty⟩, (symbol :: rest).takeWhile fun symbol ↦ !isSpace symbol)
  else (stream, old)

/-- The tokens that are still to be extracted. -/
def TokenStream.pending (stream : TokenStream Symbol) : List (List Symbol) :=
  if stream.good then tokens isSpace stream.rest else []

/-! ### The tokens of an input -/

theorem tokens_nil : tokens isSpace [] = [] := by
  rw [tokens, List.splitOnP_nil]
  rfl

variable {isSpace}

/-- A separator in front is in no token. -/
theorem tokens_cons_of_space {symbol : Symbol} (hspace : isSpace symbol = true)
    (input : List Symbol) : tokens isSpace (symbol :: input) = tokens isSpace input := by
  rw [tokens, List.splitOnP_cons_eq_if_modifyHead, if_pos hspace]
  rfl

theorem tokens_dropWhile (input : List Symbol) :
    tokens isSpace (input.dropWhile isSpace) = tokens isSpace input := by
  induction input with
  | nil => rfl
  | cons symbol rest ih =>
    cases hspace : isSpace symbol with
    | true => rw [List.dropWhile_cons_of_pos hspace, ih, tokens_cons_of_space hspace]
    | false => rw [List.dropWhile_cons_of_neg (by simp [hspace])]

/-- The first token of an input without separators in front. -/
theorem tokens_of_word {word : List Symbol} (hne : word ≠ [])
    (hword : ∀ symbol ∈ word, isSpace symbol = false) {rest : List Symbol}
    (hrest : ∀ symbol ∈ rest.head?, isSpace symbol = true) :
    tokens isSpace (word ++ rest) = word :: tokens isSpace rest := by
  have hkept : ∀ later : List (List Symbol),
      (word :: later).filter (fun token ↦ !token.isEmpty) =
        word :: later.filter fun token ↦ !token.isEmpty :=
    fun _ ↦ List.filter_cons_of_pos (by simpa using hne)
  cases rest with
  | nil =>
    rw [List.append_nil, tokens_nil, tokens, List.splitOnP_eq_singleton hword, hkept,
      List.filter_nil]
  | cons symbol rest =>
    have hspace : isSpace symbol = true := hrest symbol rfl
    rw [tokens_cons_of_space hspace, tokens,
      List.splitOnP_append_cons_of_forall_mem hword _ hspace, hkept]
    rfl

/-! ### Extractions -/

/-- An extraction from a good stream reads nothing when only separators are left, and else the first
word behind them. -/
theorem extract_cases (isSpace : Symbol → Bool) {stream : TokenStream Symbol}
    (hgood : stream.good = true) (old : List Symbol) :
    (tokens isSpace stream.rest = [] ∧ stream.extract isSpace old = (⟨[], false⟩, old)) ∨
      ∃ token rest, tokens isSpace stream.rest = token :: tokens isSpace rest ∧
        stream.extract isSpace old = (⟨rest, !rest.isEmpty⟩, token) := by
  unfold TokenStream.extract
  rw [if_pos hgood, ← tokens_dropWhile]
  cases hinput : stream.rest.dropWhile isSpace with
  | nil => exact Or.inl ⟨tokens_nil isSpace, rfl⟩
  | cons symbol rest =>
    have hfirst : isSpace symbol = false := by
      have hhead := List.head?_dropWhile_not isSpace stream.rest
      rwa [hinput, List.head?_cons] at hhead
    refine Or.inr ⟨(symbol :: rest).takeWhile fun symbol ↦ !isSpace symbol,
      (symbol :: rest).dropWhile fun symbol ↦ !isSpace symbol, ?_, rfl⟩
    rw [← tokens_of_word, List.takeWhile_append_dropWhile]
    · rw [List.takeWhile_cons_of_pos (by rw [hfirst]; rfl)]
      exact List.cons_ne_nil _ _
    · intro member hmember
      have hall := List.all_eq_true.mp List.all_takeWhile member hmember
      simpa using hall
    · intro separator hseparator
      have hhead := List.head?_dropWhile_not (fun symbol ↦ !isSpace symbol) (symbol :: rest)
      rw [Option.mem_def.mp hseparator] at hhead
      simpa using hhead

/-- A stream at the end of its input is no longer good, and nothing is pending either way. -/
theorem pending_of_rest (isSpace : Symbol → Bool) (rest : List Symbol) :
    TokenStream.pending isSpace ⟨rest, !rest.isEmpty⟩ = tokens isSpace rest := by
  cases rest with
  | nil => exact (tokens_nil isSpace).symm
  | cons symbol rest => rfl

/-- An extraction of a pending token. -/
theorem extract_of_pending_cons {stream : TokenStream Symbol} {token : List Symbol}
    {later : List (List Symbol)} (hpending : stream.pending isSpace = token :: later)
    (old : List Symbol) :
    (stream.extract isSpace old).2 = token ∧
      (stream.extract isSpace old).1.pending isSpace = later := by
  unfold TokenStream.pending at hpending
  cases hgood : stream.good with
  | false =>
    rw [hgood] at hpending
    cases hpending
  | true =>
    rw [if_pos hgood] at hpending
    rcases extract_cases isSpace hgood old with ⟨hnone, -⟩ | ⟨first, rest, htokens, hextract⟩
    · rw [hnone] at hpending
      cases hpending
    · rw [htokens] at hpending
      obtain ⟨rfl, rfl⟩ := List.cons.inj hpending
      rw [hextract]
      exact ⟨rfl, pending_of_rest isSpace rest⟩

/-- An extraction when no token is left. -/
theorem extract_of_pending_nil {stream : TokenStream Symbol}
    (hpending : stream.pending isSpace = []) (old : List Symbol) :
    (stream.extract isSpace old).2 = old ∧
      (stream.extract isSpace old).1.pending isSpace = [] := by
  cases hgood : stream.good with
  | false =>
    have hextract : stream.extract isSpace old = (stream, old) := by
      unfold TokenStream.extract
      rw [hgood]
      rfl
    rw [hextract]
    exact ⟨rfl, hpending⟩
  | true =>
    unfold TokenStream.pending at hpending
    rw [if_pos hgood] at hpending
    rcases extract_cases isSpace hgood old with ⟨-, hextract⟩ | ⟨_, _, htokens, -⟩
    · rw [hextract]
      exact ⟨rfl, rfl⟩
    · rw [htokens] at hpending
      cases hpending

end KernelExperiments.Foundation
