import TextMaster.ProcessTextCore

/-!
What one iteration of the generation loop does, what the search for the best token finds, and
the induction rule for the whole loop.
-/

namespace TextMaster

def SearchState (logits : Nat → Binary32) (count : Nat) (best : Token × Binary32) : Prop :=
  (best = (-1, Binary32.negativeInfinity) ∧
    ∀ id < count, (logits id).gt Binary32.negativeInfinity = false) ∨
  ∃ found < count, best = ((found : Int), logits found) ∧
    (logits found).gt Binary32.negativeInfinity = true ∧
    (∀ id < count, (logits id).gt (logits found) = false) ∧
    ∀ id < found, (logits id).isNaN = false → (logits found).gt (logits id) = true

theorem first_of_better {logits : Nat → Binary32} {count : Nat} {best : Binary32}
    (largest : ∀ id < count, (logits id).gt best = false)
    (better : (logits count).gt best = true) :
    (∀ id < count + 1, (logits id).gt (logits count) = false) ∧
      ∀ id < count, (logits id).isNaN = false → (logits count).gt (logits id) = true := by
  constructor
  · intro id below
    by_cases last : id = count
    · rw [last]
      exact Binary32.gt_self _
    · by_contra exceeds
      have above : (logits id).gt (logits count) = true := by simpa using exceeds
      have contradiction := Binary32.gt_trans above better
      rw [largest id (by omega)] at contradiction
      exact absurd contradiction (by decide)
  · intro id below number
    exact Binary32.gt_of_not_gt_of_gt (largest id below) better number

theorem largest_of_worse {logits : Nat → Binary32} {count : Nat} {best : Binary32}
    (largest : ∀ id < count, (logits id).gt best = false)
    (worse : ¬(logits count).gt best = true) :
    ∀ id < count + 1, (logits id).gt best = false := by
  intro id below
  by_cases last : id = count
  · simpa [last] using worse
  · exact largest id (by omega)

theorem keepBest_searchState {logits : Nat → Binary32} {count : Nat}
    {best : Token × Binary32} (searched : SearchState logits count best) :
    SearchState logits (count + 1) (keepBest logits best count) := by
  unfold keepBest
  rcases searched with ⟨rfl, none⟩ | ⟨found, bound, rfl, above, largest, first⟩
  · split
    · rename_i better
      exact Or.inr ⟨count, by omega, rfl, better, first_of_better none better⟩
    · rename_i worse
      exact Or.inl ⟨rfl, largest_of_worse none worse⟩
  · split
    · rename_i better
      exact Or.inr ⟨count, by omega, rfl, Binary32.gt_trans better above,
        first_of_better largest better⟩
    · rename_i worse
      exact Or.inr ⟨found, by omega, rfl, above, largest_of_worse largest worse, first⟩

theorem search_searchState (logits : Nat → Binary32) (count : Nat) :
    SearchState logits count
      ((List.range count).foldl (keepBest logits) (-1, Binary32.negativeInfinity)) := by
  induction count with
  | zero => exact Or.inl ⟨rfl, by omega⟩
  | succ count ih =>
      rw [List.range_succ, List.foldl_append]
      exact keepBest_searchState ih

theorem bestToken_cases (vocab : Vocab) (logits : Nat → Binary32) :
    (bestToken vocab logits = -1 ∧
      ∀ id < vocab.nTokens, (logits id).gt Binary32.negativeInfinity = false) ∨
    ∃ found < vocab.nTokens, bestToken vocab logits = found ∧
      (logits found).gt Binary32.negativeInfinity = true ∧
      (∀ id < vocab.nTokens, (logits id).gt (logits found) = false) ∧
      ∀ id < found, (logits id).isNaN = false → (logits found).gt (logits id) = true := by
  rcases search_searchState logits vocab.nTokens with ⟨same, none⟩ | ⟨found, bound, same, rest⟩
  · exact Or.inl ⟨by simp [bestToken, same], none⟩
  · exact Or.inr ⟨found, bound, by simp [bestToken, same], rest⟩

theorem bestToken_of_nan (vocab : Vocab) {logits : Nat → Binary32}
    (allNaN : ∀ id, (logits id).isNaN = true) : bestToken vocab logits = -1 := by
  rcases bestToken_cases vocab logits with ⟨same, _⟩ | ⟨found, _, _, above, _⟩
  · exact same
  · rw [Binary32.nan_gt (allNaN found)] at above
    exact absurd above (by decide)

theorem bestToken_of_single (vocab : Vocab) {logits : Nat → Binary32} {token : Nat}
    (bound : token < vocab.nTokens)
    (above : (logits token).gt Binary32.negativeInfinity = true)
    (others : ∀ id, id ≠ token → (logits id).isNaN = true) :
    bestToken vocab logits = token := by
  rcases bestToken_cases vocab logits with ⟨_, none⟩ | ⟨found, _, same, foundAbove, _⟩
  · rw [none token bound] at above
    exact absurd above (by decide)
  · by_cases equal : found = token
    · rw [same, equal]
    · rw [Binary32.nan_gt (others found equal)] at foundAbove
      exact absurd foundAbove (by decide)

section Loop

variable {Context : Type}

@[simp] theorem Generation.call_context (state : Generation Context) (call : BatchCall) :
    (state.call call).context = state.context := rfl

@[simp] theorem Generation.call_responseTokens (state : Generation Context) (call : BatchCall) :
    (state.call call).responseTokens = state.responseTokens := rfl

inductive TokenCheck (vocab : Vocab) (best : Token) (state : Generation Context) :
    Generation Context → Option Exit → Prop where
  | endOfText : best = vocab.eos → TokenCheck vocab best state state (some .endOfText)
  | repeated : best ≠ vocab.eos → repeatedTokens state.responseTokens = true →
      TokenCheck vocab best state state (some .repeatedTokens)
  | lastEmpty : best ≠ vocab.eos → repeatedTokens state.responseTokens = false →
      (llamaTokenToPiece vocab best pieceSize).1 ≤ 0 →
      maxEmptyTokens ≤ state.consecutiveEmptyTokens + 1 →
      TokenCheck vocab best state
        { state with consecutiveEmptyTokens := state.consecutiveEmptyTokens + 1 }
        (some .emptyTokens)
  | empty : best ≠ vocab.eos → repeatedTokens state.responseTokens = false →
      (llamaTokenToPiece vocab best pieceSize).1 ≤ 0 →
      state.consecutiveEmptyTokens + 1 < maxEmptyTokens →
      TokenCheck vocab best state
        { state with consecutiveEmptyTokens := state.consecutiveEmptyTokens + 1 } none
  | filled : best ≠ vocab.eos → repeatedTokens state.responseTokens = false →
      ¬ (llamaTokenToPiece vocab best pieceSize).1 ≤ 0 →
      TokenCheck vocab best state { state with consecutiveEmptyTokens := 0 } none

theorem checkToken_check {vocab : Vocab} {best : Token} {state next : Generation Context}
    {exit : Option Exit} (checked : checkToken vocab best state = (next, exit)) :
    TokenCheck vocab best state next exit := by
  simp only [checkToken] at checked
  split at checked
  · rename_i ended
    cases checked
    exact .endOfText ended
  · rename_i more
    split at checked
    · rename_i same
      cases checked
      exact .repeated more same
    · rename_i varied
      have varied : repeatedTokens state.responseTokens = false := by simpa using varied
      split at checked
      · rename_i blank
        split at checked
        · rename_i many
          cases checked
          exact .lastEmpty more varied blank many
        · rename_i few
          cases checked
          exact .empty more varied blank (Nat.lt_of_not_le few)
      · rename_i full
        cases checked
        exact .filled more varied full

theorem checkToken_frame {vocab : Vocab} {best : Token} {state next : Generation Context}
    {exit : Option Exit} (checked : checkToken vocab best state = (next, exit)) :
    next.context = state.context ∧ next.responseTokens = state.responseTokens ∧
      ∀ stopped, exit = some stopped →
        stopped = .endOfText ∨ stopped = .repeatedTokens ∨ stopped = .emptyTokens := by
  cases checkToken_check checked <;> exact ⟨rfl, rfl, by simp⟩

def Generation.opened (i : Nat) (state : Generation Context) : Generation Context :=
  (state.call (.init (i + 1))).call (.decode (i + 1))

@[simp] theorem Generation.opened_context (i : Nat) (state : Generation Context) :
    (state.opened i).context = state.context := rfl

@[simp] theorem Generation.opened_responseTokens (i : Nat) (state : Generation Context) :
    (state.opened i).responseTokens = state.responseTokens := rfl

inductive IterationStep (llama : Llama Context) (vocab : Vocab) (tokens : List Token) (i : Nat)
    (state : Generation Context) : Generation Context → Option Exit → Prop where
  | aborted :
      llama.decode state.context (nextBatch tokens state.responseTokens i) = .aborted →
      IterationStep llama vocab tokens i state (state.opened i) (some .aborted)
  | threw (what : QString) (context : Context) :
      llama.decode state.context (nextBatch tokens state.responseTokens i) =
        .threw what context →
      IterationStep llama vocab tokens i state { state.opened i with context := context }
        (some (.threw what))
  | failed (code : Int) (context : Context) :
      llama.decode state.context (nextBatch tokens state.responseTokens i) =
        .failure code context →
      IterationStep llama vocab tokens i state
        (Generation.call { state.opened i with context := context } (.free (i + 1)))
        (some .decodeFailed)
  | noLogits (context : Context) :
      llama.decode state.context (nextBatch tokens state.responseTokens i) = .success context →
      llama.getLogitsIth context 0 = none →
      IterationStep llama vocab tokens i state
        (Generation.call { state.opened i with context := context } (.free (i + 1)))
        (some .noLogits)
  | noBestToken (context : Context) (logits : Nat → Binary32) :
      llama.decode state.context (nextBatch tokens state.responseTokens i) = .success context →
      llama.getLogitsIth context 0 = some logits → bestToken vocab logits = -1 →
      IterationStep llama vocab tokens i state
        (Generation.call { state.opened i with context := context } (.free (i + 1)))
        (some .noBestToken)
  | chosen (context : Context) (logits : Nat → Binary32) (checked : Generation Context)
      (exit : Option Exit) :
      llama.decode state.context (nextBatch tokens state.responseTokens i) = .success context →
      llama.getLogitsIth context 0 = some logits → bestToken vocab logits ≠ -1 →
      checkToken vocab (bestToken vocab logits) { state.opened i with
        context := context
        responseTokens := state.responseTokens ++ [bestToken vocab logits] } = (checked, exit) →
      IterationStep llama vocab tokens i state (checked.call (.free (i + 1))) exit

theorem iteration_step {llama : Llama Context} {vocab : Vocab} {tokens : List Token} {i : Nat}
    {state next : Generation Context} {exit : Option Exit}
    (taken : iteration llama vocab tokens i state = (next, exit)) :
    IterationStep llama vocab tokens i state next exit := by
  simp only [iteration] at taken
  split at taken
  · rename_i decoded
    cases taken
    exact .aborted decoded
  · rename_i what context decoded
    cases taken
    exact .threw what context decoded
  · rename_i code context decoded
    cases taken
    exact .failed code context decoded
  · rename_i context decoded
    cases taken
    simp only [chooseToken]
    split
    · rename_i missing
      exact .noLogits context decoded missing
    · rename_i logits answered
      split
      · rename_i none
        exact .noBestToken context logits decoded answered none
      · rename_i some
        exact .chosen context logits _ _ decoded answered some rfl

theorem generateTokens_stop {llama : Llama Context} {vocab : Vocab} {tokens : List Token}
    {remaining i : Nat} {state next : Generation Context} {exit : Exit}
    (taken : iteration llama vocab tokens i state = (next, some exit)) :
    generateTokens llama vocab tokens (remaining + 1) i state = (next, exit) := by
  simp only [generateTokens, taken]

theorem generateTokens_continue {llama : Llama Context} {vocab : Vocab} {tokens : List Token}
    {remaining i : Nat} {state next : Generation Context}
    (taken : iteration llama vocab tokens i state = (next, none)) :
    generateTokens llama vocab tokens (remaining + 1) i state =
      generateTokens llama vocab tokens remaining (i + 1) next := by
  simp only [generateTokens, taken]

theorem nextBatch_valid {nTokens i : Nat} {tokens responseTokens : List Token}
    (nonempty : (if i = 0 then tokens else responseTokens) ≠ [])
    (valid : ∀ token ∈ (if i = 0 then tokens else responseTokens),
      validToken nTokens token = true) :
    ∀ entry ∈ nextBatch tokens responseTokens i, validToken nTokens entry.token = true := by
  intro entry member
  simp only [nextBatch, List.mem_singleton] at member
  subst member
  apply valid
  rw [List.getLastD_eq_getLast?, List.getLast?_eq_some_getLast nonempty, Option.getD_some]
  exact List.getLast_mem nonempty

/-- The loop rule: an invariant indexed by the iteration, and what each way out makes of it. -/
theorem generateTokens_rule_below (llama : Llama Context) (vocab : Vocab) (tokens : List Token)
    (invariant : Nat → Generation Context → Prop) (finished : Generation Context → Exit → Prop)
    (bound : Nat)
    (continues : ∀ i state next, i < bound → invariant i state →
      iteration llama vocab tokens i state = (next, none) → invariant (i + 1) next)
    (exits : ∀ i state next exit, i < bound → invariant i state →
      iteration llama vocab tokens i state = (next, some exit) → finished next exit)
    (limit : ∀ last, invariant bound last → finished last .limitReached) :
    ∀ remaining i state, i + remaining = bound → invariant i state →
      finished (generateTokens llama vocab tokens remaining i state).1
        (generateTokens llama vocab tokens remaining i state).2 := by
  intro remaining
  induction remaining with
  | zero =>
      intro i state reached holds
      exact limit state (by rwa [← reached])
  | succ remaining ih =>
      intro i state reached holds
      cases taken : iteration llama vocab tokens i state with
      | mk next exit =>
          cases exit with
          | none =>
              rw [generateTokens_continue taken]
              exact ih (i + 1) next (by omega) (continues i state next (by omega) holds taken)
          | some exit =>
              rw [generateTokens_stop taken]
              exact exits i state next exit (by omega) holds taken

theorem generateTokens_rule (llama : Llama Context) (vocab : Vocab) (tokens : List Token)
    (invariant : Nat → Generation Context → Prop) (finished : Generation Context → Exit → Prop)
    (continues : ∀ i state next, invariant i state →
      iteration llama vocab tokens i state = (next, none) → invariant (i + 1) next)
    (exits : ∀ i state next exit, invariant i state →
      iteration llama vocab tokens i state = (next, some exit) → finished next exit)
    (remaining i : Nat) (state : Generation Context)
    (limit : ∀ last, invariant (i + remaining) last → finished last .limitReached)
    (holds : invariant i state) :
    finished (generateTokens llama vocab tokens remaining i state).1
      (generateTokens llama vocab tokens remaining i state).2 :=
  generateTokens_rule_below llama vocab tokens invariant finished (i + remaining)
    (fun i state next _ => continues i state next)
    (fun i state next exit _ => exits i state next exit) limit remaining i state rfl holds

end Loop

theorem promptTokens_eq_some {vocab : Vocab} {prompt : QString} {tokens : List Token} :
    promptTokens vocab prompt = some tokens ↔ vocab.tokenize (toStdString prompt) = tokens ∧
      tokens.length ≤ (toStdString prompt).length + 1 := by
  unfold promptTokens llamaTokenize
  by_cases fits : (vocab.tokenize (toStdString prompt)).length ≤ (toStdString prompt).length + 1
  · have counted : ¬ ((vocab.tokenize (toStdString prompt)).length : Int) < 0 := by omega
    simp only [if_neg (Nat.not_lt.mpr fits), if_neg counted, Option.some.injEq]
    constructor
    · rintro rfl
      exact ⟨rfl, fits⟩
    · rintro ⟨same, _⟩
      exact same
  · have negative : -((vocab.tokenize (toStdString prompt)).length : Int) < 0 := by omega
    simp only [if_pos (Nat.lt_of_not_le fits), if_pos negative]
    constructor
    · intro impossible
      contradiction
    · rintro ⟨rfl, bound⟩
      exact absurd bound fits

section Letters

def letterVocab : Vocab where
  nTokens := 2
  eos := 0
  special token := token == 0
  piece _ := [97]
  tokenize := List.map fun _ => 1

def fromLatin1 : List UInt8 → QString := List.map fun byte => Char.ofNat byte.toNat

theorem letterVocab_tokens (prompt : QString) :
    promptTokens letterVocab prompt = some (List.replicate (toStdString prompt).length 1) :=
  promptTokens_eq_some.mpr ⟨List.map_const', by simp⟩

end Letters

end TextMaster
