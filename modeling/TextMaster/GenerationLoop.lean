import TextMaster.DecoderSimulation
import TextMaster.ResponseText

/-!
The bookkeeping of the generation loop: the states in which its iterations start, the batches
they submit, and the invariant that ties the iteration number to the two counters.
-/

namespace TextMaster

def emptyPiece (vocab : Vocab) (token : Token) : Bool :=
  (llamaTokenToPiece vocab token pieceSize).1 ≤ 0

def trailingRun (test : Token → Bool) (tokens : List Token) : Nat :=
  (tokens.reverse.takeWhile test).length

theorem trailingRun_append (test : Token → Bool) (tokens : List Token) (token : Token) :
    trailingRun test (tokens ++ [token]) =
      if test token then trailingRun test tokens + 1 else 0 := by
  rw [trailingRun, List.reverse_append, List.reverse_singleton, List.singleton_append,
    List.takeWhile_cons]
  split <;> rfl

def BatchCall.decoded : BatchCall → Option Nat
  | .decode batch => some batch
  | _ => none

/-- An exception leaves the loop behind its `llama_batch_free` calls. -/
def Exit.raised : Exit → Bool
  | .threw _ | .aborted => true
  | _ => false

def iterationCalls (i : Nat) (exit : Option Exit) : List BatchCall :=
  if exit.any Exit.raised then [.init (i + 1), .decode (i + 1)]
  else [.init (i + 1), .decode (i + 1), .free (i + 1)]

section Loop

variable {Context : Type} (llama : Llama Context) (vocab : Vocab) (tokens : List Token)

def starts : Nat → Nat → Generation Context → List (Generation Context)
  | 0, _, _ => []
  | remaining + 1, i, state =>
    state :: match iteration llama vocab tokens i state with
      | (_, some _) => []
      | (next, none) => starts remaining (i + 1) next

def positions (batches : List (List BatchToken)) : List Nat :=
  batches.flatMap fun batch => batch.map BatchToken.pos

structure Bookkeeping (i : Nat) (state : Generation Context) : Prop where
  grown : state.responseTokens.length = i
  counted : state.consecutiveEmptyTokens = trailingRun (emptyPiece vocab) state.responseTokens
  below : state.consecutiveEmptyTokens < maxEmptyTokens

end Loop

section Record

variable {Context : Type}

/-- The same decoder, which also writes down the batches it is given. Where the process ends in a
call, it throws instead, so that its record is left to read. -/
def Llama.recording (llama : Llama Context) : Llama (Context × List (List BatchToken)) where
  decode state batch :=
    let record := state.2 ++ [batch]
    match llama.decode state.1 batch with
    | .success context => .success (context, record)
    | .failure code context => .failure code (context, record)
    | .threw what context => .threw what (context, record)
    | .aborted => .threw [] (state.1, record)
  getLogitsIth state := llama.getLogitsIth state.1

/-- The batches that one call of `processText` passes to `llama_decode`. -/
def recordedBatches (llama : Llama Context) (fromStdString : List UInt8 → QString) (vocab : Vocab)
    (context : Context) (prompt : QString) : List (List BatchToken) :=
  match (processText llama.recording fromStdString
    ⟨some (context, []), some ⟨some vocab⟩⟩ prompt).impl.context with
  | some (_, record) => record
  | none => []

end Record

/-- The read of `response_tokens[size - back]`, with `none` for one outside the list. -/
def fromBack (responseTokens : List Token) (back : Nat) : Option Token :=
  if 0 < back ∧ back ≤ responseTokens.length then responseTokens[responseTokens.length - back]?
  else none

/-- The test for repeated tokens as it reads the list; each `&&` stops at a false left side. -/
def readRepeated (responseTokens : List Token) : Option Bool :=
  if 3 < responseTokens.length then do
    let last ← fromBack responseTokens 1
    let second ← fromBack responseTokens 2
    if last == second then do
      let second ← fromBack responseTokens 2
      let third ← fromBack responseTokens 3
      return second == third
    else return false
  else return false

section Iteration

variable {Context : Type} {llama : Llama Context} {vocab : Vocab} {tokens : List Token}
  {i remaining : Nat} {state next : Generation Context} {exit : Option Exit}

@[simp] theorem Generation.opened_consecutiveEmptyTokens (i : Nat) (state : Generation Context) :
    (state.opened i).consecutiveEmptyTokens = state.consecutiveEmptyTokens := rfl

@[simp] theorem Generation.call_consecutiveEmptyTokens (state : Generation Context)
    (call : BatchCall) :
    (state.call call).consecutiveEmptyTokens = state.consecutiveEmptyTokens := rfl

theorem checkToken_continues {best : Token}
    (checked : checkToken vocab best state = (next, none)) :
    next.consecutiveEmptyTokens < maxEmptyTokens ∧
      next.consecutiveEmptyTokens =
        if emptyPiece vocab best then state.consecutiveEmptyTokens + 1 else 0 := by
  cases checkToken_check checked with
  | empty more varied blank few => exact ⟨few, by simp [emptyPiece, blank]⟩
  | filled more varied full => exact ⟨Nat.succ_pos 4, by simp [emptyPiece, full]⟩

theorem checkToken_calls {best : Token} (checked : checkToken vocab best state = (next, exit)) :
    next.calls = state.calls ∧ exit.any Exit.raised = false := by
  cases checkToken_check checked <;> exact ⟨rfl, rfl⟩

theorem iteration_keeps_bookkeeping (books : Bookkeeping vocab i state)
    (taken : iteration llama vocab tokens i state = (next, none)) :
    Bookkeeping vocab (i + 1) next := by
  cases iteration_step taken with
  | chosen context logits checked exit decoded answered found chosen =>
      obtain ⟨_, sameTokens, _⟩ := checkToken_frame chosen
      obtain ⟨few, counted⟩ := checkToken_continues chosen
      constructor
      · rw [Generation.call_responseTokens, sameTokens, List.length_append, books.grown]
        rfl
      · rw [Generation.call_consecutiveEmptyTokens, counted, Generation.call_responseTokens,
          sameTokens, trailingRun_append, ← books.counted]
        rfl
      · exact few

theorem iteration_adds_one (taken : iteration llama vocab tokens i state = (next, exit)) :
    next.responseTokens.length ≤ state.responseTokens.length + 1 := by
  cases iteration_step taken with
  | chosen context logits checked exit decoded answered found chosen =>
      rw [Generation.call_responseTokens, (checkToken_frame chosen).2.1, List.length_append]
      exact Nat.le_refl _
  | _ => exact Nat.le_succ _

theorem iteration_calls (taken : iteration llama vocab tokens i state = (next, exit)) :
    next.calls = state.calls ++ iterationCalls i exit := by
  cases iteration_step taken with
  | chosen context logits checked exit decoded answered found chosen =>
      obtain ⟨sameCalls, returned⟩ := checkToken_calls chosen
      simp [iterationCalls, returned, Generation.opened, Generation.call, sameCalls]
  | _ => simp [iterationCalls, Exit.raised, Generation.opened, Generation.call]

theorem iterationCalls_decoded (i : Nat) (exit : Option Exit) :
    (iterationCalls i exit).filterMap BatchCall.decoded = [i + 1] := by
  rw [iterationCalls]
  split <;> rfl

theorem starts_rule (invariant : Nat → Generation Context → Prop)
    (continues : ∀ i state next, invariant i state →
      iteration llama vocab tokens i state = (next, none) → invariant (i + 1) next)
    (holds : invariant i state) {k : Nat} {reached : Generation Context}
    (entered : (starts llama vocab tokens remaining i state)[k]? = some reached) :
    invariant (i + k) reached := by
  induction remaining generalizing i state k with
  | zero => simp [starts] at entered
  | succ remaining ih =>
      rw [starts] at entered
      cases k with
      | zero =>
          rw [List.getElem?_cons_zero, Option.some.injEq] at entered
          rwa [← entered]
      | succ k =>
          rw [List.getElem?_cons_succ] at entered
          split at entered
          · simp at entered
          · rename_i next taken
            have later := ih (continues i state next holds taken) entered
            rwa [Nat.add_assoc, Nat.add_comm 1 k] at later

theorem positions_promptBatch (tokens : List Token) :
    (promptBatch tokens).map BatchToken.pos = List.range tokens.length := by
  apply List.ext_getElem
  · simp [promptBatch]
  · intro pos _ _
    simp [promptBatch]

theorem generateTokens_decodes (llama : Llama Context) (vocab : Vocab) (tokens : List Token)
    (remaining i : Nat) (state : Generation Context) :
    (generateTokens llama vocab tokens remaining i state).1.calls.filterMap BatchCall.decoded =
      state.calls.filterMap BatchCall.decoded ++
        List.range' (i + 1) (starts llama vocab tokens remaining i state).length := by
  induction remaining generalizing i state with
  | zero => simp [generateTokens, starts]
  | succ remaining ih =>
      cases taken : iteration llama vocab tokens i state with
      | mk next exit =>
          have once := iterationCalls_decoded i exit
          cases exit with
          | some exit =>
              rw [generateTokens_stop taken, iteration_calls taken, List.filterMap_append, once,
                starts, taken]
              rfl
          | none =>
              rw [generateTokens_continue taken, ih, iteration_calls taken,
                List.filterMap_append, once, starts, taken, List.length_cons,
                List.range'_succ, List.append_assoc, List.singleton_append]

abbrev Recorded (state : Context × List (List BatchToken)) (context : Context) : Prop :=
  state.1 = context

theorem recording_decode {state after : Context × List (List BatchToken)} {batch : List BatchToken}
    (ends : llama.recording.decode state batch = .success after ∨
      (∃ code, llama.recording.decode state batch = .failure code after) ∨
      ∃ what, llama.recording.decode state batch = .threw what after) :
    after.2 = state.2 ++ [batch] := by
  simp only [Llama.recording] at ends
  cases decoded : llama.decode state.1 batch <;> simp only [decoded] at ends <;>
    rcases ends with same | ⟨_, same⟩ | ⟨_, same⟩ <;> cases same <;> rfl

theorem recording_answers {state : Context × List (List BatchToken)} {batch : List BatchToken}
    (returns : llama.decode state.1 batch ≠ .aborted) :
    Answers Recorded llama.recording llama state state.1 (llama.recording.decode state batch)
      (llama.decode state.1 batch) := by
  simp only [Llama.recording]
  cases decoded : llama.decode state.1 batch with
  | success context => exact .success _ _ rfl fun _ => rfl
  | failure code context => exact .failure _ _ _ _ rfl fun _ _ => rfl
  | threw what context => exact .threw _ _ _ rfl fun _ _ => rfl
  | aborted => exact absurd decoded returns

theorem iteration_records {state next : Generation (Context × List (List BatchToken))}
    (taken : iteration llama.recording vocab tokens i state = (next, exit)) :
    next.context.2 = state.context.2 ++ [nextBatch tokens state.responseTokens i] := by
  cases iteration_step taken with
  | aborted decoded =>
      simp only [Llama.recording] at decoded
      split at decoded <;> contradiction
  | threw what context decoded => exact recording_decode (Or.inr (Or.inr ⟨what, decoded⟩))
  | failed code context decoded => exact recording_decode (Or.inr (Or.inl ⟨code, decoded⟩))
  | noLogits context decoded => exact recording_decode (Or.inl decoded)
  | noBestToken context logits decoded => exact recording_decode (Or.inl decoded)
  | chosen context logits checked exit decoded answered found chosen =>
      rw [Generation.call_context, (checkToken_frame chosen).1]
      exact recording_decode (Or.inl decoded)

theorem iteration_recording {state : Generation (Context × List (List BatchToken))}
    {plain : Generation Context} (agrees : state.Agrees Recorded plain) :
    ((iteration llama.recording vocab tokens i state).2 = none ↔
      (iteration llama vocab tokens i plain).2 = none) ∧
    ((iteration llama.recording vocab tokens i state).2 = none →
      (iteration llama.recording vocab tokens i state).1.Agrees Recorded
        (iteration llama vocab tokens i plain).1) := by
  have context : state.context.1 = plain.context := agrees.context
  by_cases aborts : llama.decode plain.context (nextBatch tokens plain.responseTokens i) = .aborted
  · simp [iteration, Llama.recording, context, agrees.responseTokens, aborts]
  · have answers : Answers Recorded llama.recording llama state.context plain.context
        (llama.recording.decode state.context (nextBatch tokens state.responseTokens i))
        (llama.decode plain.context (nextBatch tokens plain.responseTokens i)) := by
      rw [← context, ← agrees.responseTokens] at aborts ⊢
      exact recording_answers aborts
    obtain ⟨held, sameExit⟩ := iteration_agrees vocab agrees answers
    exact ⟨by rw [sameExit], fun _ => held⟩

theorem positions_nextBatch (tokens responseTokens : List Token) (i : Nat) :
    positions [nextBatch tokens responseTokens i] = [tokens.length + i] := rfl

theorem positions_append (first second : List (List BatchToken)) :
    positions (first ++ second) = positions first ++ positions second := List.flatMap_append

theorem generateTokens_records (llama : Llama Context) (vocab : Vocab) (tokens : List Token)
    (remaining i : Nat) {state : Generation (Context × List (List BatchToken))}
    {plain : Generation Context} (agrees : state.Agrees Recorded plain) :
    positions (generateTokens llama.recording vocab tokens remaining i state).1.context.2 =
      positions state.context.2 ++
        List.range' (tokens.length + i) (starts llama vocab tokens remaining i plain).length := by
  induction remaining generalizing i state plain with
  | zero => simp [generateTokens, starts]
  | succ remaining ih =>
      have both := @iteration_recording _ llama vocab tokens i _ _ agrees
      cases taken : iteration llama.recording vocab tokens i state with
      | mk next exit =>
          cases plainTaken : iteration llama vocab tokens i plain with
          | mk plainNext plainExit =>
              rw [taken, plainTaken] at both
              obtain ⟨goesOn, kept⟩ := both
              have one : positions next.context.2 =
                  positions state.context.2 ++ [tokens.length + i] := by
                rw [iteration_records taken, positions_append, positions_nextBatch]
              rw [starts, plainTaken]
              cases exit with
              | some exit =>
                  cases plainExit with
                  | none => simp at goesOn
                  | some plainExit =>
                      rw [generateTokens_stop taken]
                      exact one
              | none =>
                  cases plainExit with
                  | some plainExit => simp at goesOn
                  | none =>
                      rw [generateTokens_continue taken, ih (i + 1) (kept rfl), one,
                        List.append_assoc, List.singleton_append, List.length_cons,
                        List.range'_succ, Nat.add_assoc]

theorem generateTokens_length_le (llama : Llama Context) (vocab : Vocab) (tokens : List Token)
    {remaining i : Nat} {state : Generation Context} (books : Bookkeeping vocab i state) :
    (generateTokens llama vocab tokens remaining i state).1.responseTokens.length ≤
      i + remaining := by
  refine generateTokens_rule_below llama vocab tokens (Bookkeeping vocab)
    (fun final _ => final.responseTokens.length ≤ i + remaining) (i + remaining)
    ?_ ?_ ?_ remaining i state rfl books
  · intro j current next _ kept taken
    exact iteration_keeps_bookkeeping kept taken
  · intro j current next exit below kept taken
    have one := iteration_adds_one taken
    have reached := kept.grown
    omega
  · intro last kept
    exact Nat.le_of_eq kept.grown

end Iteration

section Call

variable {Context : Type}

def entered (llama : Llama Context) (vocab : Vocab) (context : Context) (tokens : List Token) :
    List (Generation Context) :=
  match llama.decode context (promptBatch tokens) with
  | .success after => starts llama vocab tokens maxResponseTokens 0 ⟨after, [], 0,
      [.init 0, .decode 0]⟩
  | _ => []

/-- The books of one call: `entered` are the states in which its iterations start, and `batches`
those that `llama_decode` is given. -/
structure KeepsBooks (vocab : Vocab) (tokens : List Token) (entered : List (Generation Context))
    (batches : List (List BatchToken)) (processed : Processed Context) : Prop where
  books : ∀ i state, entered[i]? = some state → Bookkeeping vocab i state
  filled : ∀ (i : Nat) state, entered[i]? = some state →
    (if i = 0 then tokens else state.responseTokens) ≠ []
  tests : ∀ (i : Nat) state, entered[i]? = some state → ∀ best,
    let tested := state.responseTokens ++ [best]
    readRepeated tested = some (repeatedTokens tested) ∧
      (repeatedTokens tested = true → 3 ≤ i)
  gapless : positions batches = List.range (tokens.length + entered.length)
  decodes : processed.calls.filterMap BatchCall.decoded = List.range (1 + entered.length)
  limited : processed.responseTokens.length ≤ maxResponseTokens

theorem fromBack_inside {tested : List Token} {back : Nat} (positive : 0 < back)
    (inside : back ≤ tested.length) :
    fromBack tested back = tested[tested.length - back]? ∧
      ∃ token, tested[tested.length - back]? = some token :=
  ⟨if_pos ⟨positive, inside⟩, _, List.getElem?_eq_getElem (by omega)⟩

theorem readRepeated_eq (tested : List Token) :
    readRepeated tested = some (repeatedTokens tested) := by
  unfold readRepeated repeatedTokens
  by_cases long : 3 < tested.length
  · obtain ⟨readLast, last, lastHere⟩ :=
      fromBack_inside (Nat.succ_pos 0) (by omega : 1 ≤ tested.length)
    obtain ⟨readSecond, second, secondHere⟩ :=
      fromBack_inside (Nat.succ_pos 1) (by omega : 2 ≤ tested.length)
    obtain ⟨readThird, third, thirdHere⟩ :=
      fromBack_inside (Nat.succ_pos 2) (by omega : 3 ≤ tested.length)
    rw [if_pos long, readLast, readSecond, readThird]
    simp only [lastHere, secondHere, thirdHere]
    by_cases same : last = second
    · simp [long, same]
    · simp [same]
  · rw [if_neg long]
    simp [long]

theorem bookkeeping_initially (vocab : Vocab) (context : Context) (calls : List BatchCall) :
    Bookkeeping vocab 0 (⟨context, [], 0, calls⟩ : Generation Context) :=
  ⟨rfl, rfl, Nat.succ_pos 4⟩

theorem recordedBatches_gapless (llama : Llama Context) (fromStdString : List UInt8 → QString)
    (vocab : Vocab) (context : Context) {prompt : QString} {tokens : List Token}
    (tokenized : promptTokens vocab prompt = some tokens) :
    positions (recordedBatches llama fromStdString vocab context prompt) =
      List.range (tokens.length + (entered llama vocab context tokens).length) := by
  have prompted : positions [promptBatch tokens] = List.range' 0 tokens.length := by
    rw [positions, List.flatMap_singleton, positions_promptBatch, List.range_eq_range']
  rw [List.range_eq_range']
  cases decoded : llama.decode context (promptBatch tokens) with
  | success after =>
      have recorded : llama.recording.decode (context, []) (promptBatch tokens) =
          .success (after, [promptBatch tokens]) := by
        simp only [Llama.recording, decoded, List.nil_append]
      have started : Generation.Agrees Recorded
          ⟨(after, [promptBatch tokens]), [], 0, [.init 0, .decode 0]⟩
          ⟨after, [], 0, [.init 0, .decode 0]⟩ := ⟨rfl, rfl, rfl, rfl⟩
      have looped := generateTokens_records llama vocab tokens maxResponseTokens 0 started
      simp only [recordedBatches, processText, tokenized, recorded, finishResponse, entered,
        decoded]
      rw [looped, prompted]
      simpa using List.range'_append_1 (s := 0)
  | failure code after =>
      have recorded : llama.recording.decode (context, []) (promptBatch tokens) =
          .failure code (after, [promptBatch tokens]) := by
        simp only [Llama.recording, decoded, List.nil_append]
      simp only [recordedBatches, processText, tokenized, recorded, entered, decoded]
      exact prompted
  | threw what after =>
      have recorded : llama.recording.decode (context, []) (promptBatch tokens) =
          .threw what (after, [promptBatch tokens]) := by
        simp only [Llama.recording, decoded, List.nil_append]
      simp only [recordedBatches, processText, tokenized, recorded, entered, decoded]
      exact prompted
  | aborted =>
      have recorded : llama.recording.decode (context, []) (promptBatch tokens) =
          .threw [] (context, [promptBatch tokens]) := by
        simp only [Llama.recording, decoded, List.nil_append]
      simp only [recordedBatches, processText, tokenized, recorded, entered, decoded]
      exact prompted

theorem entered_bookkeeping {llama : Llama Context} {vocab : Vocab} {context : Context}
    {tokens : List Token} {i : Nat} {state : Generation Context}
    (present : (entered llama vocab context tokens)[i]? = some state) :
    Bookkeeping vocab i state := by
  rw [entered] at present
  split at present
  · rename_i after _
    have kept := starts_rule (Bookkeeping vocab)
      (fun i state next kept taken => iteration_keeps_bookkeeping kept taken)
      (bookkeeping_initially vocab after _) present
    rwa [Nat.zero_add] at kept
  · simp at present

theorem Bookkeeping.late {vocab : Vocab} {i : Nat} {state : Generation Context}
    (books : Bookkeeping vocab i state) {best : Token}
    (repeated : repeatedTokens (state.responseTokens ++ [best]) = true) : 3 ≤ i := by
  simp only [repeatedTokens, Bool.and_eq_true, decide_eq_true_eq] at repeated
  have long := repeated.1.1
  rw [List.length_append, List.length_singleton, books.grown] at long
  omega

theorem processText_decodes (llama : Llama Context) (fromStdString : List UInt8 → QString)
    (vocab : Vocab) (context : Context) {prompt : QString} {tokens : List Token}
    (tokenized : promptTokens vocab prompt = some tokens) :
    (processText llama fromStdString ⟨some context, some ⟨some vocab⟩⟩ prompt).calls.filterMap
      BatchCall.decoded = List.range (1 + (entered llama vocab context tokens).length) := by
  cases decoded : llama.decode context (promptBatch tokens) with
  | success after =>
      simp only [processText, tokenized, entered, decoded, finishResponse,
        generateTokens_decodes, List.range_eq_range']
      exact List.range'_append_1 (s := 0) (m := 1)
  | _ =>
      simp only [processText, tokenized, entered, decoded]
      rfl

theorem processText_limited (llama : Llama Context) (fromStdString : List UInt8 → QString)
    (vocab : Vocab) (context : Context) {prompt : QString} {tokens : List Token}
    (tokenized : promptTokens vocab prompt = some tokens) :
    (processText llama fromStdString ⟨some context, some ⟨some vocab⟩⟩
      prompt).responseTokens.length ≤ maxResponseTokens := by
  cases decoded : llama.decode context (promptBatch tokens) with
  | success after =>
      simp only [processText, tokenized, decoded, finishResponse]
      exact Nat.le_trans
        (generateTokens_length_le llama vocab tokens (bookkeeping_initially vocab after _))
        (Nat.le_of_eq (Nat.zero_add _))
  | _ =>
      simp only [processText, tokenized, decoded]
      exact Nat.zero_le _

theorem processText_keeps_books (llama : Llama Context) (fromStdString : List UInt8 → QString)
    (vocab : Vocab) (context : Context) {prompt : QString} {tokens : List Token}
    (tokenized : promptTokens vocab prompt = some tokens) (nonempty : tokens ≠ []) :
    KeepsBooks vocab tokens (entered llama vocab context tokens)
      (recordedBatches llama fromStdString vocab context prompt)
      (processText llama fromStdString ⟨some context, some ⟨some vocab⟩⟩ prompt) := by
  refine ⟨fun _ _ => entered_bookkeeping, ?_, ?_,
    recordedBatches_gapless llama fromStdString vocab context tokenized,
    processText_decodes llama fromStdString vocab context tokenized,
    processText_limited llama fromStdString vocab context tokenized⟩
  · intro i state present
    have grown := (entered_bookkeeping present).grown
    split
    · exact nonempty
    · intro empty
      rw [empty, List.length_nil] at grown
      omega
  · intro i state present best tested
    exact ⟨readRepeated_eq tested, (entered_bookkeeping present).late⟩

theorem word_keeps_books :
    KeepsBooks wordVocab [1] (entered wordLlama wordVocab 0 [1])
      (recordedBatches wordLlama fromLatin1 wordVocab 0 ['x'])
      (processText wordLlama fromLatin1 ⟨some 0, some ⟨some wordVocab⟩⟩ ['x']) :=
  processText_keeps_books wordLlama fromLatin1 wordVocab 0 rfl (List.cons_ne_nil _ _)

end Call

end TextMaster
