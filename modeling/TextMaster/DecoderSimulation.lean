import TextMaster.ProcessText

/-!
Two decoders that answer alike: `processText` cannot tell them apart.
-/

namespace TextMaster

def SameLogits {Context Other : Type} (llama : Llama Context) (other : Llama Other)
    (context : Context) (model : Other) : Prop :=
  ∀ index, llama.getLogitsIth context index = other.getLogitsIth model index

/-- A call that ends alike on both decoders, but for the error code. After a success their logits
are the same; a decode that does not succeed may leave those of an earlier one, and so the logits
are the same then if they were before. -/
inductive Answers {Context Other : Type} (related : Context → Other → Prop)
    (llama : Llama Context) (other : Llama Other) (before : Context) (modelBefore : Other) :
    DecodeResult Context → DecodeResult Other → Prop where
  | success (context : Context) (model : Other) : related context model →
      SameLogits llama other context model →
      Answers related llama other before modelBefore (.success context) (.success model)
  | failure (code otherCode : Int) (context : Context) (model : Other) : related context model →
      (SameLogits llama other before modelBefore → SameLogits llama other context model) →
      Answers related llama other before modelBefore (.failure code context)
        (.failure otherCode model)
  | threw (what : QString) (context : Context) (model : Other) : related context model →
      (SameLogits llama other before modelBefore → SameLogits llama other context model) →
      Answers related llama other before modelBefore (.threw what context) (.threw what model)
  | aborted : Answers related llama other before modelBefore .aborted .aborted

section Simulation

variable {Context Other : Type} {related earlier : Context → Other → Prop} {llama : Llama Context}
  {other : Llama Other} {vocab : Vocab} {tokens : List Token}

theorem Answers.and {property : Other → Prop} {before : Context} {modelBefore : Other}
    {result : DecodeResult Context} {expected : DecodeResult Other}
    (answers : Answers related llama other before modelBefore result expected)
    (holds : ∀ state, (expected = .success state ∨ (∃ code, expected = .failure code state) ∨
      ∃ what, expected = .threw what state) → property state) :
    Answers (fun context model => related context model ∧ property model) llama other before
      modelBefore result expected := by
  cases answers with
  | success context model held same =>
      exact .success context model ⟨held, holds model (Or.inl rfl)⟩ same
  | failure code otherCode context model held same =>
      exact .failure code otherCode context model
        ⟨held, holds model (Or.inr (Or.inl ⟨otherCode, rfl⟩))⟩ same
  | threw what context model held same =>
      exact .threw what context model ⟨held, holds model (Or.inr (Or.inr ⟨what, rfl⟩))⟩ same
  | aborted => exact .aborted

structure Generation.Agrees (related : Context → Other → Prop) (state : Generation Context)
    (model : Generation Other) : Prop where
  context : related state.context model.context
  responseTokens : state.responseTokens = model.responseTokens
  empty : state.consecutiveEmptyTokens = model.consecutiveEmptyTokens
  calls : state.calls = model.calls

structure Processed.Agrees (related : Context → Other → Prop) (processed : Processed Context)
    (model : Processed Other) : Prop where
  outcome : processed.outcome = model.outcome
  errors : processed.errors = model.errors
  responseTokens : processed.responseTokens = model.responseTokens
  calls : processed.calls = model.calls
  impl : ∃ context state, processed.impl.context = some context ∧
    model.impl.context = some state ∧ related context state

theorem Generation.Agrees.call {state : Generation Context} {model : Generation Other}
    (agrees : state.Agrees related model) (call : BatchCall) :
    (state.call call).Agrees related (model.call call) :=
  ⟨agrees.context, agrees.responseTokens, agrees.empty, congrArg (· ++ [call]) agrees.calls⟩

theorem checkToken_agrees {best : Token} {state : Generation Context} {model : Generation Other}
    (agrees : state.Agrees related model) :
    (checkToken vocab best state).1.Agrees related (checkToken vocab best model).1 ∧
      (checkToken vocab best state).2 = (checkToken vocab best model).2 := by
  obtain ⟨context, responseTokens, empty, calls⟩ := state
  obtain ⟨held, rfl, rfl, rfl⟩ := agrees
  simp only [checkToken]
  split
  · exact ⟨⟨held, rfl, rfl, rfl⟩, rfl⟩
  · split
    · exact ⟨⟨held, rfl, rfl, rfl⟩, rfl⟩
    · split
      · split
        · exact ⟨⟨held, rfl, rfl, rfl⟩, rfl⟩
        · exact ⟨⟨held, rfl, rfl, rfl⟩, rfl⟩
      · exact ⟨⟨held, rfl, rfl, rfl⟩, rfl⟩

theorem chooseToken_agrees (vocab : Vocab) {state : Generation Context} {model : Generation Other}
    (agrees : state.Agrees related model)
    (same : llama.getLogitsIth state.context 0 = other.getLogitsIth model.context 0) :
    (chooseToken llama vocab state).1.Agrees related (chooseToken other vocab model).1 ∧
      (chooseToken llama vocab state).2 = (chooseToken other vocab model).2 := by
  unfold chooseToken
  rw [same]
  cases other.getLogitsIth model.context 0 with
  | none => exact ⟨agrees, rfl⟩
  | some logits =>
      simp only
      split
      · exact ⟨agrees, rfl⟩
      · apply checkToken_agrees
        exact ⟨agrees.context, congrArg (· ++ [bestToken vocab logits]) agrees.responseTokens,
          agrees.empty, agrees.calls⟩

theorem iteration_agrees (vocab : Vocab) {i : Nat} {state : Generation Context}
    {model : Generation Other}
    (agrees : state.Agrees related model)
    (answers : Answers related llama other state.context model.context
      (llama.decode state.context (nextBatch tokens state.responseTokens i))
      (other.decode model.context (nextBatch tokens model.responseTokens i))) :
    (iteration llama vocab tokens i state).1.Agrees related
        (iteration other vocab tokens i model).1 ∧
      (iteration llama vocab tokens i state).2 = (iteration other vocab tokens i model).2 := by
  have opened := (agrees.call (.init (i + 1))).call (.decode (i + 1))
  unfold iteration
  generalize llama.decode state.context (nextBatch tokens state.responseTokens i) = result
    at answers ⊢
  generalize other.decode model.context (nextBatch tokens model.responseTokens i) = expected
    at answers ⊢
  cases answers with
  | success context after held same =>
      have moved : Generation.Agrees related
          { (state.call (.init (i + 1))).call (.decode (i + 1)) with context := context }
          { (model.call (.init (i + 1))).call (.decode (i + 1)) with context := after } :=
        ⟨held, opened.responseTokens, opened.empty, opened.calls⟩
      have chosen := chooseToken_agrees vocab moved (same 0)
      exact ⟨Generation.Agrees.call chosen.1 _, chosen.2⟩
  | failure code otherCode context after held _ =>
      have moved : Generation.Agrees related
          { (state.call (.init (i + 1))).call (.decode (i + 1)) with context := context }
          { (model.call (.init (i + 1))).call (.decode (i + 1)) with context := after } :=
        ⟨held, opened.responseTokens, opened.empty, opened.calls⟩
      exact ⟨moved.call _, rfl⟩
  | threw what context after held _ =>
      exact ⟨⟨held, opened.responseTokens, opened.empty, opened.calls⟩, rfl⟩
  | aborted => exact ⟨opened, rfl⟩

theorem generateTokens_agrees (vocab : Vocab)
    (next : ∀ context model responseTokens i, related context model →
      Answers related llama other context model
        (llama.decode context (nextBatch tokens responseTokens i))
        (other.decode model (nextBatch tokens responseTokens i)))
    (remaining i : Nat) {state : Generation Context} {model : Generation Other}
    (agrees : state.Agrees related model) :
    (generateTokens llama vocab tokens remaining i state).1.Agrees related
        (generateTokens other vocab tokens remaining i model).1 ∧
      (generateTokens llama vocab tokens remaining i state).2 =
        (generateTokens other vocab tokens remaining i model).2 := by
  induction remaining generalizing i state model with
  | zero => exact ⟨agrees, rfl⟩
  | succ remaining ih =>
      have answers := next state.context model.context state.responseTokens i agrees.context
      have answers : Answers related llama other state.context model.context
          (llama.decode state.context (nextBatch tokens state.responseTokens i))
          (other.decode model.context (nextBatch tokens model.responseTokens i)) := by
        rwa [← agrees.responseTokens]
      obtain ⟨held, sameExit⟩ := iteration_agrees vocab agrees answers
      cases taken : iteration llama vocab tokens i state with
      | mk after exit =>
          cases expected : iteration other vocab tokens i model with
          | mk modelAfter modelExit =>
              rw [taken, expected] at held sameExit
              obtain rfl : exit = modelExit := sameExit
              cases exit with
              | none =>
                  rw [generateTokens_continue taken, generateTokens_continue expected]
                  exact ih (i + 1) held
              | some exit =>
                  rw [generateTokens_stop taken, generateTokens_stop expected]
                  exact ⟨held, rfl⟩

theorem finishResponse_agrees {fromStdString : List UInt8 → QString} {model : Model}
    (weaker : ∀ context state, related context state → earlier context state)
    {generated : Generation Context × Exit} {expected : Generation Other × Exit}
    (agrees : generated.1.Agrees related expected.1) (sameExit : generated.2 = expected.2) :
    (finishResponse fromStdString vocab model generated).Agrees earlier
      (finishResponse fromStdString vocab model expected) := by
  unfold finishResponse
  rw [sameExit, agrees.responseTokens, agrees.calls]
  exact ⟨rfl, rfl, rfl, rfl, _, _, rfl, rfl, weaker _ _ agrees.context⟩

/-- Where the decodes that a request makes are answered alike, the request ends alike. -/
theorem processText_agrees {context : Context} {state : Other} {model : Model}
    (fromStdString : List UInt8 → QString) (prompt : QString) (before : earlier context state)
    (weaker : ∀ context state, related context state → earlier context state)
    (first : ∀ vocab tokens, model.vocab = some vocab → promptTokens vocab prompt = some tokens →
      Answers related llama other context state (llama.decode context (promptBatch tokens))
        (other.decode state (promptBatch tokens)))
    (next : ∀ tokens context state responseTokens i, related context state →
      Answers related llama other context state
        (llama.decode context (nextBatch tokens responseTokens i))
        (other.decode state (nextBatch tokens responseTokens i))) :
    (processText llama fromStdString ⟨some context, some model⟩ prompt).Agrees earlier
      (processText other fromStdString ⟨some state, some model⟩ prompt) := by
  have unchanged := fun errors => (⟨rfl, rfl, rfl, rfl, context, state, rfl, rfl, before⟩ :
    Processed.Agrees earlier
      (⟨⟨some context, some model⟩, .returned [], errors, [], []⟩ : Processed Context)
      (⟨⟨some state, some model⟩, .returned [], errors, [], []⟩ : Processed Other))
  simp only [processText]
  cases known : model.vocab with
  | none => exact unchanged _
  | some vocab =>
      simp only
      cases tokenized : promptTokens vocab prompt with
      | none => exact unchanged _
      | some tokens =>
          have answers := first vocab tokens known tokenized
          simp only
          generalize llama.decode context (promptBatch tokens) = result at answers ⊢
          generalize other.decode state (promptBatch tokens) = expected at answers ⊢
          cases answers with
          | success after modelAfter held same =>
              have started : Generation.Agrees related ⟨after, [], 0, [.init 0, .decode 0]⟩
                  ⟨modelAfter, [], 0, [.init 0, .decode 0]⟩ := ⟨held, rfl, rfl, rfl⟩
              obtain ⟨agrees, sameExit⟩ :=
                generateTokens_agrees vocab (next tokens) maxResponseTokens 0 started
              exact finishResponse_agrees weaker agrees sameExit
          | failure code otherCode after modelAfter held _ =>
              exact ⟨rfl, rfl, rfl, rfl, after, modelAfter, rfl, rfl, weaker _ _ held⟩
          | threw what after modelAfter held _ =>
              exact ⟨rfl, rfl, rfl, rfl, after, modelAfter, rfl, rfl, weaker _ _ held⟩
          | aborted => exact ⟨rfl, rfl, rfl, rfl, context, state, rfl, rfl, before⟩

end Simulation

end TextMaster
