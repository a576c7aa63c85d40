import TextMaster.RequestRefinement

/-!
What requests cost on a context whose cells are never given back: the tokens of the prompts that
were answered and of their answers never come to more than the context holds, and a prompt that the
rest has no room for is not answered any more.
-/

namespace TextMaster

open KvCache

def promptLength (vocab : Vocab) (prompt : QString) : Nat :=
  ((promptTokens vocab prompt).getD []).length

def spending {Context : Type} (vocab : Vocab) (prompt : QString) (processed : Processed Context) :
    Nat :=
  if processed.responseTokens = [] then 0
  else promptLength vocab prompt + processed.responseTokens.length

section Spending

variable {model : KvModel} {faults : Nat → Bool} {vocab : Vocab} {tokens : List Token}

theorem decode_room {context after : KvContext} {batch : List BatchToken}
    (decoded : (model.llama faults).decode context batch = .success after) :
    after.cells.length = context.cells.length + batch.length ∧
      after.cells.length ≤ model.nCtx := by
  have step := decode_step model faults context batch
  rw [decoded] at step
  cases step with
  | decoded nonempty fits room cells same =>
      subst same
      exact ⟨by simp, by simpa using room⟩

structure Spends (model : KvModel) (state next : Generation KvContext) : Prop where
  paid : state.context.cells.length + next.responseTokens.length ≤
    next.context.cells.length + state.responseTokens.length
  bounded : state.context.cells.length ≤ model.nCtx → next.context.cells.length ≤ model.nCtx

theorem Spends.refl (state : Generation KvContext) : Spends model state state :=
  ⟨Nat.le_refl _, id⟩

theorem Spends.trans {state middle next : Generation KvContext} (first : Spends model state middle)
    (second : Spends model middle next) : Spends model state next := by
  refine ⟨?_, fun bound => second.bounded (first.bounded bound)⟩
  have early := first.paid
  have late := second.paid
  omega

theorem iteration_spends {i : Nat} {state next : Generation KvContext} {exit : Option Exit}
    (taken : iteration (model.llama faults) vocab tokens i state = (next, exit)) :
    Spends model state next := by
  cases iteration_step taken with
  | aborted => exact ⟨Nat.le_refl _, id⟩
  | threw what context decoded =>
      have same := decode_refused (Or.inr ⟨what, decoded⟩)
      exact ⟨by simp [same], by simp [same]⟩
  | failed code context decoded =>
      have same := decode_refused (Or.inl ⟨code, decoded⟩)
      exact ⟨by simp [same], by simp [same]⟩
  | noLogits context decoded =>
      obtain ⟨grown, room⟩ := decode_room decoded
      exact ⟨by simp [grown], fun _ => room⟩
  | noBestToken context _ decoded =>
      obtain ⟨grown, room⟩ := decode_room decoded
      exact ⟨by simp [grown], fun _ => room⟩
  | chosen context logits checked exit decoded _ _ chosen =>
      obtain ⟨grown, room⟩ := decode_room decoded
      obtain ⟨sameContext, sameTokens, _⟩ := checkToken_frame chosen
      refine ⟨?_, fun _ => ?_⟩
      · simp only [Generation.call_context, Generation.call_responseTokens, sameContext, sameTokens,
          grown, List.length_append, nextBatch, List.length_singleton]
        omega
      · simp only [Generation.call_context, sameContext]
        exact room

theorem generateTokens_spends (remaining i : Nat) (state : Generation KvContext) :
    Spends model state
      (generateTokens (model.llama faults) vocab tokens remaining i state).1 := by
  refine generateTokens_rule (model.llama faults) vocab tokens
    (fun _ current => Spends model state current) (fun final _ => Spends model state final) ?_ ?_
    remaining i state (fun _ spends => spends) (.refl state)
  · exact fun _ _ _ spends taken => spends.trans (iteration_spends taken)
  · exact fun _ _ _ _ spends taken => spends.trans (iteration_spends taken)

end Spending

section Calls

variable {processor : Processor} {logits : List Cell → Nat → Binary32} {faults : Nat → Bool}
  {prompt : QString} {cells : List Cell} {context : KvContext}

theorem processText_spends (bounded : cells.length ≤ processor.nCtx)
    (left : (processor.processText logits faults cells prompt).impl.context = some context) :
    context.cells.length ≤ processor.nCtx ∧
      cells.length + spending processor.vocab prompt
        (processor.processText logits faults cells prompt) ≤ context.cells.length ∧
      (processor.nCtx < cells.length + promptLength processor.vocab prompt →
        (processor.processText logits faults cells prompt).responseTokens = []) := by
  by_cases decodes : processor.Decodes faults prompt
  · obtain ⟨tokens, decodes⟩ := decodes
    have length : promptLength processor.vocab prompt = tokens.length := by
      rw [promptLength, decodes.tokenized, Option.getD_some]
    rcases processText_of_decodes logits cells decodes with
      ⟨_, after, same, result⟩ | ⟨room, after, prompted, result⟩
    · rw [result] at left ⊢
      cases left
      rw [same]
      exact ⟨bounded, by simp [spending], fun _ => rfl⟩
    · rw [result, finishResponse_context] at left
      cases left
      have spends : Spends (processor.model logits) ⟨after, [], 0, [.init 0, .decode 0]⟩
          (generateTokens ((processor.model logits).llama faults) processor.vocab tokens
            maxResponseTokens 0 ⟨after, [], 0, [.init 0, .decode 0]⟩).1 :=
        generateTokens_spends maxResponseTokens 0 _
      obtain ⟨paid, within⟩ := spends
      have prompted := congrArg List.length prompted
      rw [List.length_append, List.length_map, promptBatch_length] at prompted
      have answer : (processor.processText logits faults cells prompt).responseTokens =
          (generateTokens ((processor.model logits).llama faults) processor.vocab tokens
            maxResponseTokens 0 ⟨after, [], 0, [.init 0, .decode 0]⟩).1.responseTokens := by
        rw [result]
        rfl
      refine ⟨within (prompted ▸ room), ?_, fun full => ?_⟩
      · rw [spending, answer, length]
        simp only [List.length_nil, Nat.add_zero] at paid
        split <;> omega
      · rw [length] at full
        omega
  · obtain ⟨outcome, ends⟩ := processText_refused logits decodes
    obtain ⟨after, errors, calls, same, result⟩ := ends cells
    rw [result] at left ⊢
    cases left
    rw [same]
    exact ⟨bounded, by simp [spending], fun _ => rfl⟩

end Calls

section Requests

variable {server : Server} {context : LlamaContext}

def Request.prompt (request : Request) : QString := formatPrompt request.analysisType request.input

def Server.spent (server : Server) (context : LlamaContext) (request : Request) : Nat :=
  spending server.vocab request.prompt (server.serve context request)

def Server.budget (server : Server) (requests : List Request) : Nat :=
  Transition.record server.serveStep
    (fun spent context request => spent + server.spent context request) 0 server.started requests

def Server.Accounts (server : Server) (context : LlamaContext) (spent : Nat) : Prop :=
  ∃ cells, context.cache.Holds cells ∧ context.cache.size = server.nCtx ∧
    spent ≤ cells.length ∧ cells.length ≤ server.nCtx

theorem spent_eq (positive : 0 < server.nUbatch) {cells : List Cell}
    (holds : context.cache.Holds cells) (sized : context.cache.size = server.nCtx)
    (request : Request) :
    (server.serve context request).responseTokens =
        (server.processor.processText server.logits (server.call context request).faults cells
          request.prompt).responseTokens ∧
      server.spent context request = spending server.vocab request.prompt
        (server.processor.processText server.logits (server.call context request).faults cells
          request.prompt) := by
  have same := (serve_refines positive holds sized request).responseTokens
  rw [generateFor_eq_processText] at same
  refine ⟨same, ?_⟩
  rw [Server.spent, spending, spending, same]
  rfl

theorem accounts_serveStep (positive : 0 < server.nUbatch) {next : LlamaContext} {request : Request}
    {spent : Nat} (accounts : server.Accounts context spent)
    (taken : server.serveStep context request = some next) :
    server.Accounts next (spent + server.spent context request) := by
  obtain ⟨cells, holds, sized, enough, bounded⟩ := accounts
  obtain ⟨after, called, nextHolds, nextSized⟩ := serveStep_refines positive holds sized taken
  obtain ⟨left, leftSame, rfl⟩ := callStep_eq_some called
  obtain ⟨within, paid, _⟩ := processText_spends bounded leftSame
  have same := (spent_eq positive holds sized request).2
  refine ⟨left.cells, nextHolds, nextSized, ?_, within⟩
  rw [same]
  exact Nat.le_trans (Nat.add_le_add_right enough _) paid

/-- Over a run of requests the prompts that were answered and their answers fit in the context, and
a prompt that the rest of it cannot take is answered with no token. -/
theorem request_budget (positive : 0 < server.nUbatch) (padded : 0 < server.padding)
    {requests : List Request}
    (reached : Transition.run server.serveStep server.started requests = some context) :
    server.budget requests ≤ server.nCtx ∧ ∀ request : Request,
      server.nCtx < server.budget requests + promptLength server.vocab request.prompt →
        (server.serve context request).responseTokens = [] := by
  have initially : server.Accounts server.started 0 :=
    ⟨[], construct_holds server.nCtx server.nBatch padded, rfl, Nat.le_refl 0, Nat.zero_le _⟩
  have preserved : ∀ state spent request next, server.Accounts state spent →
      server.serveStep state request = some next →
        server.Accounts next (spent + server.spent state request) :=
    fun _ _ _ _ held taken => accounts_serveStep positive held taken
  have accounts : server.Accounts context (server.budget requests) :=
    Transition.record_preserves preserved initially reached
  obtain ⟨cells, holds, sized, enough, bounded⟩ := accounts
  refine ⟨Nat.le_trans enough bounded, fun request overlong => ?_⟩
  obtain ⟨left, leftSame⟩ := processText_context server.processor server.logits
    (server.call context request).faults cells request.prompt
  obtain ⟨_, _, refused⟩ := processText_spends bounded leftSame
  rw [(spent_eq positive holds sized request).1]
  exact refused (Nat.lt_of_lt_of_le overlong (Nat.add_le_add_right enough _))

def talkServer : Server := { wordServer with
  logits := fun _ token => if token = 1 then Binary32.one else Binary32.negativeInfinity }

def talkServed : LlamaContext :=
  (talkServer.serve talkServer.started ⟨.quiz, []⟩).impl.context.getD talkServer.started

theorem request_budget_spent :
    (talkServer.budget [⟨.quiz, []⟩] ≤ talkServer.nCtx ∧ ∀ request : Request,
      talkServer.nCtx < talkServer.budget [⟨.quiz, []⟩] +
          promptLength talkServer.vocab request.prompt →
        (talkServer.serve talkServed request).responseTokens = []) ∧
      talkServer.budget [⟨.quiz, []⟩] = 4 :=
  ⟨request_budget (by decide) (by decide)
    (show Transition.run talkServer.serveStep talkServer.started [⟨.quiz, []⟩] = some talkServed
      by rfl), by decide⟩

end Requests

end TextMaster
