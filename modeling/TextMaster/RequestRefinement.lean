import TextMaster.KvCacheRefinement
import TextMaster.Processor

/-!
Requests on a real context: any run of them leaves the cells, and gives the answers, that the
cell-based decoder leaves and gives.
-/

namespace TextMaster

open KvCache

structure Request where
  analysisType : AnalysisType
  input : QString
  deriving DecidableEq, Repr

def Call.request (call : Call) : Request := ⟨call.analysisType, call.input⟩

/-- What a caller of `processText` can tell of a request: how it ends, the errors it reports, its
response tokens and its calls on batches. -/
abbrev Report := Outcome × List QString × List Token × List BatchCall

def Processed.report {Context : Type} (processed : Processed Context) : Report :=
  (processed.outcome, processed.errors, processed.responseTokens, processed.calls)

/-- The failures of a request's decodes, the first of which is the prompt's. -/
def ComputeEnv.schedule (env : ComputeEnv) (nUbatch earlier : Nat) (tokens : List Token)
    (call : Nat) : Bool :=
  env.fails nUbatch (earlier + call) (if call = 0 then promptBatch tokens else nextBatch [] [] 0)

structure Server where
  vocab : Vocab
  nCtx : Nat
  nBatch : Nat
  nUbatch : Nat
  padding : Nat
  fromStdString : List UInt8 → QString
  logits : List Cell → Nat → Binary32
  env : ComputeEnv

namespace Server

variable (server : Server)

def params : DecodeParams := ⟨server.vocab.nTokens, server.nBatch, server.nUbatch, server.logits⟩

def processor : Processor := ⟨server.vocab, server.nCtx, server.nBatch, server.fromStdString⟩

def serve (context : LlamaContext) (request : Request) : Processed LlamaContext :=
  TextMaster.generateFor (LlamaContext.llama server.params server.env) server.fromStdString
    request.analysisType ⟨some context, some ⟨some server.vocab⟩⟩ request.input

def serveStep (context : LlamaContext) (request : Request) : Option LlamaContext :=
  let processed := server.serve context request
  match processed.outcome with
  | .aborted => none
  | .returned _ => processed.impl.context

def call (context : LlamaContext) (request : Request) : Call where
  analysisType := request.analysisType
  input := request.input
  faults := server.env.schedule server.nUbatch context.decodes
    ((promptTokens server.vocab (formatPrompt request.analysisType request.input)).getD [])

/-- The calls of the abstract processor that a run of requests amounts to: each has the failures
that the context meets from the decodes it has counted on. -/
def calls : LlamaContext → List Request → List Call :=
  Transition.outputs server.serveStep server.call

def reports : LlamaContext → List Request → List Report :=
  Transition.outputs server.serveStep fun context request => (server.serve context request).report

end Server

def Processor.reports (processor : Processor) (logits : List Cell → Nat → Binary32) :
    List Cell → List Call → List Report :=
  Transition.outputs (processor.callStep logits)
    fun cells call => (processor.generateFor logits cells call).report

variable {server : Server} {context : LlamaContext}

theorem promptBatch_first {tokens : List Token} : ∀ entry ∈ promptBatch tokens, entry.seqId = 0 := by
  intro entry member
  simp only [promptBatch, List.mem_mapIdx] at member
  obtain ⟨i, _, rfl⟩ := member
  rfl

theorem promptBatch_ordered (tokens : List Token) :
    (promptBatch tokens).Pairwise fun one other => one.pos < other.pos := by
  rw [List.pairwise_iff_getElem]
  intro i j first second before
  simpa [promptBatch] using before

theorem nextBatch_first {tokens responseTokens : List Token} {i : Nat} :
    ∀ entry ∈ nextBatch tokens responseTokens i, entry.seqId = 0 := by
  intro entry member
  rw [nextBatch, List.mem_singleton] at member
  rw [member]

theorem fails_nextBatch (env : ComputeEnv) (nUbatch call i : Nat)
    (tokens responseTokens : List Token) :
    env.fails nUbatch call (nextBatch tokens responseTokens i) =
      env.fails nUbatch call (nextBatch [] [] 0) := rfl

theorem decode_counts (model : KvModel) (faults : Nat → Bool) (context : KvContext)
    (batch : List BatchToken) {after : KvContext}
    (ends : (model.llama faults).decode context batch = .success after ∨
      (∃ code, (model.llama faults).decode context batch = .failure code after) ∨
      ∃ what, (model.llama faults).decode context batch = .threw what after) :
    after.decodes = context.decodes + 1 := by
  have step := decode_step model faults context batch
  rcases ends with same | ⟨code, same⟩ | ⟨what, same⟩
  · rw [same] at step
    cases step
    rfl
  · rw [same] at step
    cases step <;> rfl
  · rw [same] at step
    cases step
    rfl

theorem serve_refines (positive : 0 < server.nUbatch) {cells : List Cell}
    (holds : context.cache.Holds cells) (sized : context.cache.size = server.nCtx)
    (request : Request) :
    (server.serve context request).Agrees (LlamaContext.Refines server.nCtx context.decodes)
      (server.processor.generateFor server.logits cells (server.call context request)) := by
  have before : LlamaContext.Refines server.nCtx context.decodes context (.withCells cells) :=
    ⟨holds, sized, rfl⟩
  have started : ∀ faults batch other model,
      LlamaContext.Refines server.nCtx context.decodes other model →
      (∀ entry ∈ batch, entry.seqId = 0) → (batch.Pairwise fun one other => one.pos < other.pos) →
      faults model.decodes = server.env.fails server.nUbatch other.decodes batch →
      Answers (fun other model => LlamaContext.Refines server.nCtx context.decodes other model ∧
          0 < model.decodes) (LlamaContext.llama server.params server.env)
        ((server.params.model server.nCtx).llama faults) other model
        ((LlamaContext.llama server.params server.env).decode other batch)
        (((server.params.model server.nCtx).llama faults).decode model batch) := by
    intro faults batch other model refines first ordered faulty
    have answers := @llama_decode_refines server.params _ _ _ _ _ _ _ refines positive first ordered
      faulty
    refine answers.and ?_
    intro state ends
    rw [decode_counts _ _ _ _ ends]
    exact Nat.succ_pos _
  have weaker : ∀ other model, (LlamaContext.Refines server.nCtx context.decodes other model ∧
      0 < model.decodes) → LlamaContext.Refines server.nCtx context.decodes other model :=
    fun _ _ held => held.1
  simp only [Server.serve, Processor.generateFor, generateFor_eq]
  apply processText_agrees server.fromStdString _ before weaker
  · rintro vocab tokens ⟨⟩ tokenized
    refine started _ _ _ _ before promptBatch_first (promptBatch_ordered tokens) ?_
    simp [Server.call, ComputeEnv.schedule, tokenized, KvContext.withCells]
  · rintro tokens other state responseTokens i ⟨refines, later⟩
    refine started _ _ _ _ refines nextBatch_first (List.pairwise_singleton _ _) ?_
    simp only [Server.call, ComputeEnv.schedule, if_neg (Nat.ne_of_gt later), refines.counted]
    exact (fails_nextBatch _ _ _ _ _ _).symm

theorem serveStep_refines (positive : 0 < server.nUbatch) {cells : List Cell}
    {next : LlamaContext} {request : Request} (holds : context.cache.Holds cells)
    (sized : context.cache.size = server.nCtx)
    (taken : server.serveStep context request = some next) :
    ∃ after,
      server.processor.callStep server.logits cells (server.call context request) = some after ∧
      next.cache.Holds after ∧ next.cache.size = server.nCtx := by
  obtain ⟨sameOutcome, _, _, _, left, state, leftSame, stateSame, refines⟩ :=
    serve_refines positive holds sized request
  simp only [Server.serveStep] at taken
  simp only [Processor.callStep, ← sameOutcome]
  cases outcome : (server.serve context request).outcome with
  | aborted => simp [outcome] at taken
  | returned text =>
      simp only [outcome] at taken
      rw [leftSame, Option.some.injEq] at taken
      subst taken
      exact ⟨state.cells, by simp [stateSame], refines.holds, refines.sized⟩

theorem serve_report (positive : 0 < server.nUbatch) {cells : List Cell}
    (holds : context.cache.Holds cells) (sized : context.cache.size = server.nCtx)
    (request : Request) :
    (server.serve context request).report =
      (server.processor.generateFor server.logits cells (server.call context request)).report := by
  obtain ⟨outcome, errors, responseTokens, calls, _⟩ := serve_refines positive holds sized request
  rw [Processed.report, Processed.report, outcome, errors, responseTokens, calls]

theorem calls_request {final : LlamaContext} {requests : List Request}
    (reached : Transition.run server.serveStep context requests = some final) :
    (server.calls context requests).map Call.request = requests := by
  induction requests generalizing context with
  | nil => rfl
  | cons request rest ih =>
      obtain ⟨next, taken, later⟩ := (Transition.run_cons _ _ _ _ _).mp reached
      rw [Server.calls, Transition.outputs_cons _ taken, List.map_cons]
      exact congrArg (_ :: ·) (ih later)

theorem run_refines (positive : 0 < server.nUbatch) {cells : List Cell} {final : LlamaContext}
    {requests : List Request} (holds : context.cache.Holds cells)
    (sized : context.cache.size = server.nCtx)
    (reached : Transition.run server.serveStep context requests = some final) :
    ∃ after, Transition.run (server.processor.callStep server.logits) cells
        (server.calls context requests) = some after ∧
      final.cache.Holds after ∧ final.cache.size = server.nCtx := by
  induction requests generalizing context cells with
  | nil =>
      rw [Transition.run_nil, Option.some.injEq] at reached
      exact ⟨cells, rfl, reached ▸ holds, reached ▸ sized⟩
  | cons request rest ih =>
      obtain ⟨next, taken, later⟩ := (Transition.run_cons _ _ _ _ _).mp reached
      obtain ⟨after, called, nextHolds, nextSized⟩ := serveStep_refines positive holds sized taken
      obtain ⟨last, ran, lastHolds, lastSized⟩ := ih nextHolds nextSized later
      refine ⟨last, ?_, lastHolds, lastSized⟩
      rw [Server.calls, Transition.outputs_cons _ taken]
      exact (Transition.run_cons _ _ _ _ _).mpr ⟨after, called, ran⟩

theorem run_reports (positive : 0 < server.nUbatch) {cells : List Cell} {final : LlamaContext}
    {requests : List Request} (holds : context.cache.Holds cells)
    (sized : context.cache.size = server.nCtx)
    (reached : Transition.run server.serveStep context requests = some final) :
    server.reports context requests =
      server.processor.reports server.logits cells (server.calls context requests) := by
  induction requests generalizing context cells with
  | nil => rfl
  | cons request rest ih =>
      obtain ⟨next, taken, later⟩ := (Transition.run_cons _ _ _ _ _).mp reached
      obtain ⟨after, called, nextHolds, nextSized⟩ := serveStep_refines positive holds sized taken
      rw [Server.reports, Server.calls, Processor.reports, Transition.outputs_cons _ taken,
        Transition.outputs_cons _ taken, Transition.outputs_cons _ called,
        serve_report positive holds sized request]
      exact congrArg (_ :: ·) (ih nextHolds nextSized later)

def Server.started (server : Server) : LlamaContext :=
  .construct server.nCtx server.nBatch server.padding

/-- Whatever requests a fresh context has served, it holds the cells that the cell-based decoder
holds after the same requests, all of them have ended as they do there, and so does the next. -/
theorem requests_refine (positive : 0 < server.nUbatch) (padded : 0 < server.padding)
    {requests : List Request}
    (reached : Transition.run server.serveStep server.started requests = some context) :
    let calls := server.calls server.started requests
    calls.map Call.request = requests ∧
      server.reports server.started requests = server.processor.reports server.logits [] calls ∧
      ∃ cells, Transition.run (server.processor.callStep server.logits) [] calls = some cells ∧
        context.cache.Holds cells ∧ ∀ request,
          (server.serve context request).report =
            (server.processor.generateFor server.logits cells
              (server.call context request)).report := by
  have holds := construct_holds server.nCtx server.nBatch padded
  obtain ⟨cells, ran, left, sized⟩ := run_refines positive holds rfl reached
  exact ⟨calls_request reached, run_reports positive holds rfl reached, cells, ran, left,
    serve_report positive left sized⟩

section Words

def wordServer : Server where
  vocab := { letterVocab with tokenize := fun _ => [1] }
  nCtx := 4
  nBatch := 2
  nUbatch := 1
  padding := 2
  fromStdString := fromLatin1
  logits _ _ := Binary32.negativeInfinity
  env := ⟨fun _ => true, fun _ _ => .success⟩

def wordServed : LlamaContext :=
  (wordServer.serve wordServer.started ⟨.quiz, []⟩).impl.context.getD wordServer.started

theorem requests_refine_word :
    let calls := wordServer.calls wordServer.started [⟨.quiz, []⟩]
    calls.map Call.request = [⟨.quiz, []⟩] ∧
      wordServer.reports wordServer.started [⟨.quiz, []⟩] =
        wordServer.processor.reports wordServer.logits [] calls ∧
      ∃ cells, Transition.run (wordServer.processor.callStep wordServer.logits) [] calls =
          some cells ∧
        wordServed.cache.Holds cells ∧ ∀ request,
          (wordServer.serve wordServed request).report =
            (wordServer.processor.generateFor wordServer.logits cells
              (wordServer.call wordServed request)).report :=
  requests_refine (by decide) (by decide)
    (show Transition.run wordServer.serveStep wordServer.started [⟨.quiz, []⟩] = some wordServed
      by rfl)

end Words

end TextMaster
