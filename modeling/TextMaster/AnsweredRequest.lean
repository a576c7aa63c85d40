import TextMaster.AnalysisDispatch
import TextMaster.GreedyDecoding
import TextMaster.RequestBudget
import TextMaster.SpmBuffer

/-!
When a request is answered with at least one token, and what an answered request leaves in the
context: its whole prompt, once and in order, behind what was there before.
-/

namespace TextMaster

open KvCache

section FirstToken

variable {Context : Type} {llama : Llama Context} {vocab : Vocab} {tokens : List Token}

theorem iteration_keeps_answer {i : Nat} {state next : Generation Context} {exit : Option Exit}
    (answered : state.responseTokens ≠ [])
    (taken : iteration llama vocab tokens i state = (next, exit)) : next.responseTokens ≠ [] := by
  cases iteration_step taken with
  | chosen context logits checked exit decoded found some chosen =>
      rw [Generation.call_responseTokens, (checkToken_frame chosen).2.1]
      exact List.append_ne_nil_of_left_ne_nil answered _
  | _ => exact answered

def FirstToken (llama : Llama Context) (vocab : Vocab) (tokens : List Token) (context : Context) :
    Prop :=
  ∃ after logits, llama.decode context (nextBatch tokens [] 0) = .success after ∧
    llama.getLogitsIth after 0 = some logits ∧ bestToken vocab logits ≠ -1

theorem iteration_answers_iff {state next : Generation Context} {exit : Option Exit}
    (blank : state.responseTokens = [])
    (taken : iteration llama vocab tokens 0 state = (next, exit)) :
    next.responseTokens ≠ [] ↔ FirstToken llama vocab tokens state.context := by
  have step := iteration_step taken
  rw [FirstToken]
  cases step with
  | aborted decoded =>
      rw [blank] at decoded
      simp [blank, decoded]
  | threw what context decoded =>
      rw [blank] at decoded
      simp [blank, decoded]
  | failed code context decoded =>
      rw [blank] at decoded
      simp [blank, decoded]
  | noLogits context decoded none =>
      rw [blank] at decoded
      simp [blank, decoded, none]
  | noBestToken context logits decoded some worst =>
      rw [blank] at decoded
      simp [blank, decoded, some, worst]
  | chosen context logits checked exit decoded some best chosen =>
      rw [blank] at decoded
      rw [Generation.call_responseTokens, (checkToken_frame chosen).2.1]
      exact ⟨fun _ => ⟨context, logits, decoded, some, best⟩, fun _ => by simp⟩

theorem generateTokens_answers_iff (llama : Llama Context) (vocab : Vocab) (tokens : List Token)
    (remaining : Nat) {state : Generation Context}
    (blank : state.responseTokens = []) :
    (generateTokens llama vocab tokens (remaining + 1) 0 state).1.responseTokens ≠ [] ↔
      FirstToken llama vocab tokens state.context := by
  cases taken : iteration llama vocab tokens 0 state with
  | mk next exit =>
      rw [← iteration_answers_iff blank taken]
      cases exit with
      | some exit => rw [generateTokens_stop taken]
      | none =>
          rw [generateTokens_continue taken]
          constructor
          · -- without a token there would have been no next iteration
            intro _
            cases iteration_step taken with
            | chosen context logits checked exit decoded some best chosen =>
                rw [Generation.call_responseTokens, (checkToken_frame chosen).2.1]
                simp
          · intro answered
            refine generateTokens_rule llama vocab tokens
              (fun _ current => current.responseTokens ≠ [])
              (fun final _ => final.responseTokens ≠ []) ?_ ?_ remaining 1 next (fun _ kept => kept)
              answered
            · exact fun _ _ _ kept taken => iteration_keeps_answer kept taken
            · exact fun _ _ _ _ kept taken => iteration_keeps_answer kept taken

end FirstToken

section Answers

variable {processor : Processor} {logits : List Cell → Nat → Binary32} {faults : Nat → Bool}
  {prompt : QString} {cells : List Cell} {tokens : List Token}

/-- The cells after the prompt and the first batch of the loop, which holds its last token again. -/
def firstCells (cells : List Cell) (tokens : List Token) : List Cell :=
  cells ++ (promptBatch tokens ++ nextBatch tokens [] 0).map BatchToken.cell

structure Processor.Answerable (processor : Processor) (logits : List Cell → Nat → Binary32)
    (faults : Nat → Bool) (cells : List Cell) (prompt : QString) (tokens : List Token) :
    Prop where
  decodes : processor.DecodesAs faults prompt tokens
  room : cells.length + tokens.length < processor.nCtx
  sound : faults 1 = false
  best : bestToken processor.vocab (logits (visible (firstCells cells tokens) tokens.length)) ≠ -1

theorem decode_sound {model : KvModel} {context after : KvContext} {batch : List BatchToken}
    (decoded : (model.llama faults).decode context batch = .success after) :
    faults context.decodes = false := by
  cases fault : faults context.decodes with
  | false => rfl
  | true =>
      simp only [KvModel.llama, KvModel.decode, fault, Bool.or_true, if_true] at decoded
      split at decoded
      · contradiction
      · split at decoded
        · contradiction
        · split at decoded <;> contradiction

theorem firstToken_iff (logits : List Cell → Nat → Binary32) (faults : Nat → Bool)
    {context : KvContext} (nonempty : tokens ≠ [])
    (valid : ∀ token ∈ tokens, validToken processor.vocab.nTokens token = true)
    (fits : 1 ≤ processor.nBatch)
    (prompted : context.cells = cells ++ (promptBatch tokens).map BatchToken.cell)
    (second : context.decodes = 1) :
    FirstToken ((processor.model logits).llama faults) processor.vocab tokens context ↔
      cells.length + tokens.length < processor.nCtx ∧ faults 1 = false ∧
        bestToken processor.vocab
          (logits (visible (firstCells cells tokens) tokens.length)) ≠ -1 := by
  have length : context.cells.length = cells.length + tokens.length := by simp [prompted]
  have grown : context.cells ++ (nextBatch tokens [] 0).map BatchToken.cell =
      firstCells cells tokens := by
    rw [prompted, firstCells, List.map_append, List.append_assoc]
  have answer : ∀ after : KvContext,
      ((processor.model logits).llama faults).decode context (nextBatch tokens [] 0) =
        .success after →
      ((processor.model logits).llama faults).getLogitsIth after 0 =
        some (logits (visible (firstCells cells tokens) tokens.length)) := by
    intro after decoded
    obtain ⟨_, _, left, outputs⟩ := decode_success decoded
    rw [grown] at left
    simp [KvModel.llama, outputs, nextBatch, left, Processor.model]
  constructor
  · rintro ⟨after, found, decoded, some, best⟩
    rw [answer after decoded, Option.some.injEq] at some
    obtain ⟨larger, room⟩ := decode_room decoded
    refine ⟨?_, ?_, some ▸ best⟩
    · rw [larger, length] at room
      exact room
    · rw [← second]
      exact decode_sound decoded
  · rintro ⟨room, sound, best⟩
    obtain ⟨after, decoded⟩ := decode_of_accepted (processor.model logits) faults context
      (nextBatch tokens [] 0) (List.cons_ne_nil _ _)
      (nextBatch_valid (by simpa using nonempty) (by simpa [Processor.model] using valid))
      (by simpa [nextBatch, Processor.model] using fits)
      (length ▸ Nat.succ_le_of_lt room) (by rw [second, sound])
    exact ⟨after, _, decoded, answer after decoded, best⟩

theorem processText_of_room (logits : List Cell → Nat → Binary32)
    (decodes : processor.DecodesAs faults prompt tokens)
    (room : cells.length + tokens.length ≤ processor.nCtx) :
    ∃ after : KvContext, after.cells = cells ++ (promptBatch tokens).map BatchToken.cell ∧
      after.decodes = 1 ∧ processor.processText logits faults cells prompt =
        finishResponse processor.fromStdString processor.vocab ⟨some processor.vocab⟩
          (generateTokens ((processor.model logits).llama faults) processor.vocab tokens
            maxResponseTokens 0 ⟨after, [], 0, [.init 0, .decode 0]⟩) := by
  obtain ⟨after, decoded⟩ := decode_of_accepted (processor.model logits) faults (.withCells cells)
    (promptBatch tokens) (promptBatch_nonempty decodes.nonempty) (promptBatch_valid decodes.valid)
    (by simpa [Processor.model] using decodes.fits)
    (by simpa [Processor.model, KvContext.withCells] using room) decodes.sound
  refine ⟨after, (decode_success decoded).2.2.1, decode_counts _ _ _ _ (Or.inl decoded), ?_⟩
  simp only [Processor.processText, TextMaster.processText, Processor.impl, decodes.tokenized,
    decoded]

theorem blankStart (after : KvContext) :
    (⟨after, [], 0, [.init 0, .decode 0]⟩ : Generation KvContext).responseTokens = [] := rfl

theorem processText_answers_iff :
    (processor.processText logits faults cells prompt).responseTokens ≠ [] ↔
      ∃ tokens, processor.Answerable logits faults cells prompt tokens := by
  by_cases decodes : processor.Decodes faults prompt
  · obtain ⟨tokens, decodes⟩ := decodes
    have one : 1 ≤ processor.nBatch :=
      Nat.le_trans (List.length_pos_iff.mpr decodes.nonempty) decodes.fits
    have unique : ∀ other, processor.DecodesAs faults prompt other → other = tokens := by
      intro other also
      exact Option.some.inj (also.tokenized.symm.trans decodes.tokenized)
    rcases processText_of_decodes logits cells decodes with ⟨full, after, _, result⟩ | ⟨room, _⟩
    · rw [result]
      refine ⟨fun answered => absurd rfl answered, ?_⟩
      rintro ⟨other, answerable⟩
      obtain rfl := unique other answerable.decodes
      have room := answerable.room
      omega
    · obtain ⟨after, prompted, second, result⟩ := processText_of_room logits decodes room
      have answers := generateTokens_answers_iff ((processor.model logits).llama faults)
        processor.vocab tokens 2047 (blankStart after)
      rw [firstToken_iff logits faults decodes.nonempty decodes.valid one prompted second]
        at answers
      rw [result]
      refine answers.trans ⟨?_, ?_⟩
      · rintro ⟨more, sound, best⟩
        exact ⟨tokens, decodes, more, sound, best⟩
      · rintro ⟨other, answerable⟩
        obtain rfl := unique other answerable.decodes
        exact ⟨answerable.room, answerable.sound, answerable.best⟩
  · obtain ⟨outcome, ends⟩ := processText_refused logits decodes
    obtain ⟨after, errors, calls, _, result⟩ := ends cells
    rw [result]
    refine ⟨fun answered => absurd rfl answered, ?_⟩
    rintro ⟨other, answerable⟩
    exact absurd ⟨other, answerable.decodes⟩ decodes

/-- The cells that the loop adds: the last token of the prompt once more, and behind it tokens of
the response. -/
def fedCells (tokens : List Token) (last : Token) (responseTokens : List Token) (count : Nat) :
    List Cell :=
  ((last :: responseTokens).take count).mapIdx fun i token => ⟨tokens.length + i, token⟩

structure Fed (before : List Cell) (tokens : List Token) (last : Token) (i : Nat)
    (state : Generation KvContext) : Prop where
  reached : state.responseTokens.length = i
  cells : state.context.cells = before ++ fedCells tokens last state.responseTokens i

/-- A decode that fails the last iteration adds no cell, one whose logits are of no use adds one
more than there are response tokens. -/
def LeavesFed (before : List Cell) (tokens : List Token) (last : Token)
    (final : Generation KvContext) : Prop :=
  ∃ count, final.responseTokens.length ≤ count ∧ count ≤ final.responseTokens.length + 1 ∧
    final.context.cells = before ++ fedCells tokens last final.responseTokens count

theorem fedCells_append (tokens : List Token) (last : Token) {responseTokens : List Token}
    (more : List Token) {count : Nat} (within : count ≤ responseTokens.length + 1) :
    fedCells tokens last (responseTokens ++ more) count =
      fedCells tokens last responseTokens count := by
  rw [fedCells, fedCells, ← List.cons_append, List.take_append_of_le_length (by simpa using within)]

section Fed

variable {model : KvModel} {vocab : Vocab} {last : Token} {before : List Cell} {i : Nat}
  {state next : Generation KvContext}

theorem decode_fed {context : KvContext} (ends : tokens.getLast? = some last)
    (fed : Fed before tokens last i state)
    (decoded : (model.llama faults).decode state.context
      (nextBatch tokens state.responseTokens i) = .success context) :
    context.cells = before ++ fedCells tokens last state.responseTokens (i + 1) := by
  obtain ⟨token, batch, whole⟩ := nextBatch_fed ends fed.reached
  have every : (last :: state.responseTokens).take (i + 1) = last :: state.responseTokens := by
    rw [List.take_of_length_le (by simp [fed.reached])]
  have early : ((last :: state.responseTokens).take i).length = i := by simp [fed.reached]
  rw [(decode_success decoded).2.2.1, fed.cells, batch, fedCells, fedCells, every, ← whole,
    List.mapIdx_append, early, List.append_assoc]
  have kept : ((last :: state.responseTokens).take i ++ [token]).take i =
      (last :: state.responseTokens).take i := List.take_left' early
  simp [BatchToken.cell, kept]

theorem iteration_fed {exit : Option Exit} (ends : tokens.getLast? = some last)
    (fed : Fed before tokens last i state)
    (taken : iteration (model.llama faults) vocab tokens i state = (next, exit)) :
    LeavesFed before tokens last next ∧ (exit = none → Fed before tokens last (i + 1) next) := by
  have refused : ∀ context : KvContext, context.cells = state.context.cells →
      context.cells = before ++ fedCells tokens last state.responseTokens i :=
    fun context same => same.trans fed.cells
  have size := fed.reached
  cases iteration_step taken with
  | aborted decoded => exact ⟨⟨i, by simp [size], by simp [size], fed.cells⟩, by simp⟩
  | threw what context decoded =>
      exact ⟨⟨i, by simp [size], by simp [size],
        refused _ (decode_refused (Or.inr ⟨what, decoded⟩))⟩, by simp⟩
  | failed code context decoded =>
      exact ⟨⟨i, by simp [size], by simp [size],
        refused _ (decode_refused (Or.inl ⟨code, decoded⟩))⟩, by simp⟩
  | noLogits context decoded =>
      have cells := decode_fed ends fed decoded
      exact ⟨⟨i + 1, by simp [size], by simp [size], cells⟩, by simp⟩
  | noBestToken context logits decoded =>
      have cells := decode_fed ends fed decoded
      exact ⟨⟨i + 1, by simp [size], by simp [size], cells⟩, by simp⟩
  | chosen context logits checked exit decoded answered found chosen =>
      obtain ⟨sameContext, sameTokens, _⟩ := checkToken_frame chosen
      have length : checked.responseTokens.length = i + 1 := by
        rw [sameTokens, List.length_append, List.length_singleton]
        exact congrArg (· + 1) size
      have cells : checked.context.cells =
          before ++ fedCells tokens last checked.responseTokens (i + 1) := by
        rw [sameContext, sameTokens]
        change context.cells = before ++ fedCells tokens last (state.responseTokens ++ _) (i + 1)
        rw [fedCells_append tokens last _ (by omega)]
        exact decode_fed ends fed decoded
      exact ⟨⟨i + 1, by simp [length], by simp [length], cells⟩, fun _ => ⟨length, cells⟩⟩

theorem generateTokens_fed (ends : tokens.getLast? = some last) (remaining : Nat)
    (fed : Fed before tokens last 0 state) :
    LeavesFed before tokens last
      (generateTokens (model.llama faults) vocab tokens remaining 0 state).1 := by
  have leaves : ∀ {j : Nat} {current : Generation KvContext}, Fed before tokens last j current →
      LeavesFed before tokens last current :=
    fun fed => ⟨_, Nat.le_of_eq fed.reached, by rw [fed.reached]; omega, fed.cells⟩
  refine generateTokens_rule (model.llama faults) vocab tokens (Fed before tokens last)
    (fun final _ => LeavesFed before tokens last final) ?_ ?_ remaining 0 state
    (fun _ => leaves) fed
  · exact fun j current next fed taken => (iteration_fed ends fed taken).2 rfl
  · exact fun j current next exit fed taken => (iteration_fed ends fed taken).1

end Fed

theorem processText_answered
    (answered : (processor.processText logits faults cells prompt).responseTokens ≠ []) :
    let processed := processor.processText logits faults cells prompt
    ∃ tokens last count context, promptTokens processor.vocab prompt = some tokens ∧
      tokens.getLast? = some last ∧ processed.impl.context = some context ∧
      context.cells = cells ++ (promptBatch tokens).map BatchToken.cell ++
        fedCells tokens last processed.responseTokens count ∧
      processed.responseTokens.length ≤ count ∧ count ≤ processed.responseTokens.length + 1 := by
  intro processed
  obtain ⟨tokens, decodes, more, _⟩ := processText_answers_iff.mp answered
  obtain ⟨after, prompted, _, result⟩ := processText_of_room logits decodes (Nat.le_of_lt more)
  have ends := List.getLast?_eq_some_getLast decodes.nonempty
  obtain ⟨count, least, most, left⟩ := @generateTokens_fed faults tokens (processor.model logits)
    processor.vocab _ (cells ++ (promptBatch tokens).map BatchToken.cell)
    ⟨after, [], 0, [.init 0, .decode 0]⟩ ends maxResponseTokens
    ⟨rfl, by simpa [fedCells] using prompted⟩
  have same : processed.responseTokens = _ := congrArg Processed.responseTokens result
  rw [same]
  exact ⟨tokens, _, count, _, decodes.tokenized, ends,
    congrArg (fun processed => processed.impl.context) result, left, least, most⟩

end Answers

theorem formatPrompt_ne_nil (analysisType : AnalysisType) (input : QString) :
    formatPrompt analysisType input ≠ [] := by
  intro empty
  have mark := formatPrompt_mark analysisType input
  rw [empty] at mark
  contradiction

section Served

variable {server : Server} {context : LlamaContext} {spm : SpmVocab} {pop : Pop}

def Server.Answerable (server : Server) (context : LlamaContext) (cells : List Cell)
    (request : Request) (tokens : List Token) : Prop :=
  server.processor.Answerable server.logits (server.call context request).faults cells
    request.prompt tokens

theorem serve_answers_iff (positive : 0 < server.nUbatch) {cells : List Cell}
    (holds : context.cache.Holds cells) (sized : context.cache.size = server.nCtx)
    (request : Request) :
    (server.serve context request).responseTokens ≠ [] ↔
      ∃ tokens, server.Answerable context cells request tokens := by
  rw [(spent_eq positive holds sized request).1]
  exact processText_answers_iff

theorem request_answered_iff (positive : 0 < server.nUbatch) (padded : 0 < server.padding)
    {requests : List Request}
    (reached : Transition.run server.serveStep server.started requests = some context) :
    ∃ cells, context.cache.Holds cells ∧ ∀ request,
      (server.serve context request).responseTokens ≠ [] ↔
        ∃ tokens, server.Answerable context cells request tokens := by
  obtain ⟨cells, _, holds, sized⟩ := run_refines positive
    (construct_holds server.nCtx server.nBatch padded) rfl reached
  exact ⟨cells, holds, serve_answers_iff positive holds sized⟩

theorem request_answered_iff_talk :
    (∃ cells, talkServer.started.cache.Holds cells ∧ ∀ request,
      (talkServer.serve talkServer.started request).responseTokens ≠ [] ↔
        ∃ tokens, talkServer.Answerable talkServer.started cells request tokens) ∧
      (talkServer.serve talkServer.started ⟨.quiz, []⟩).responseTokens = [1, 1, 1] :=
  ⟨request_answered_iff (by decide) (by decide)
    (show Transition.run talkServer.serveStep talkServer.started [] = some talkServer.started
      by rfl), by decide⟩

/-- On a context that has served any requests, an answered request has put its whole prompt behind
the cells that were there, as tokens whose pieces spell it, and then what was decoded for the
answer: the last token again, and the response as far as it was fed. -/
theorem served_prompt (same : server.vocab = spm.toVocab pop) (numeric : spm.Numeric)
    (readable : spm.Readable) (lawful : Lawful pop) (positive : 0 < server.nUbatch)
    (padded : 0 < server.padding) {requests : List Request}
    (reached : Transition.run server.serveStep server.started requests = some context)
    {request : Request} (untouched : spm.Untouched (toStdString request.prompt))
    (answered : (server.serve context request).responseTokens ≠ []) :
    let response := (server.serve context request).responseTokens
    ∃ cells tokens last count after, context.cache.Holds cells ∧
      promptTokens server.vocab request.prompt = some tokens ∧ tokens.getLast? = some last ∧
      response.length ≤ count ∧ count ≤ response.length + 1 ∧
      (server.serve context request).impl.context = some after ∧
      after.cache.Holds (cells ++ (promptBatch tokens).map BatchToken.cell ++
        fedCells tokens last response count) ∧
      readBack server.vocab tokens = toStdString
        ((if spm.addSpacePrefix then ' ' :: request.prompt else request.prompt).map readChar) := by
  intro response
  obtain ⟨cells, _, holds, sized⟩ := run_refines positive
    (construct_holds server.nCtx server.nBatch padded) rfl reached
  have agrees := serve_refines positive holds sized request
  have tokensSame := agrees.responseTokens
  obtain ⟨after, state, afterSame, stateSame, refines⟩ := agrees.impl
  rw [generateFor_eq_processText] at tokensSame stateSame
  have responded : response = _ := tokensSame
  rw [tokensSame] at answered
  obtain ⟨tokens, last, count, left, tokenized, ends, leftSame, grown, least, most⟩ :=
    processText_answered answered
  rw [stateSame, Option.some.injEq] at leftSame
  subst leftSame
  have spelled : promptTokens (spm.toVocab pop) request.prompt = some tokens := same ▸ tokenized
  rw [responded]
  refine ⟨cells, tokens, last, count, after, holds, tokenized, ends, least, most, afterSame,
    grown ▸ refines.holds, ?_⟩
  rw [same]
  exact prompt_read numeric readable lawful untouched
    (formatPrompt_ne_nil request.analysisType request.input) spelled

def spmServer : Server where
  vocab := byteSpm.toVocab SpmSession.popFirst
  nCtx := 128
  nBatch := 128
  nUbatch := 32
  padding := 32
  fromStdString := fromLatin1
  logits _ token := if token = 1 then Binary32.one else Binary32.negativeInfinity
  env := ⟨fun _ => true, fun _ _ => .success⟩

theorem spmServer_answers :
    (spmServer.serve spmServer.started ⟨.quiz, []⟩).responseTokens ≠ [] := by
  obtain ⟨tokens, tokenized, nonempty, valid, short⟩ := prompt_accepted byteSpm_numeric
    byteSpm_readable SpmSession.lawful_popFirst (byteSpm_untouched _)
    (formatPrompt_ne_nil .quiz []) rfl rfl
  have few : tokens.length < 128 :=
    Nat.lt_of_le_of_lt short (by decide +kernel)
  have sound : ∀ call, (spmServer.call spmServer.started ⟨.quiz, []⟩).faults call = false := by
    intro call
    simp [Server.call, ComputeEnv.schedule, ComputeEnv.fails, spmServer]
  have holds : spmServer.started.cache.Holds [] := construct_holds 128 128 (by decide)
  have room : ([] : List Cell).length + tokens.length < 128 := by simpa using few
  have best : bestToken spmServer.vocab (spmServer.logits []) ≠ -1 := by decide +kernel
  exact (serve_answers_iff (by decide) holds rfl _).mpr
    ⟨tokens, ⟨tokenized, nonempty, valid, Nat.le_of_lt few, Nat.le_of_lt few, sound 0⟩, room,
      sound 1, best⟩

theorem served_prompt_quiz :
    let response := (spmServer.serve spmServer.started ⟨.quiz, []⟩).responseTokens
    ∃ cells tokens last count after, spmServer.started.cache.Holds cells ∧
      promptTokens spmServer.vocab (Request.prompt ⟨.quiz, []⟩) = some tokens ∧
      tokens.getLast? = some last ∧
      response.length ≤ count ∧ count ≤ response.length + 1 ∧
      (spmServer.serve spmServer.started ⟨.quiz, []⟩).impl.context = some after ∧
      after.cache.Holds (cells ++ (promptBatch tokens).map BatchToken.cell ++
        fedCells tokens last response count) ∧
      readBack spmServer.vocab tokens = toStdString
        ((if byteSpm.addSpacePrefix then ' ' :: Request.prompt ⟨.quiz, []⟩
          else Request.prompt ⟨.quiz, []⟩).map readChar) :=
  served_prompt rfl byteSpm_numeric byteSpm_readable SpmSession.lawful_popFirst (by decide)
    (by decide)
    (show Transition.run spmServer.serveStep spmServer.started [] = some spmServer.started by rfl)
    (byteSpm_untouched _) spmServer_answers

end Served

end TextMaster
