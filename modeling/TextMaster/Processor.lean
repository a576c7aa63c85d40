import TextMaster.Transition
import TextMaster.KvDecode

/-!
An initialised `LLMProcessor` over the cell-based decoder: when a prompt is decoded, when it ends
the process, and what a run of calls leaves in the cells.
-/

namespace TextMaster

structure Processor where
  vocab : Vocab
  nCtx : Nat
  nBatch : Nat
  fromStdString : List UInt8 → QString

def noFaults : Nat → Bool := fun _ => false

structure Call where
  analysisType : AnalysisType
  input : QString
  faults : Nat → Bool

def Call.prompt (call : Call) : QString := formatPrompt call.analysisType call.input

namespace Processor

variable (processor : Processor) (logits : List Cell → Nat → Binary32)

def model : KvModel := ⟨processor.vocab.nTokens, processor.nCtx, processor.nBatch, logits⟩

def impl (cells : List Cell) : Impl KvContext :=
  ⟨some (KvContext.withCells cells), some ⟨some processor.vocab⟩⟩

def processText (faults : Nat → Bool) (cells : List Cell) (prompt : QString) :
    Processed KvContext :=
  TextMaster.processText ((processor.model logits).llama faults) processor.fromStdString
    (processor.impl cells) prompt

def generateFor (cells : List Cell) (call : Call) : Processed KvContext :=
  TextMaster.generateFor ((processor.model logits).llama call.faults) processor.fromStdString
    call.analysisType (processor.impl cells) call.input

def callStep (cells : List Cell) (call : Call) : Option (List Cell) :=
  let processed := processor.generateFor logits cells call
  match processed.outcome with
  | .aborted => none
  | .returned _ => processed.impl.context.map KvContext.cells

/-- On an empty cache the prompt is decoded as these tokens: it tokenises to at least one valid
token, fits the batch and the context, and the call of `llama_decode` does not fail otherwise. -/
structure DecodesAs (faults : Nat → Bool) (prompt : QString) (tokens : List Token) : Prop where
  tokenized : promptTokens processor.vocab prompt = some tokens
  nonempty : tokens ≠ []
  valid : ∀ token ∈ tokens, validToken processor.vocab.nTokens token = true
  fits : tokens.length ≤ processor.nBatch
  short : tokens.length ≤ processor.nCtx
  sound : faults 0 = false

def Decodes (faults : Nat → Bool) (prompt : QString) : Prop :=
  ∃ tokens, processor.DecodesAs faults prompt tokens

def Aborts (prompt : QString) : Prop :=
  ∃ tokens, promptTokens processor.vocab prompt = some tokens ∧
    (∀ token ∈ tokens, validToken processor.vocab.nTokens token = true) ∧
    processor.nBatch < tokens.length

end Processor

section Prompt

variable {processor : Processor} {logits : List Cell → Nat → Binary32}

theorem processText_refused (logits : List Cell → Nat → Binary32) {faults : Nat → Bool}
    {prompt : QString}
    (refused : ¬ processor.Decodes faults prompt) :
    ∃ outcome, ∀ cells, ∃ (after : KvContext) (errors : List QString) (calls : List BatchCall),
      after.cells = cells ∧ processor.processText logits faults cells prompt =
        ⟨⟨some after, some ⟨some processor.vocab⟩⟩, outcome, errors, [], calls⟩ := by
  simp only [Processor.processText, TextMaster.processText, Processor.impl]
  cases tokenized : promptTokens processor.vocab prompt with
  | none => exact ⟨_, fun cells => ⟨.withCells cells, _, _, rfl, rfl⟩⟩
  | some tokens =>
      have batchRefused : ¬(promptBatch tokens ≠ [] ∧
          (∀ entry ∈ promptBatch tokens,
            validToken (processor.model logits).nTokens entry.token = true) ∧
          (promptBatch tokens).length ≤ (processor.model logits).nBatch ∧
          (promptBatch tokens).length ≤ (processor.model logits).nCtx ∧ faults 0 = false) := by
        rintro ⟨nonempty, valid, fits, room, sound⟩
        rw [promptBatch_length] at fits room
        exact refused ⟨tokens, tokenized, fun empty => nonempty (by rw [empty]; rfl),
          valid_of_promptBatch valid, fits, room, sound⟩
      rcases decode_of_refused batchRefused with ⟨code, same⟩ | ⟨what, same⟩ | same
      · exact ⟨.returned [], fun cells => ⟨⟨cells, [], 1⟩, [], [.init 0, .decode 0, .free 0], rfl,
          by simp only [same cells]⟩⟩
      · exact ⟨.returned [], fun cells => ⟨⟨cells, [], 1⟩,
          ["Error processing text: ".toList ++ what], [.init 0, .decode 0], rfl,
          by simp only [same cells]⟩⟩
      · exact ⟨.aborted, fun cells => ⟨.withCells cells, [], [.init 0, .decode 0], rfl,
          by simp only [same cells]⟩⟩

theorem processText_of_not_decodes {faults : Nat → Bool} {prompt : QString} (cells : List Cell)
    (refused : ¬ processor.Decodes faults prompt) :
    (processor.processText logits faults cells prompt).outcome =
        (processor.processText logits faults [] prompt).outcome ∧
      ∀ context, (processor.processText logits faults cells prompt).impl.context = some context →
        context.cells = cells := by
  obtain ⟨outcome, ends⟩ := processText_refused logits refused
  obtain ⟨after, _, _, same, result⟩ := ends cells
  obtain ⟨_, _, _, _, fresh⟩ := ends []
  rw [result, fresh]
  refine ⟨rfl, ?_⟩
  rintro context ⟨⟩
  exact same

theorem processText_of_decodes (logits : List Cell → Nat → Binary32) {faults : Nat → Bool}
    {prompt : QString} {tokens : List Token} (cells : List Cell)
    (decodes : processor.DecodesAs faults prompt tokens) :
    (processor.nCtx < cells.length + tokens.length ∧ ∃ after : KvContext,
        after.cells = cells ∧
        processor.processText logits faults cells prompt =
          ⟨⟨some after, some ⟨some processor.vocab⟩⟩, .returned [], [], [],
            [.init 0, .decode 0, .free 0]⟩) ∨
      (cells.length + tokens.length ≤ processor.nCtx ∧ ∃ after : KvContext,
        after.cells = cells ++ (promptBatch tokens).map BatchToken.cell ∧
        processor.processText logits faults cells prompt =
          finishResponse processor.fromStdString processor.vocab ⟨some processor.vocab⟩
            (generateTokens ((processor.model logits).llama faults) processor.vocab tokens
              maxResponseTokens 0 ⟨after, [], 0, [.init 0, .decode 0]⟩)) := by
  have batchFits : (promptBatch tokens).length ≤ (processor.model logits).nBatch := by
    simpa [Processor.model] using decodes.fits
  by_cases room : cells.length + tokens.length ≤ processor.nCtx
  · obtain ⟨after, decoded⟩ := decode_of_accepted (processor.model logits) faults (.withCells cells)
      (promptBatch tokens) (promptBatch_nonempty decodes.nonempty)
      (promptBatch_valid decodes.valid) batchFits
      (by simpa [Processor.model, KvContext.withCells] using room) decodes.sound
    refine Or.inr ⟨room, after, (decode_success decoded).2.2.1, ?_⟩
    simp only [Processor.processText, TextMaster.processText, Processor.impl, decodes.tokenized,
      decoded]
  · obtain ⟨after, decoded⟩ := decode_of_full (processor.model logits) faults (.withCells cells)
      (promptBatch tokens) (promptBatch_nonempty decodes.nonempty)
      (promptBatch_valid decodes.valid) batchFits
      (by simpa [Processor.model, KvContext.withCells] using room)
    refine Or.inl ⟨by omega, after, decode_refused (Or.inl ⟨1, decoded⟩), ?_⟩
    simp only [Processor.processText, TextMaster.processText, Processor.impl, decodes.tokenized,
      decoded]

theorem finishResponse_context {Context : Type} (fromStdString : List UInt8 → QString)
    (vocab : Vocab) (model : Model) (generated : Generation Context × Exit) :
    (finishResponse fromStdString vocab model generated).impl.context =
      some generated.1.context := rfl

theorem processText_grows {faults : Nat → Bool} {prompt : QString} {cells : List Cell}
    {context : KvContext}
    (left : (processor.processText logits faults cells prompt).impl.context = some context) :
    ∃ extra, context.cells = cells ++ extra := by
  by_cases decodes : processor.Decodes faults prompt
  · obtain ⟨tokens, decodes⟩ := decodes
    rcases processText_of_decodes logits cells decodes with
      ⟨_, after, same, result⟩ | ⟨_, after, prompted, result⟩
    · rw [result] at left
      cases left
      exact ⟨[], by simp [same]⟩
    · rw [result, finishResponse_context] at left
      cases left
      obtain ⟨⟨extra, grown⟩, _⟩ := generateTokens_cells (processor.model logits) faults
        processor.vocab tokens maxResponseTokens 0
        ⟨after, [], 0, [.init 0, .decode 0]⟩
      exact ⟨(promptBatch tokens).map BatchToken.cell ++ extra,
        by rw [grown, prompted, List.append_assoc]⟩
  · exact ⟨[], by simp [(processText_of_not_decodes cells decodes).2 context left]⟩

end Prompt

section History

variable {processor : Processor} {logits : List Cell → Nat → Binary32}

theorem generateFor_eq_processText (cells : List Cell) (call : Call) :
    processor.generateFor logits cells call =
      processor.processText logits call.faults cells call.prompt := by
  simp only [Processor.generateFor, TextMaster.generateFor_eq]
  rfl

theorem callStep_eq_some {cells next : List Cell} {call : Call}
    (taken : processor.callStep logits cells call = some next) :
    ∃ context, (processor.processText logits call.faults cells call.prompt).impl.context =
      some context ∧ context.cells = next := by
  simp only [Processor.callStep, generateFor_eq_processText] at taken
  split at taken
  · contradiction
  · exact Option.map_eq_some_iff.mp taken

theorem callStep_of_not_decodes {cells next : List Cell} {call : Call}
    (refused : ¬ processor.Decodes call.faults call.prompt)
    (taken : processor.callStep logits cells call = some next) : next = cells := by
  obtain ⟨context, left, rfl⟩ := callStep_eq_some taken
  exact (processText_of_not_decodes cells refused).2 context left

theorem callStep_grows {cells next : List Cell} {call : Call}
    (taken : processor.callStep logits cells call = some next) :
    zeroCells cells ≤ zeroCells next := by
  obtain ⟨context, left, rfl⟩ := callStep_eq_some taken
  obtain ⟨extra, grown⟩ := processText_grows left
  rw [grown, zeroCells_append]
  omega

theorem callStep_of_decodes {next : List Cell} {call : Call}
    (decodes : processor.Decodes call.faults call.prompt)
    (taken : processor.callStep logits [] call = some next) : 0 < zeroCells next := by
  obtain ⟨context, left, rfl⟩ := callStep_eq_some taken
  obtain ⟨tokens, decodes⟩ := decodes
  rcases processText_of_decodes logits [] decodes with
    ⟨full, _⟩ | ⟨_, after, prompted, result⟩
  · have short := decodes.short
    simp only [List.length_nil] at full
    omega
  · rw [result, finishResponse_context] at left
    cases left
    obtain ⟨⟨extra, grown⟩, _⟩ := generateTokens_cells (processor.model logits) call.faults
      processor.vocab tokens maxResponseTokens 0 ⟨after, [], 0, [.init 0, .decode 0]⟩
    rw [grown, prompted, List.nil_append, zeroCells_append, promptBatch_zero decodes.nonempty]
    omega

theorem run_of_not_decodes {cells final : List Cell} {history : List Call}
    (refused : ∀ call ∈ history, ¬ processor.Decodes call.faults call.prompt)
    (ran : Transition.run (processor.callStep logits) cells history = some final) :
    final = cells := by
  induction history generalizing cells with
  | nil => simpa using ran.symm
  | cons call rest ih =>
      obtain ⟨next, taken, later⟩ := (Transition.run_cons _ _ _ _ _).mp ran
      have same := callStep_of_not_decodes (refused call (by simp)) taken
      rw [ih (fun other member => refused other (by simp [member])) later, same]

theorem run_zeroCells {cells final : List Cell} {history : List Call}
    (ran : Transition.run (processor.callStep logits) cells history = some final) :
    zeroCells cells ≤ zeroCells final := by
  have preserved : ∀ state call next, zeroCells cells ≤ zeroCells state →
      processor.callStep logits state call = some next → zeroCells cells ≤ zeroCells next :=
    fun _ _ _ bound taken => Nat.le_trans bound (callStep_grows taken)
  exact Transition.run_preserves preserved (Nat.le_refl _) ran

theorem run_of_decodes {final : List Cell} {history : List Call}
    (decoded : ∃ call ∈ history, processor.Decodes call.faults call.prompt)
    (ran : Transition.run (processor.callStep logits) [] history = some final) :
    0 < zeroCells final := by
  induction history with
  | nil => simp at decoded
  | cons call rest ih =>
      obtain ⟨next, taken, later⟩ := (Transition.run_cons _ _ _ _ _).mp ran
      by_cases here : processor.Decodes call.faults call.prompt
      · exact Nat.lt_of_lt_of_le (callStep_of_decodes here taken) (run_zeroCells later)
      · obtain ⟨other, member, decodes⟩ := decoded
        rw [callStep_of_not_decodes here taken] at later
        rcases List.mem_cons.mp member with same | inside
        · exact absurd (same ▸ decodes) here
        · exact ih ⟨other, inside, decodes⟩ later

theorem finishResponse_aborted {Context : Type} {fromStdString : List UInt8 → QString}
    {vocab : Vocab} {model : Model} {generated : Generation Context × Exit}
    (aborted : (finishResponse fromStdString vocab model generated).outcome = .aborted) :
    generated.2 = .aborted := by
  simp only [finishResponse] at aborted
  split at aborted
  · assumption
  · contradiction
  · contradiction

theorem processText_aborted {faults : Nat → Bool} {cells : List Cell} {prompt : QString}
    (aborted : (processor.processText logits faults cells prompt).outcome = .aborted) :
    processor.Aborts prompt := by
  simp only [Processor.processText, TextMaster.processText, Processor.impl] at aborted
  cases tokenized : promptTokens processor.vocab prompt with
  | none => simp [tokenized] at aborted
  | some tokens =>
      simp only [tokenized] at aborted
      cases decoded : ((processor.model logits).llama faults).decode (KvContext.withCells cells)
          (promptBatch tokens) with
      | aborted =>
          obtain ⟨valid, exceeds⟩ := decode_aborted decoded
          rw [promptBatch_length] at exceeds
          exact ⟨tokens, tokenized, valid_of_promptBatch valid, exceeds⟩
      | threw what after => simp [decoded] at aborted
      | failure code after => simp [decoded] at aborted
      | success after =>
          simp only [decoded] at aborted
          obtain ⟨nonempty, fits, _⟩ := decode_success decoded
          have positive := List.length_pos_iff.mpr nonempty
          obtain ⟨_, notAborted⟩ := generateTokens_cells (processor.model logits) faults
            processor.vocab tokens maxResponseTokens 0 ⟨after, [], 0, [.init 0, .decode 0]⟩
          exact absurd (finishResponse_aborted aborted) (notAborted (by omega))

theorem processText_context (processor : Processor) (logits : List Cell → Nat → Binary32)
    (faults : Nat → Bool) (cells : List Cell) (prompt : QString) :
    ∃ context, (processor.processText logits faults cells prompt).impl.context =
      some context := by
  simp only [Processor.processText, TextMaster.processText, Processor.impl]
  split
  · exact ⟨_, rfl⟩
  · split
    · exact ⟨_, rfl⟩
    · exact ⟨_, rfl⟩
    · exact ⟨_, rfl⟩
    · exact ⟨_, finishResponse_context _ _ _ _⟩

theorem processText_of_aborts (faults : Nat → Bool) (cells : List Cell) {prompt : QString}
    (aborts : processor.Aborts prompt) :
    (processor.processText logits faults cells prompt).outcome = .aborted := by
  obtain ⟨tokens, tokenized, valid, exceeds⟩ := aborts
  have decoded := decode_of_aborted (processor.model logits) faults (.withCells cells)
    (promptBatch tokens) (promptBatch_valid valid) (by simpa [Processor.model] using exceeds)
  simp only [Processor.processText, TextMaster.processText, Processor.impl, tokenized, decoded]

theorem callStep_of_aborts {cells : List Cell} {call : Call}
    (aborts : processor.Aborts call.prompt) : processor.callStep logits cells call = none := by
  simp only [Processor.callStep, generateFor_eq_processText,
    processText_of_aborts call.faults cells aborts]

theorem run_of_aborts {cells : List Cell} {history : List Call}
    (aborts : ∃ call ∈ history, processor.Aborts call.prompt) :
    Transition.run (processor.callStep logits) cells history = none := by
  induction history generalizing cells with
  | nil => simp at aborts
  | cons call rest ih =>
      obtain ⟨other, member, overlong⟩ := aborts
      rw [Option.eq_none_iff_forall_ne_some]
      intro final ran
      obtain ⟨next, taken, later⟩ := (Transition.run_cons _ _ _ _ _).mp ran
      rcases List.mem_cons.mp member with same | inside
      · rw [callStep_of_aborts (same ▸ overlong)] at taken
        contradiction
      · rw [ih ⟨other, inside, overlong⟩] at later
        contradiction

theorem run_isSome (logits : List Cell → Nat → Binary32) (cells : List Cell)
    {history : List Call}
    (fits : ∀ call ∈ history, ¬ processor.Aborts call.prompt) :
    ∃ final, Transition.run (processor.callStep logits) cells history = some final := by
  induction history generalizing cells with
  | nil => exact ⟨cells, rfl⟩
  | cons call rest ih =>
      have step : ∃ next, processor.callStep logits cells call = some next := by
        simp only [Processor.callStep, generateFor_eq_processText]
        split
        · rename_i aborted
          exact absurd (processText_aborted aborted) (fits call (by simp))
        · obtain ⟨context, left⟩ :=
            processText_context processor logits call.faults cells call.prompt
          exact ⟨context.cells, by simp [left]⟩
      obtain ⟨next, taken⟩ := step
      obtain ⟨final, later⟩ := ih next (fun other member => fits other (by simp [member]))
      exact ⟨final, (Transition.run_cons _ _ _ _ _).mpr ⟨next, taken, later⟩⟩

end History

def letterProcessor : Processor := ⟨letterVocab, 2048, 2048, fromLatin1⟩

end TextMaster
