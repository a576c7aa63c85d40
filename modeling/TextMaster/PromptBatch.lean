import TextMaster.Processor
import TextMaster.HistoryFile

/-!
The size of the prompt batch against `n_batch`. The window's limit counts words, the batch counts
tokens, and the only bound between them is the buffer of one token more than bytes that
`processText` offers to the tokenizer.
-/

namespace TextMaster

/-- `n_batch` as `LLMProcessor::initialize` sets it. -/
def nBatch : Nat := 2048

/-- A tokenizer that, after at most one start token, covers the text with tokens of at most
`limit` bytes each. -/
structure Covers (limit : Nat) (vocab : Vocab) : Prop where
  cover : ∀ text, ∃ (start : List Token) (parts : List (Token × List UInt8)),
    start.length ≤ 1 ∧ vocab.tokenize text = start ++ parts.map Prod.fst ∧
      (parts.map Prod.snd).flatten = text ∧ ∀ part ∈ parts, part.2.length ≤ limit
  valid : ∀ text, ∀ token ∈ vocab.tokenize text, validToken vocab.nTokens token = true

structure PromptFits (vocab : Vocab) (prompt : QString) : Prop where
  batch : ∀ tokens, promptTokens vocab prompt = some tokens →
    (promptBatch tokens).length ≤ nBatch
  returns : ∀ nCtx fromStdString logits faults cells,
    ((Processor.mk vocab nCtx nBatch fromStdString).processText logits faults cells
      prompt).outcome ≠ .aborted

section Bounds

theorem promptFits_of_bound {vocab : Vocab} {prompt : QString}
    (bound : ∀ tokens, promptTokens vocab prompt = some tokens → tokens.length ≤ nBatch) :
    PromptFits vocab prompt := by
  constructor
  · intro tokens tokenized
    rw [promptBatch_length]
    exact bound tokens tokenized
  · intro nCtx fromStdString logits faults cells aborted
    obtain ⟨tokens, tokenized, _, exceeds⟩ := processText_aborted aborted
    exact absurd (bound tokens tokenized) (Nat.not_le_of_lt exceeds)

theorem formatPrompt_around (analysisType : AnalysisType) (text : QString) :
    ∃ before after, formatPrompt analysisType text = before ++ text ++ after := by
  cases analysisType with
  | studyGuide => exact ⟨studyGuideTemplate, [], (List.append_nil _).symm⟩
  | quiz => exact ⟨_, _, rfl⟩
  | flashcards => exact ⟨_, _, rfl⟩
  | enumerations => exact ⟨_, _, rfl⟩

theorem text_length_le_prompt (analysisType : AnalysisType) (text : QString) :
    text.length ≤ (toStdString (formatPrompt analysisType text)).length := by
  apply Nat.le_trans ?_ (length_le_toStdString _)
  obtain ⟨before, after, same⟩ := formatPrompt_around analysisType text
  rw [same, List.length_append, List.length_append]
  omega

end Bounds

section Bytes

def byteVocab : Vocab where
  nTokens := 257
  eos := 256
  special token := token == 256
  piece token := [token.toNat.toUInt8]
  tokenize text := 256 :: text.map fun byte => (byte.toNat : Int)

theorem byteVocab_covers {limit : Nat} (positive : 1 ≤ limit) : Covers limit byteVocab := by
  constructor
  · intro text
    refine ⟨[256], text.map fun byte => ((byte.toNat : Int), [byte]), by simp, ?_, ?_, ?_⟩
    · simp [byteVocab, Function.comp_def]
    · rw [List.map_map]
      induction text with
      | nil => rfl
      | cons byte rest ih => simpa using ih
    · simpa using fun _ _ => positive
  · intro text token member
    simp only [byteVocab, List.mem_cons, List.mem_map] at member
    rcases member with rfl | ⟨byte, _, rfl⟩
    · rfl
    · have bound : (0 : Int) ≤ byte.toNat ∧ (byte.toNat : Int) < (257 : Nat) := by
        have below := byte.toNat_lt
        omega
      simpa [validToken, byteVocab] using bound

theorem byteVocab_tokens (prompt : QString) :
    promptTokens byteVocab prompt =
      some (256 :: (toStdString prompt).map fun byte => (byte.toNat : Int)) :=
  promptTokens_eq_some.mpr ⟨rfl, by simp⟩

end Bytes

section Accepted

variable {DateTime : Type}

theorem countRuns_outside {inClass : Char → Bool} {text : QString}
    (outside : ∀ char ∈ text, inClass char = false) (inside : Bool) :
    countRuns inClass inside text = 0 := by
  induction text generalizing inside with
  | nil => rfl
  | cons char rest ih =>
      rw [countRuns, if_neg (by simp [outside char (by simp)]),
        ih fun other member => outside other (by simp [member])]

def textWindow (text : QString) : MainWindow Moment :=
  (MainWindow.construct minuteQt none true []).onImportFileClicked text

def AcceptedFits (limit : Nat) (analysisType : AnalysisType) (window : MainWindow DateTime) :
    Prop :=
  window.validateInputText = true → ∀ vocab, Covers limit vocab →
    PromptFits vocab (formatPrompt analysisType window.homePage.textInput)

/-- Whatever the bound on a token's bytes, an accepted text fits for every covering tokenizer
exactly if its prompt has fewer bytes than the batch has room for tokens. -/
theorem accepted_fits_iff (limit : Nat) (positive : 1 ≤ limit) (analysisType : AnalysisType)
    (window : MainWindow DateTime) :
    AcceptedFits limit analysisType window ↔ (window.validateInputText = true →
      (toStdString (formatPrompt analysisType window.homePage.textInput)).length < nBatch) := by
  constructor
  · intro fits accepted
    have bounded := (fits accepted byteVocab (byteVocab_covers positive)).batch _
      (byteVocab_tokens _)
    rw [promptBatch_length, List.length_cons, List.length_map] at bounded
    exact bounded
  · intro short accepted vocab _
    apply promptFits_of_bound
    intro tokens tokenized
    have bounded := (promptTokens_eq_some.mp tokenized).2
    have fewer := short accepted
    omega

theorem accepted_fits_iff_letter :
    AcceptedFits 8 .quiz (textWindow ['a']) ↔ ((textWindow ['a']).validateInputText = true →
      (toStdString (formatPrompt .quiz (textWindow ['a']).homePage.textInput)).length <
        nBatch) :=
  accepted_fits_iff 8 (by decide) .quiz (textWindow ['a'])

def marks (count : Nat) : QString := List.replicate count '!'

theorem marks_accepted {count : Nat} (positive : 0 < count) :
    (textWindow (marks count)).validateInputText = true := by
  have text : (textWindow (marks count)).homePage.textInput = marks count := rfl
  have filled : (marks count).isEmpty = false := by
    simp only [marks, List.isEmpty_eq_false_iff, ne_eq, List.replicate_eq_nil_iff]
    omega
  have noWords : regexWords (marks count) = 0 := by
    apply countRuns_outside
    intro char member
    rw [List.eq_of_mem_replicate member]
    decide
  simp only [MainWindow.validateInputText, text, filled, noWords]
  decide

theorem flatten_length_le {Item : Type} {limit : Nat} {parts : List (List Item)}
    (short : ∀ part ∈ parts, part.length ≤ limit) :
    parts.flatten.length ≤ limit * parts.length := by
  induction parts with
  | nil => simp
  | cons part rest ih =>
      have here := short part (by simp)
      have later := ih fun other member => short other (by simp [member])
      rw [List.flatten_cons, List.length_append, List.length_cons, Nat.mul_succ]
      omega

theorem accepted_overlong {limit : Nat} {vocab : Vocab} (covers : Covers limit vocab)
    (analysisType : AnalysisType) {tokens : List Token}
    (tokenized : promptTokens vocab
      (formatPrompt analysisType (marks (limit * nBatch + 1))) = some tokens) :
    (textWindow (marks (limit * nBatch + 1))).validateInputText = true ∧
      nBatch < tokens.length := by
  refine ⟨marks_accepted (Nat.succ_pos _), ?_⟩
  obtain ⟨rfl, _⟩ := promptTokens_eq_some.mp tokenized
  obtain ⟨start, parts, _, split, covered, short⟩ :=
    covers.cover (toStdString (formatPrompt analysisType (marks (limit * nBatch + 1))))
  have bytes := text_length_le_prompt analysisType (marks (limit * nBatch + 1))
  have shortParts : ∀ part ∈ parts.map Prod.snd, part.length ≤ limit := by
    intro part member
    obtain ⟨entry, inside, rfl⟩ := List.mem_map.mp member
    exact short entry inside
  have few := flatten_length_le shortParts
  rw [covered, List.length_map] at few
  rw [marks, List.length_replicate] at bytes
  rw [split, List.length_append, List.length_map]
  by_contra fits
  have small : limit * parts.length ≤ limit * nBatch := Nat.mul_le_mul_left limit (by omega)
  rw [marks] at few
  omega

theorem accepted_marks_do_not_fit :
    (textWindow (marks 2048)).validateInputText = true ∧ Covers 1 byteVocab ∧
      ∀ analysisType, ¬ PromptFits byteVocab (formatPrompt analysisType (marks 2048)) ∧
        ((Processor.mk byteVocab 2048 nBatch fromLatin1).generateFor (fun _ _ => Binary32.quietNaN)
          [] ⟨analysisType, marks 2048, noFaults⟩).outcome = .aborted := by
  refine ⟨marks_accepted (by decide), byteVocab_covers (Nat.le_refl 1), ?_⟩
  intro analysisType
  have bytes := text_length_le_prompt analysisType (marks 2048)
  rw [show (marks 2048).length = 2048 from List.length_replicate] at bytes
  constructor
  · intro fits
    have bounded := fits.batch _ (byteVocab_tokens _)
    rw [promptBatch_length, List.length_cons, List.length_map, nBatch] at bounded
    omega
  · rw [generateFor_eq_processText]
    apply processText_of_aborts
    refine ⟨_, byteVocab_tokens _, ?_, ?_⟩
    · exact (byteVocab_covers (Nat.le_refl 1)).valid _
    · rw [List.length_cons, List.length_map]
      exact Nat.lt_succ_of_le bytes

end Accepted

end TextMaster
