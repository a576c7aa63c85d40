import TextMaster.ResponseText
import TextMaster.HistoryFile

/-!
One accepted request from the click to its finished signal: which outcomes of the calls to
llama.cpp the window records as a study guide.
-/

namespace TextMaster

/-- What the calls to llama.cpp inside one `processText` came to. -/
inductive LlamaOutcome where
  | notInitialized
  | noVocab
  | notTokenized
  | promptAborted
  | promptThrew (what : QString)
  | promptRefused
  | generated (vocab : Vocab) (exit : Exit) (responseTokens : List Token)

def Exit.regular : Exit → Bool
  | .threw _ => false
  | .aborted => false
  | _ => true

namespace LlamaOutcome

variable (fromStdString : List UInt8 → QString)

def Ended : LlamaOutcome → Prop
  | .generated _ exit _ => exit.regular = true
  | _ => False

/-- The text that the model has generated, with the pieces of all its tokens in full. -/
def text : LlamaOutcome → QString
  | .generated vocab exit responseTokens =>
    if exit.regular then trimmed (fromStdString (responseTokens.flatMap (fullPiece vocab))) else []
  | _ => []

def shortText : LlamaOutcome → QString
  | .generated vocab exit responseTokens =>
    if exit.regular then
      trimmed (fromStdString
        ((responseTokens.filter fun token => PieceFits vocab token).flatMap (fullPiece vocab)))
    else []
  | _ => []

/-- A loop that ended has generated a visible text, and leaving out its long pieces does not change
this text, or leaves nothing of a text that happens to be the failure sentence. -/
def Conveyed (outcome : LlamaOutcome) : Prop :=
  outcome.Ended → outcome.text fromStdString ≠ [] ∧
    (outcome.shortText fromStdString = outcome.text fromStdString ∨
      outcome.shortText fromStdString = [] ∧ outcome.text fromStdString = failureText)

theorem text_of_not_ended {fromStdString : List UInt8 → QString} {outcome : LlamaOutcome}
    (unended : ¬ outcome.Ended) : outcome.text fromStdString = [] := by
  cases outcome with
  | generated vocab exit responseTokens => exact if_neg unended
  | _ => rfl

theorem conveyed_of_fits {fromStdString : List UInt8 → QString} {vocab : Vocab} {exit : Exit}
    {responseTokens : List Token} (fits : ∀ token ∈ responseTokens, PieceFits vocab token) :
    (generated vocab exit responseTokens).Conveyed fromStdString ↔ (exit.regular = true →
      ∃ char ∈ fromStdString (responseTokens.flatMap (fullPiece vocab)), isSpace char = false) := by
  have every : responseTokens.filter (fun token => PieceFits vocab token) = responseTokens :=
    List.filter_eq_self.mpr fun token member => by simpa using fits token member
  simp only [Conveyed, Ended, text, shortText, every, true_or, and_true]
  apply imp_congr_right
  intro regular
  rw [if_pos regular, ne_eq, trimmed_eq_nil]
  push Not
  simp

end LlamaOutcome

section Outcome

variable {Context : Type} (llama : Llama Context) (fromStdString : List UInt8 → QString)

def llamaOutcome (impl : Impl Context) (prompt : QString) : LlamaOutcome :=
  match impl.context, impl.model with
  | some context, some model =>
    match model.vocab with
    | none => .noVocab
    | some vocab =>
      match promptTokens vocab prompt with
      | none => .notTokenized
      | some tokens =>
        match llama.decode context (promptBatch tokens) with
        | .aborted => .promptAborted
        | .threw what _ => .promptThrew what
        | .failure _ _ => .promptRefused
        | .success after =>
          let generated := generateTokens llama vocab tokens maxResponseTokens 0
            ⟨after, [], 0, [.init 0, .decode 0]⟩
          .generated vocab generated.2 generated.1.responseTokens
  | _, _ => .notInitialized

def ReturnsText (outcome : LlamaOutcome) (result : QString) : Prop :=
  (outcome.Ended → result = if outcome.shortText fromStdString = [] then failureText
    else outcome.shortText fromStdString) ∧ (¬ outcome.Ended → result = [])

theorem finishResponse_returnsText {vocab : Vocab} {model : Model}
    {generated : Generation Context × Exit} {result : QString}
    (returned : (finishResponse fromStdString vocab model generated).outcome = .returned result) :
    ReturnsText fromStdString (.generated vocab generated.2 generated.1.responseTokens) result := by
  constructor
  · intro regular
    have cleaned : result = cleanedResponse fromStdString vocab generated.1.responseTokens := by
      cases exit : generated.2 <;>
        simp_all [finishResponse, Exit.regular, LlamaOutcome.Ended]
    have kept : LlamaOutcome.shortText fromStdString
        (.generated vocab generated.2 generated.1.responseTokens) =
          trimmed (fromStdString (responseBytes vocab generated.1.responseTokens)) := by
      rw [responseBytes_eq_fitting]
      exact if_pos regular
    simp only [cleaned, kept, cleanedResponse, List.isEmpty_iff]
  · intro raised
    cases exit : generated.2 <;> simp_all [finishResponse, Exit.regular, LlamaOutcome.Ended]

theorem ReturnsText.eq_text_iff {outcome : LlamaOutcome} {result : QString}
    (returns : ReturnsText fromStdString outcome result) :
    result = outcome.text fromStdString ↔ outcome.Conveyed fromStdString := by
  by_cases ended : outcome.Ended
  · rw [returns.1 ended]
    simp only [LlamaOutcome.Conveyed, ended, true_implies]
    split
    · rename_i nothing
      rw [nothing]
      constructor
      · intro sentence
        rw [← sentence]
        exact ⟨by decide, Or.inr ⟨rfl, rfl⟩⟩
      · rintro ⟨visible, kept | ⟨_, sentence⟩⟩
        · exact absurd kept.symm visible
        · exact sentence.symm
    · rename_i something
      constructor
      · intro kept
        exact ⟨kept ▸ something, Or.inl kept⟩
      · rintro ⟨_, kept | ⟨nothing, _⟩⟩
        · exact kept
        · exact absurd nothing something
  · rw [returns.2 ended, LlamaOutcome.text_of_not_ended ended]
    exact ⟨fun _ ends => absurd ends ended, fun _ => rfl⟩

theorem processText_returnsText {impl : Impl Context} {prompt result : QString}
    (returned : (processText llama fromStdString impl prompt).outcome = .returned result) :
    ReturnsText fromStdString (llamaOutcome llama impl prompt) result := by
  have null {outcome : LlamaOutcome} (unended : ¬ outcome.Ended)
      (isNull : Outcome.returned [] = .returned result) :
      ReturnsText fromStdString outcome result := by
    cases isNull
    exact ⟨fun ends => absurd ends unended, fun _ => rfl⟩
  obtain ⟨context, model⟩ := impl
  cases context with
  | none => exact null id returned
  | some context =>
      cases model with
      | none => exact null id returned
      | some model =>
          obtain ⟨vocab⟩ := model
          cases vocab with
          | none => exact null id returned
          | some vocab =>
              simp only [processText, llamaOutcome] at returned ⊢
              cases tokenized : promptTokens vocab prompt with
              | none =>
                  simp only [tokenized] at returned ⊢
                  exact null id returned
              | some tokens =>
                  simp only [tokenized] at returned ⊢
                  cases decoded : llama.decode context (promptBatch tokens) with
                  | aborted => simp [decoded] at returned
                  | threw what after =>
                      simp only [decoded] at returned ⊢
                      exact null id returned
                  | failure code after =>
                      simp only [decoded] at returned ⊢
                      exact null id returned
                  | success after =>
                      simp only [decoded] at returned ⊢
                      exact finishResponse_returnsText fromStdString returned

end Outcome

namespace MainWindow

variable {DateTime Context : Type} (qt : Qt DateTime) (llama : Llama Context)
  (fromStdString : List UInt8 → QString) (impl : Impl Context)

/-- A click, the request it starts, the errors that the request reports and its finished signal;
`none` where the text is not accepted or the process ends. -/
def request (now : DateTime) (saved : SaveOutcome) (window : MainWindow DateTime) :
    Option (MainWindow DateTime) :=
  if window.validateInputText then
    let accepted := window.acceptInput
    let processed := generateStudyGuide llama fromStdString impl accepted.currentInputText
    match processed.outcome with
    | .aborted => none
    | .returned result =>
      some (studyGuideFinished qt result now saved
        (processed.errors.foldl (fun reached error => reached.handleLLMError error) accepted))
  else none

structure Records (result : QString) (before after : MainWindow DateTime) : Prop where
  history : ∃ item, item.result = result ∧
    after.processingHistory = item :: before.processingHistory
  shown : after.resultsPage = result
  page : after.currentPage = .results
  status : after.status = successText

structure Unrecorded (before after : MainWindow DateTime) : Prop where
  history : after.processingHistory = before.processingHistory
  file : after.historyFile = before.historyFile
  shown : after.resultsPage = before.resultsPage
  page : after.currentPage = before.currentPage
  status : after.status ≠ successText

def Classified (text : QString) (before after : MainWindow DateTime) : Prop :=
  (text ≠ [] → Records text before after) ∧ (text = [] → Unrecorded before after)

theorem handleErrors_frame (errors : List QString) (window : MainWindow DateTime) :
    let reached := errors.foldl (fun reached error => reached.handleLLMError error) window
    reached.processingHistory = window.processingHistory ∧
      reached.historyFile = window.historyFile ∧ reached.resultsPage = window.resultsPage ∧
      reached.currentPage = window.currentPage := by
  induction errors generalizing window with
  | nil => exact ⟨rfl, rfl, rfl, rfl⟩
  | cons error rest ih => exact ih (window.handleLLMError error)

theorem studyGuideFinished_empty (now : DateTime) (saved : SaveOutcome)
    (window : MainWindow DateTime) :
    Unrecorded window (window.studyGuideFinished qt [] now saved) :=
  ⟨rfl, rfl, rfl, rfl, by
    change "Failed to generate study guide".toList ≠ successText
    decide⟩

theorem studyGuideFinished_records {result : QString} (filled : result ≠ []) (now : DateTime)
    (saved : SaveOutcome) (window : MainWindow DateTime) :
    Records result window (window.studyGuideFinished qt result now saved) := by
  have notEmpty : result.isEmpty = false := by simpa using filled
  simp only [studyGuideFinished, recordResult, notEmpty]
  exact ⟨⟨⟨window.currentInputText, result, now⟩, rfl, rfl⟩, rfl, rfl, rfl⟩

theorem request_eq_some {now : DateTime} {saved : SaveOutcome}
    {window next : MainWindow DateTime} :
    let processed := generateStudyGuide llama fromStdString impl window.homePage.textInput
    window.request qt llama fromStdString impl now saved = some next ↔
      window.validateInputText = true ∧ ∃ result, processed.outcome = .returned result ∧
        next = (processed.errors.foldl (fun reached error => reached.handleLLMError error)
          window.acceptInput).studyGuideFinished qt result now saved := by
  have input : window.acceptInput.currentInputText = window.homePage.textInput := rfl
  simp only [request, input]
  by_cases accepted : window.validateInputText = true
  · rw [if_pos accepted]
    cases (generateStudyGuide llama fromStdString impl window.homePage.textInput).outcome with
    | aborted => simp
    | returned result => simp [accepted, eq_comm]
  · simp [accepted]

theorem request_cases {now : DateTime} {saved : SaveOutcome} {window next : MainWindow DateTime}
    (handled : window.request qt llama fromStdString impl now saved = some next) :
    ∃ result, (generateStudyGuide llama fromStdString impl window.homePage.textInput).outcome =
        .returned result ∧
      (result = [] → Unrecorded window next) ∧ (result ≠ [] → Records result window next) := by
  obtain ⟨_, result, returned, rfl⟩ := (request_eq_some qt llama fromStdString impl).mp handled
  obtain ⟨history, file, shown, page⟩ := handleErrors_frame
    (generateStudyGuide llama fromStdString impl window.homePage.textInput).errors
    window.acceptInput
  refine ⟨result, returned, ?_, ?_⟩
  · rintro rfl
    have unrecorded := studyGuideFinished_empty qt now saved
      ((generateStudyGuide llama fromStdString impl window.homePage.textInput).errors.foldl
        (fun reached error => reached.handleLLMError error) window.acceptInput)
    exact ⟨unrecorded.history.trans history, unrecorded.file.trans file,
      unrecorded.shown.trans shown, unrecorded.page.trans page, unrecorded.status⟩
  · intro filled
    have records := studyGuideFinished_records qt filled now saved
      ((generateStudyGuide llama fromStdString impl window.homePage.textInput).errors.foldl
        (fun reached error => reached.handleLLMError error) window.acceptInput)
    obtain ⟨item, same, grown⟩ := records.history
    rw [history] at grown
    exact ⟨⟨item, same, grown⟩, records.shown, records.page, records.status⟩

theorem classified_iff {text result : QString} {before after : MainWindow DateTime}
    (unrecorded : result = [] → Unrecorded before after)
    (records : result ≠ [] → Records result before after) :
    Classified text before after ↔ result = text := by
  constructor
  · rintro ⟨filled, empty⟩
    by_cases none : text = []
    · rw [none]
      by_contra recorded
      obtain ⟨item, _, grown⟩ := (records recorded).history
      have kept := (empty none).history
      rw [grown] at kept
      simp at kept
    · by_cases nothing : result = []
      · obtain ⟨item, _, grown⟩ := (filled none).history
        have kept := (unrecorded nothing).history
        rw [grown] at kept
        simp at kept
      · exact (records nothing).shown.symm.trans (filled none).shown
  · rintro rfl
    exact ⟨records, unrecorded⟩

/-- The request is classified by the text that the model has generated exactly when this text was
conveyed. Elsewhere the failure sentence is recorded as a study guide, or a text with gaps. -/
theorem request_classified_iff (now : DateTime) (saved : SaveOutcome)
    (window next : MainWindow DateTime)
    (handled : window.request qt llama fromStdString impl now saved = some next) :
    let outcome := llamaOutcome llama impl (formatStudyGuidePrompt window.homePage.textInput)
    Classified (outcome.text fromStdString) window next ↔ outcome.Conveyed fromStdString := by
  intro outcome
  obtain ⟨result, returned, unrecorded, records⟩ :=
    request_cases qt llama fromStdString impl handled
  exact (classified_iff unrecorded records).trans
    (processText_returnsText llama fromStdString returned).eq_text_iff

section Silent

def silentLlama : Llama Unit where
  decode _ _ := .success ()
  getLogitsIth _ _ := some fun id => if id = 0 then Binary32.one else Binary32.quietNaN

def silentImpl : Impl Unit := ⟨some (), some ⟨some letterVocab⟩⟩

def letterWindow : MainWindow Moment :=
  (construct minuteQt none true []).onImportFileClicked ['a']

theorem silent_generateTokens (tokens : List Token) (calls : List BatchCall) :
    generateTokens silentLlama letterVocab tokens maxResponseTokens 0 ⟨(), [], 0, calls⟩ =
      (⟨(), [0], 0, calls ++ [.init 1] ++ [.decode 1] ++ [.free 1]⟩, .endOfText) := by
  have best : bestToken letterVocab (fun id => if id = 0 then Binary32.one else
      Binary32.quietNaN) = 0 := by decide
  have eos : letterVocab.eos = 0 := rfl
  have stopped : iteration silentLlama letterVocab tokens 0 ⟨(), [], 0, calls⟩ =
      (⟨(), [0], 0, calls ++ [.init 1] ++ [.decode 1] ++ [.free 1]⟩, some .endOfText) := by
    simp [iteration, silentLlama, chooseToken, best, checkToken, eos, Generation.call]
  rw [maxResponseTokens, generateTokens_stop stopped]

theorem silent_outcome (prompt : QString) :
    llamaOutcome silentLlama silentImpl prompt = .generated letterVocab .endOfText [0] := by
  simp only [llamaOutcome, silentImpl, letterVocab_tokens]
  change LlamaOutcome.generated _ (generateTokens silentLlama _ _ _ _ ⟨(), [], 0, _⟩).2
    (generateTokens silentLlama _ _ _ _ ⟨(), [], 0, _⟩).1.responseTokens = _
  rw [silent_generateTokens]

theorem silent_processText (prompt : QString) :
    (processText silentLlama fromLatin1 silentImpl prompt).outcome = .returned failureText := by
  simp only [processText, silentImpl, letterVocab_tokens]
  change (finishResponse _ _ _ (generateTokens silentLlama _ _ _ _ ⟨(), [], 0, _⟩)).outcome = _
  rw [silent_generateTokens]
  decide

theorem word_tokens (prompt : QString) : promptTokens wordVocab prompt = some [1] :=
  promptTokens_eq_some.mpr ⟨rfl, by simp⟩

theorem word_request (prompt : QString) :
    (processText wordLlama fromLatin1 ⟨some 1, some ⟨some wordVocab⟩⟩ prompt).outcome =
        .returned failureText ∧
      llamaOutcome wordLlama ⟨some 1, some ⟨some wordVocab⟩⟩ prompt =
        .generated wordVocab .endOfText [2, 0] := by
  simp only [processText, llamaOutcome, word_tokens]
  exact ⟨rfl, rfl⟩

theorem failure_unclassified {window : MainWindow Moment} {llama : Llama Context}
    {impl : Impl Context} {text : QString}
    (accepted : window.validateInputText = true) (other : failureText ≠ text)
    (failed : (processText llama fromLatin1 impl
      (formatStudyGuidePrompt window.homePage.textInput)).outcome = .returned failureText) :
    ∃ next, window.request minuteQt llama fromLatin1 impl (some 1) .completed = some next ∧
      ¬ Classified text window next := by
  refine ⟨_, (request_eq_some _ _ _ _).mpr ⟨accepted, failureText, failed, rfl⟩, ?_⟩
  intro classified
  obtain ⟨result, returned, unrecorded, records⟩ := request_cases minuteQt llama fromLatin1 impl
    ((request_eq_some _ _ _ _).mpr ⟨accepted, failureText, failed, rfl⟩)
  rw [generateStudyGuide, failed, Outcome.returned.injEq] at returned
  subst returned
  exact other ((classified_iff unrecorded records).mp classified)

theorem failures_recorded :
    (∃ next, letterWindow.request minuteQt silentLlama fromLatin1 silentImpl (some 1) .completed =
        some next ∧
      ¬ Classified ((llamaOutcome silentLlama silentImpl
        (formatStudyGuidePrompt letterWindow.homePage.textInput)).text fromLatin1)
        letterWindow next) ∧
    ∃ next, letterWindow.request minuteQt wordLlama fromLatin1 ⟨some 1, some ⟨some wordVocab⟩⟩
        (some 1) .completed = some next ∧
      ¬ Classified ((llamaOutcome wordLlama ⟨some 1, some ⟨some wordVocab⟩⟩
        (formatStudyGuidePrompt letterWindow.homePage.textInput)).text fromLatin1)
        letterWindow next := by
  have accepted : letterWindow.validateInputText = true := by decide
  rw [silent_outcome, (word_request _).2]
  exact ⟨failure_unclassified accepted (by decide) (silent_processText _),
    failure_unclassified accepted (by decide) (word_request _).1⟩

def shortVocab : Vocab := { wordVocab with piece := fun _ => [97, 32] }

theorem short_request (prompt : QString) :
    (processText wordLlama fromLatin1 ⟨some 0, some ⟨some shortVocab⟩⟩ prompt).outcome =
        .returned ['a', ' ', 'a'] ∧
      llamaOutcome wordLlama ⟨some 0, some ⟨some shortVocab⟩⟩ prompt =
        .generated shortVocab .endOfText [1, 2, 0] := by
  have tokens : promptTokens shortVocab prompt = some [1] :=
    promptTokens_eq_some.mpr ⟨rfl, by simp⟩
  simp only [processText, llamaOutcome, tokens]
  exact ⟨rfl, rfl⟩

/-- The answer "a a", all of whose pieces fit into the buffer. -/
theorem short_request_classified : ∃ next,
    letterWindow.request minuteQt wordLlama fromLatin1 ⟨some 0, some ⟨some shortVocab⟩⟩ (some 1)
        .completed = some next ∧
      (llamaOutcome wordLlama ⟨some 0, some ⟨some shortVocab⟩⟩
        (formatStudyGuidePrompt letterWindow.homePage.textInput)).Conveyed fromLatin1 ∧
      (Classified ((llamaOutcome wordLlama ⟨some 0, some ⟨some shortVocab⟩⟩
          (formatStudyGuidePrompt letterWindow.homePage.textInput)).text fromLatin1)
          letterWindow next ↔
        (llamaOutcome wordLlama ⟨some 0, some ⟨some shortVocab⟩⟩
          (formatStudyGuidePrompt letterWindow.homePage.textInput)).Conveyed fromLatin1) := by
  have accepted : letterWindow.validateInputText = true := by decide
  have handled : letterWindow.request minuteQt wordLlama fromLatin1
      ⟨some 0, some ⟨some shortVocab⟩⟩ (some 1) .completed = some _ :=
    (request_eq_some _ _ _ _).mpr ⟨accepted, _, (short_request _).1, rfl⟩
  refine ⟨_, handled, ?_, request_classified_iff minuteQt wordLlama fromLatin1 _ _ _ _ _ handled⟩
  rw [(short_request _).2, LlamaOutcome.conveyed_of_fits (by decide)]
  exact fun _ => ⟨'a', by decide, by decide⟩

end Silent

end MainWindow

end TextMaster
