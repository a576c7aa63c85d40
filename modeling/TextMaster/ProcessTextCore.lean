import TextMaster.LlamaCore

/-!
`LLMProcessor`: the prompt formatters, `processText` with its generation loop, and the four
generators. The context of llama.cpp is a state passed along, so one definition serves every
decoder that `Llama` describes.
-/

namespace TextMaster

inductive AnalysisType where
  | studyGuide
  | quiz
  | flashcards
  | enumerations
  deriving DecidableEq, Repr

/-! The templates hold a single `%1`, so `arg` puts the input between a prefix and a suffix. -/

def studyGuideTemplate : QString :=
  ("Create a study guide from this text. Follow these instructions exactly:\n\n" ++
    "1. KEY TERMS AND DEFINITIONS:\n" ++
    "   - Extract the most important technical terms and concepts\n" ++
    "   - Write clear, complete definitions for each term\n" ++
    "   - Format as: 'Term: Definition'\n\n" ++
    "2. MAIN IDEAS:\n" ++
    "   - List the key points from the text\n" ++
    "   - Each point should be a complete sentence\n" ++
    "   - Number each point (1., 2., etc.)\n\n" ++
    "3. BRIEF SUMMARY:\n" ++
    "   - Write 2-3 sentences summarizing the main points\n" ++
    "   - Focus on the most important information\n" ++
    "   - Keep it clear and concise\n\n" ++
    "Text to analyze:\n").toList

def formatStudyGuidePrompt (input : QString) : QString := studyGuideTemplate ++ input

def formatQuizPrompt (input : QString) : QString :=
  "Create a quiz with multiple choice questions based on this text:\n\n".toList ++ input ++
    "\n\nQuiz:".toList

def formatFlashcardsPrompt (input : QString) : QString :=
  "Create flashcards (question on front, answer on back) based on this text:\n\n".toList ++
    input ++ "\n\nFlashcards:".toList

def formatEnumerationsPrompt (input : QString) : QString :=
  "Create a list of key points and enumerations from this text:\n\n".toList ++ input ++
    "\n\nKey Points:".toList

def formatPrompt : AnalysisType → QString → QString
  | .studyGuide => formatStudyGuidePrompt
  | .quiz => formatQuizPrompt
  | .flashcards => formatFlashcardsPrompt
  | .enumerations => formatEnumerationsPrompt

structure Model where
  vocab : Option Vocab

/-- `LLMProcessor::Impl`, with `none` for a null pointer. -/
structure Impl (Context : Type) where
  context : Option Context
  model : Option Model

def maxResponseTokens : Nat := 2048

def maxEmptyTokens : Nat := 5

def pieceSize : Nat := 8

def failureText : QString := "Failed to generate response. Please try again.".toList

inductive Outcome where
  | returned (text : QString)
  | aborted
  deriving DecidableEq, Repr

structure Generation (Context : Type) where
  context : Context
  responseTokens : List Token
  consecutiveEmptyTokens : Nat
  calls : List BatchCall

inductive Exit where
  | decodeFailed
  | noLogits
  | noBestToken
  | endOfText
  | repeatedTokens
  | emptyTokens
  | limitReached
  | threw (what : QString)
  | aborted
  deriving DecidableEq, Repr

structure Processed (Context : Type) where
  impl : Impl Context
  outcome : Outcome
  errors : List QString
  responseTokens : List Token
  calls : List BatchCall

/-- The tokens left after both `tokens.resize` calls, or `none` for a negative count. -/
def promptTokens (vocab : Vocab) (prompt : QString) : Option (List Token) :=
  let promptStd := toStdString prompt
  let tokenized := llamaTokenize vocab promptStd (promptStd.length + 1)
  if tokenized.1 < 0 then none else some tokenized.2

def promptBatch (tokens : List Token) : List BatchToken :=
  tokens.mapIdx fun i token => ⟨token, i, 0, false⟩

/-- The one-token batch of iteration `i`; the default stands for `back()` on an empty vector. -/
def nextBatch (tokens responseTokens : List Token) (i : Nat) : List BatchToken :=
  [⟨(if i = 0 then tokens else responseTokens).getLastD 0, tokens.length + i, 0, true⟩]

def keepBest (logits : Nat → Binary32) (best : Token × Binary32) (tokenId : Nat) :
    Token × Binary32 :=
  if (logits tokenId).gt best.2 then (tokenId, logits tokenId) else best

def bestToken (vocab : Vocab) (logits : Nat → Binary32) : Token :=
  ((List.range vocab.nTokens).foldl (keepBest logits) (-1, Binary32.negativeInfinity)).1

def repeatedTokens (responseTokens : List Token) : Bool :=
  let size := responseTokens.length
  3 < size && responseTokens[size - 1]? == responseTokens[size - 2]? &&
    responseTokens[size - 2]? == responseTokens[size - 3]?

section Loop

variable {Context : Type} (llama : Llama Context) (vocab : Vocab)

def Generation.call (state : Generation Context) (call : BatchCall) : Generation Context :=
  { state with calls := state.calls ++ [call] }

def checkToken (best : Token) (state : Generation Context) :
    Generation Context × Option Exit :=
  if best = vocab.eos then (state, some .endOfText)
  else if repeatedTokens state.responseTokens then (state, some .repeatedTokens)
  else if (llamaTokenToPiece vocab best pieceSize).1 ≤ 0 then
    let counted := { state with consecutiveEmptyTokens := state.consecutiveEmptyTokens + 1 }
    if maxEmptyTokens ≤ counted.consecutiveEmptyTokens then (counted, some .emptyTokens)
    else (counted, none)
  else ({ state with consecutiveEmptyTokens := 0 }, none)

def chooseToken (state : Generation Context) : Generation Context × Option Exit :=
  match llama.getLogitsIth state.context 0 with
  | none => (state, some .noLogits)
  | some logits =>
    let best := bestToken vocab logits
    if best = -1 then (state, some .noBestToken)
    else checkToken vocab best { state with responseTokens := state.responseTokens ++ [best] }

/-- One pass through the loop body; every way out but an exception frees the batch. -/
def iteration (tokens : List Token) (i : Nat) (state : Generation Context) :
    Generation Context × Option Exit :=
  let opened := (state.call (.init (i + 1))).call (.decode (i + 1))
  match llama.decode state.context (nextBatch tokens state.responseTokens i) with
  | .aborted => (opened, some .aborted)
  | .threw what context => ({ opened with context := context }, some (.threw what))
  | .failure _ context =>
    (({ opened with context := context }).call (.free (i + 1)), some .decodeFailed)
  | .success context =>
    let chosen := chooseToken llama vocab { opened with context := context }
    (chosen.1.call (.free (i + 1)), chosen.2)

/-- The loop from iteration `i` on, with `remaining` iterations left before the limit. -/
def generateTokens (tokens : List Token) :
    Nat → Nat → Generation Context → Generation Context × Exit
  | 0, _, state => (state, .limitReached)
  | remaining + 1, i, state =>
    match iteration llama vocab tokens i state with
    | (next, some exit) => (next, exit)
    | (next, none) => generateTokens tokens remaining (i + 1) next

end Loop

def pieceBytes (vocab : Vocab) (token : Token) : List UInt8 :=
  let piece := llamaTokenToPiece vocab token pieceSize
  if 0 < piece.1 then piece.2 else []

def responseBytes (vocab : Vocab) (responseTokens : List Token) : List UInt8 :=
  responseTokens.flatMap (pieceBytes vocab)

def cleanedResponse (fromStdString : List UInt8 → QString) (vocab : Vocab)
    (responseTokens : List Token) : QString :=
  let cleaned := trimmed (fromStdString (responseBytes vocab responseTokens))
  if cleaned.isEmpty then failureText else cleaned

section Processor

variable {Context : Type} (llama : Llama Context) (fromStdString : List UInt8 → QString)

/-- The end of `processText`, once the loop has been left. An exception reaches the handler of
the whole function, which reports it and returns a null string. -/
def finishResponse (vocab : Vocab) (model : Model) (generated : Generation Context × Exit) :
    Processed Context :=
  let outcome : Outcome × List QString := match generated.2 with
    | .aborted => (.aborted, [])
    | .threw what => (.returned [], ["Error processing text: ".toList ++ what])
    | _ => (.returned (cleanedResponse fromStdString vocab generated.1.responseTokens), [])
  { impl := ⟨some generated.1.context, some model⟩
    outcome := outcome.1
    errors := outcome.2
    responseTokens := generated.1.responseTokens
    calls := generated.1.calls }

def processText (impl : Impl Context) (prompt : QString) : Processed Context :=
  match impl.context, impl.model with
  | some context, some model =>
    match model.vocab with
    | none => ⟨impl, .returned [], ["Failed to get vocab".toList], [], []⟩
    | some vocab =>
      match promptTokens vocab prompt with
      | none => ⟨impl, .returned [], ["Failed to tokenize input".toList], [], []⟩
      | some tokens =>
        match llama.decode context (promptBatch tokens) with
        | .aborted => ⟨impl, .aborted, [], [], [.init 0, .decode 0]⟩
        | .threw what after => ⟨⟨some after, some model⟩, .returned [],
            ["Error processing text: ".toList ++ what], [], [.init 0, .decode 0]⟩
        | .failure _ after =>
          ⟨⟨some after, some model⟩, .returned [], [], [], [.init 0, .decode 0, .free 0]⟩
        -- the prompt's batch is not freed on this path
        | .success after => finishResponse fromStdString vocab model
            (generateTokens llama vocab tokens maxResponseTokens 0
              ⟨after, [], 0, [.init 0, .decode 0]⟩)
  | _, _ => ⟨impl, .returned [], ["LLM not initialized".toList], [], []⟩

def generateStudyGuide (impl : Impl Context) (inputText : QString) : Processed Context :=
  processText llama fromStdString impl (formatStudyGuidePrompt inputText)

def generateQuiz (impl : Impl Context) (inputText : QString) : Processed Context :=
  processText llama fromStdString impl (formatQuizPrompt inputText)

def generateFlashcards (impl : Impl Context) (inputText : QString) : Processed Context :=
  processText llama fromStdString impl (formatFlashcardsPrompt inputText)

def generateEnumerations (impl : Impl Context) (inputText : QString) : Processed Context :=
  processText llama fromStdString impl (formatEnumerationsPrompt inputText)

def generateFor (analysisType : AnalysisType) (impl : Impl Context) (inputText : QString) :
    Processed Context :=
  match analysisType with
  | .studyGuide => generateStudyGuide llama fromStdString impl inputText
  | .quiz => generateQuiz llama fromStdString impl inputText
  | .flashcards => generateFlashcards llama fromStdString impl inputText
  | .enumerations => generateEnumerations llama fromStdString impl inputText

@[simp] theorem generateFor_eq (analysisType : AnalysisType) (impl : Impl Context)
    (inputText : QString) :
    generateFor llama fromStdString analysisType impl inputText =
      processText llama fromStdString impl (formatPrompt analysisType inputText) := by
  cases analysisType <;> rfl

end Processor

end TextMaster
