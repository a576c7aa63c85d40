import TextMaster.HomePageCore

/-!
`MainWindow` with `ResultsPage`: its slots and the lambda behind the watcher's finished signal,
as functions on the window's fields. The history file, the clipboard and the saved files are
part of the state.
-/

namespace TextMaster

/-- A `QJsonValue`; `other` is null, a boolean or a number, which read as no text. -/
inductive JsonValue where
  | string (text : QString)
  | object (members : List (QString × JsonValue))
  | array (values : List JsonValue)
  | other

namespace JsonValue

def toString : JsonValue → QString
  | .string text => text
  | _ => []

def toObject : JsonValue → List (QString × JsonValue)
  | .object members => members
  | _ => []

def member (members : List (QString × JsonValue)) (key : String) : JsonValue :=
  (members.lookup key.toList).getD .other

end JsonValue

/-- The functions of Qt behind the history. `fromJson` is the array of the parsed document,
which is empty when there is none. -/
structure Qt (DateTime : Type) where
  toJson : List JsonValue → List UInt8
  fromJson : List UInt8 → List JsonValue
  display : DateTime → QString
  toIso : DateTime → QString
  fromIso : QString → DateTime

structure ProcessingHistoryItem (DateTime : Type) where
  inputText : QString
  result : QString
  timestamp : DateTime
  deriving DecidableEq, Repr

inductive Page where
  | home
  | flashcards
  | quiz
  | enumerations
  | history
  | results
  deriving DecidableEq, Repr

/-- How a write of the history file ends: it is not opened, is written in full, or is truncated
by the open and then only partly written. -/
inductive SaveOutcome where
  | openFailed
  | completed
  | cut (written : Nat)
  deriving DecidableEq, Repr

/-- `resultsPage` is the text of the results page, `resultsText` that of the window's own widget.
`criticalBoxes` holds the errors whose message box is still open, the topmost first. -/
structure MainWindow (DateTime : Type) where
  currentPage : Page
  homePage : HomePage
  resultsPage : QString
  resultsText : QString
  status : QString
  isProcessing : Bool
  currentInputText : QString
  overrideCursors : Nat
  processingHistory : List (ProcessingHistoryItem DateTime)
  historyList : List (List UInt16)
  historyFile : Option (List UInt8)
  clipboard : QString
  savedFiles : List (QString × QString)
  criticalBoxes : List QString

def SaveOutcome.write (file : Option (List UInt8)) (data : List UInt8) :
    SaveOutcome → Option (List UInt8)
  | .openFailed => file
  | .completed => some data
  | .cut written => some (data.take written)

namespace Qt

variable {DateTime : Type} (qt : Qt DateTime)

def jsonRecord (input result timestamp : QString) : JsonValue :=
  .object [("input".toList, .string input), ("result".toList, .string result),
    ("timestamp".toList, .string timestamp)]

def toRecord (item : ProcessingHistoryItem DateTime) : JsonValue :=
  jsonRecord item.inputText item.result (qt.toIso item.timestamp)

def fromRecord (value : JsonValue) : ProcessingHistoryItem DateTime :=
  let object := value.toObject
  { inputText := (JsonValue.member object "input").toString
    result := (JsonValue.member object "result").toString
    timestamp := qt.fromIso (JsonValue.member object "timestamp").toString }

def historyData (history : List (ProcessingHistoryItem DateTime)) : List UInt8 :=
  qt.toJson (history.map qt.toRecord)

def readHistory (data : List UInt8) : List (ProcessingHistoryItem DateTime) :=
  (qt.fromJson data).map qt.fromRecord

def displayText (item : ProcessingHistoryItem DateTime) : List UInt16 :=
  utf16 (qt.display item.timestamp ++ ['\n']) ++ (utf16 item.inputText).take 100 ++
    utf16 "...".toList

end Qt

namespace MainWindow

variable {DateTime : Type} (qt : Qt DateTime)

def showHomePage (window : MainWindow DateTime) : MainWindow DateTime :=
  { window with currentPage := .home }

def showResultsPage (window : MainWindow DateTime) : MainWindow DateTime :=
  { window with currentPage := .results }

def showMessage (message : QString) (window : MainWindow DateTime) : MainWindow DateTime :=
  { window with status := message }

def setOverrideCursor (window : MainWindow DateTime) : MainWindow DateTime :=
  { window with overrideCursors := window.overrideCursors + 1 }

def restoreOverrideCursor (window : MainWindow DateTime) : MainWindow DateTime :=
  { window with overrideCursors := window.overrideCursors - 1 }

def onImportFileClicked (content : QString) (window : MainWindow DateTime) :
    MainWindow DateTime :=
  { window with homePage := window.homePage.setInputText content }

def onDownloadClicked (fileName : QString) (opened : Bool) (window : MainWindow DateTime) :
    MainWindow DateTime :=
  if fileName = [] then window
  else if opened then
    { window with savedFiles := (fileName, window.resultsText) :: window.savedFiles }.showMessage
      "File saved successfully".toList
  else window

def onCopyClicked (window : MainWindow DateTime) : MainWindow DateTime :=
  { window with clipboard := window.resultsText }.showMessage "Copied to clipboard".toList

def onHistoryItemClicked (index : Nat) (window : MainWindow DateTime) : MainWindow DateTime :=
  match window.processingHistory[index]? with
  | some item => { window with resultsText := item.result }.showResultsPage
  | none => window

def validateInputText (window : MainWindow DateTime) : Bool :=
  if window.homePage.textInput.isEmpty then false
  else if 1000 < regexWords window.homePage.textInput then false
  else true

/-- The part of `onAnalyzeTextClicked` behind the validation, up to the start of the request. -/
def acceptInput (window : MainWindow DateTime) : MainWindow DateTime :=
  setOverrideCursor
    { window.showMessage "Generating study guide...".toList with
      currentInputText := window.homePage.textInput
      isProcessing := true }

def handleLLMError (error : QString) (window : MainWindow DateTime) : MainWindow DateTime :=
  { window.restoreOverrideCursor with
    isProcessing := false
    criticalBoxes := error :: window.criticalBoxes }

def dismissError (window : MainWindow DateTime) : MainWindow DateTime :=
  match window.criticalBoxes with
  | [] => window
  | error :: rest =>
    { window with criticalBoxes := rest }.showMessage ("Error: ".toList ++ error)

def refreshHistoryList (window : MainWindow DateTime) : MainWindow DateTime :=
  { window with historyList := window.processingHistory.map qt.displayText }

def saveHistory (saved : SaveOutcome) (window : MainWindow DateTime) : MainWindow DateTime :=
  { window with
    historyFile := saved.write window.historyFile (qt.historyData window.processingHistory) }

def addToHistory (input result : QString) (now : DateTime) (saved : SaveOutcome)
    (window : MainWindow DateTime) : MainWindow DateTime :=
  saveHistory qt saved (refreshHistoryList qt
    { window with processingHistory := ⟨input, result, now⟩ :: window.processingHistory })

def loadHistory (opened : Bool) (window : MainWindow DateTime) : MainWindow DateTime :=
  match window.historyFile, opened with
  | some data, true =>
    refreshHistoryList qt { window with processingHistory := qt.readHistory data }
  | _, _ => window

def successText : QString := "Study guide generated successfully".toList

def recordResult (result : QString) (now : DateTime) (saved : SaveOutcome)
    (window : MainWindow DateTime) : MainWindow DateTime :=
  if result.isEmpty then window.showMessage "Failed to generate study guide".toList
  else
    (addToHistory qt window.currentInputText result now saved
      { window with resultsPage := result }).showResultsPage.showMessage successText

/-- The lambda that `connectSignals` connects to the finished signal. -/
def studyGuideFinished (result : QString) (now : DateTime) (saved : SaveOutcome)
    (window : MainWindow DateTime) : MainWindow DateTime :=
  { (window.recordResult qt result now saved).restoreOverrideCursor with isProcessing := false }

def construct (historyFile : Option (List UInt8)) (opened : Bool) (status : QString) :
    MainWindow DateTime :=
  loadHistory qt opened
    { currentPage := .home
      homePage := .construct
      resultsPage := []
      resultsText := []
      status := status
      isProcessing := false
      currentInputText := []
      overrideCursors := 0
      processingHistory := []
      historyList := []
      historyFile := historyFile
      clipboard := []
      savedFiles := []
      criticalBoxes := [] }

theorem studyGuideFinished_frame (result : QString) (now : DateTime) (saved : SaveOutcome)
    (window : MainWindow DateTime) :
    let next := window.studyGuideFinished qt result now saved
    next.homePage = window.homePage ∧ next.isProcessing = false ∧
      next.overrideCursors = window.overrideCursors - 1 := by
  refine ⟨?_, rfl, ?_⟩
  all_goals
    simp only [studyGuideFinished, recordResult]
    split <;> rfl

theorem construct_frame (historyFile : Option (List UInt8)) (opened : Bool) (status : QString) :
    let window := construct qt historyFile opened status
    window.currentPage = .home ∧ window.homePage = .construct ∧ window.isProcessing = false ∧
      window.overrideCursors = 0 ∧ window.historyFile = historyFile := by
  cases historyFile <;> cases opened <;> exact ⟨rfl, rfl, rfl, rfl, rfl⟩

end MainWindow

end TextMaster
