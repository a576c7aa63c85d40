import TextMaster.MainWindowCore

/-!
The running application: the window, the requests it has handed to the thread pool, the watcher
of their futures and the signals that wait in the event queue of the window's thread. The rules
do not ask which page is shown or whether a message box is open, so their runs include every
order of clicks that the widgets allow.
-/

namespace TextMaster

/-- A request in the pool; `erring` has reported an error and is about to return a null string. -/
inductive Phase where
  | queued
  | running
  | erring
  | done (result : QString)
  deriving DecidableEq, Repr

structure Run where
  analysisType : AnalysisType
  input : QString
  phase : Phase
  deriving DecidableEq, Repr

namespace Run

def prompt (run : Run) : QString := formatPrompt run.analysisType run.input

def executing (run : Run) : Bool := run.phase = .running || run.phase = .erring

def unfinished (run : Run) : Bool := run.phase = .queued || run.executing

def pending (run : Run) : Bool := run.phase = .queued || run.phase = .running

end Run

inductive Posted where
  | error (message : QString)
  | finished (id : Nat)
  deriving DecidableEq, Repr

def Posted.isError : Posted → Bool
  | .error _ => true
  | .finished _ => false

/-- The requests are named by the order of their clicks. `watched` is the request whose finished
signal the watcher still has to deliver; `delivered` and `replaced` log the requests whose
signal has been delivered and those the watcher was taken from. -/
structure Session (DateTime : Type) where
  window : MainWindow DateTime
  runs : List Run
  watched : Option Nat
  posted : List Posted
  delivered : List Nat
  replaced : List Nat

inductive UserAction where
  | edit (text : QString)
  | importFile (content : QString)
  | choose (button : AnalysisType)
  | historyRow (index : Nat)
  | leaveHistory
  | download (fileName : QString) (writable : Bool)
  | copy
  | closeBox

inductive SessionEvent (DateTime : Type) where
  | user (action : UserAction)
  | analyze
  | start
  | emitError (id : Nat) (message : QString)
  | finish (id : Nat) (result : QString)
  | deliver (now : DateTime) (saved : SaveOutcome)

def MainWindow.user {DateTime : Type} (window : MainWindow DateTime) :
    UserAction → MainWindow DateTime
  | .edit text => { window with homePage := window.homePage.setInputText text }
  | .importFile content => window.onImportFileClicked content
  | .choose button => { window with homePage := window.homePage.click button }
  | .historyRow index => window.onHistoryItemClicked index
  | .leaveHistory => window.showHomePage
  | .download fileName writable => window.onDownloadClicked fileName writable
  | .copy => window.onCopyClicked
  | .closeBox => window.dismissError

namespace Session

variable {DateTime : Type}

def executing (session : Session DateTime) : Nat := session.runs.countP Run.executing

def unfinished (session : Session DateTime) : Nat := session.runs.countP Run.unfinished

def clicked (session : Session DateTime) : MainWindow DateTime :=
  { session.window with homePage := session.window.homePage.onAnalyzeClicked }

def Accepts (session : Session DateTime) : Prop := session.clicked.validateInputText = true

instance (session : Session DateTime) : Decidable session.Accepts :=
  inferInstanceAs (Decidable (_ = true))

/-- `generateStudyGuideAsync` and `setFuture`, which drops the pending signal of the old future. -/
def generateStudyGuideAsync (input : QString) (session : Session DateTime) : Session DateTime :=
  { session with
    runs := session.runs ++ [⟨.studyGuide, input, .queued⟩]
    watched := some session.runs.length
    posted := session.posted.filter Posted.isError
    replaced := session.replaced ++ session.watched.toList }

def onAnalyzeTextClicked (session : Session DateTime) : Session DateTime :=
  if session.Accepts then
    let window := session.clicked.acceptInput
    { session with window := window }.generateStudyGuideAsync window.currentInputText
  else { session with window := session.clicked }

def advance (id : Nat) (allowed : Phase → Bool) (phase : Phase) (session : Session DateTime) :
    Option (Session DateTime) :=
  match session.runs[id]? with
  | none => none
  | some run =>
    if allowed run.phase then
      some { session with runs := session.runs.set id { run with phase := phase } }
    else none

def postFinished (id : Nat) (session : Session DateTime) : Session DateTime :=
  if session.watched = some id then { session with posted := session.posted ++ [.finished id] }
  else session

def startRun (threads : Nat) (session : Session DateTime) : Option (Session DateTime) :=
  if session.executing < threads then
    (session.runs.findIdx? fun run => run.phase = .queued).bind fun id =>
      session.advance id (· = .queued) .running
  else none

def deliver (qt : Qt DateTime) (now : DateTime) (saved : SaveOutcome)
    (session : Session DateTime) : Option (Session DateTime) :=
  match session.posted with
  | [] => none
  | .error message :: rest =>
    some { session with window := session.window.handleLLMError message, posted := rest }
  | .finished id :: rest =>
    match session.runs[id]? with
    | some ⟨_, _, .done result⟩ => some { session with
        window := session.window.studyGuideFinished qt result now saved
        watched := none
        posted := rest
        delivered := id :: session.delivered }
    | _ => none

def step (qt : Qt DateTime) (threads : Nat) (session : Session DateTime) :
    SessionEvent DateTime → Option (Session DateTime)
  | .user action => some { session with window := session.window.user action }
  | .analyze => some session.onAnalyzeTextClicked
  | .start => session.startRun threads
  | .emitError id message =>
    (session.advance id (· = .running) .erring).map fun next =>
      { next with posted := next.posted ++ [.error message] }
  | .finish id result =>
    (session.advance id (fun phase => phase = .running || (phase = .erring && result = []))
      (.done result)).map (postFinished id)
  | .deliver now saved => session.deliver qt now saved

def construct (qt : Qt DateTime) (historyFile : Option (List UInt8)) (opened : Bool)
    (status : QString) : Session DateTime :=
  ⟨.construct qt historyFile opened status, [], none, [], [], []⟩

end Session

end TextMaster
