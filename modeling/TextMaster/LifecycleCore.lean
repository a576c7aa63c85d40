import TextMaster.HandleSlot
import TextMaster.ProcessTextCore

/-!
`LLMProcessor` from construction to destruction: `initialize`, `cleanup` and the calls of
llama.cpp they make. `Except` tells a call that throws from one that returns.
-/

namespace TextMaster

inductive LlamaCall where
  | backendInit
  | backendFree
  | loadModel
  | newContext
  | freeContext
  | freeModel
  | batch (call : BatchCall)
  deriving DecidableEq, Repr

/-- What the calls made by `initialize` return, where a pointer is told by whether it is
non-null. -/
structure InitializeOutcome where
  fileExists : Except QString Bool
  memoryInfo : Except QString QString
  loadModel : Except QString Bool
  newContext : Except QString Bool
  nCtx : Nat
  recreateContext : Except QString Bool

/-- `source` is the model that the last context was created from. `errors` and `returned` are
those of the last call, and `calls` is a ghost log. -/
structure Lifecycle where
  context : HandleSlot
  model : HandleSlot
  source : Option Nat
  calls : List LlamaCall
  errors : List QString
  returned : Option Bool
  outOfRange : Bool
  destroyed : Bool
  deriving DecidableEq

def requiredMemory : Int := 2048 * 2048 * 4 * 2

/-- `none` when the output has no second line to index; the product wraps at 64 bits. -/
def freeMemoryBytes (memoryInfo : QString) : Option Int :=
  (memoryInfo.splitOn '\n')[1]?.map fun line =>
    (toLongLong (trimmed line) * 1024).bmod 18446744073709551616

inductive Ending where
  | returned (result : Bool)
  | threw (what : QString)
  | outOfRange

namespace Lifecycle

def construct : Lifecycle := ⟨.empty, .empty, none, [.backendInit], [], none, false, false⟩

@[simp] def call (state : Lifecycle) (made : LlamaCall) : Lifecycle :=
  { state with calls := state.calls ++ [made] }

@[simp] def emitError (state : Lifecycle) (message : QString) : Lifecycle :=
  { state with errors := state.errors ++ [message] }

@[simp] def llamaFree (state : Lifecycle) : Lifecycle :=
  { state.call .freeContext with context := state.context.free }

@[simp] def llamaFreeModel (state : Lifecycle) : Lifecycle :=
  { state.call .freeModel with model := state.model.free }

@[simp] def nullContext (state : Lifecycle) : Lifecycle := { state with context := state.context.clear }

@[simp] def nullModel (state : Lifecycle) : Lifecycle := { state with model := state.model.clear }

def storeContext (state : Lifecycle) (created : Bool) : Lifecycle :=
  let called := state.call .newContext
  if created then { called with context := state.context.create, source := state.model.stored }
  else called.nullContext

def storeModel (state : Lifecycle) (loaded : Bool) : Lifecycle :=
  let called := state.call .loadModel
  if loaded then { called with model := state.model.create } else called.nullModel

def cleanup (state : Lifecycle) : Lifecycle :=
  let contextFreed := if state.context.stored.isSome then state.llamaFree.nullContext else state
  let modelFreed := if contextFreed.model.stored.isSome then
      contextFreed.llamaFreeModel.nullModel
    else contextFreed
  modelFreed.call .backendFree

def verifyContext (outcome : InitializeOutcome) (state : Lifecycle) : Lifecycle × Ending :=
  if outcome.nCtx ≠ 2048 then
    -- the freed context stays stored until the new one replaces it
    let freed := state.llamaFree
    match outcome.recreateContext with
    | .error what => (freed.call .newContext, .threw what)
    | .ok false =>
      (((freed.storeContext false).emitError
        "Failed to create context with correct size".toList).cleanup, .returned false)
    | .ok true => (freed.storeContext true, .returned true)
  else (state, .returned true)

def createContext (outcome : InitializeOutcome) (freeMemory : Int) (state : Lifecycle) :
    Lifecycle × Ending :=
  if freeMemory < requiredMemory * 2 then
    ((state.emitError "Not enough memory available".toList).cleanup, .returned false)
  else
    match outcome.newContext with
    | .error what => (state.call .newContext, .threw what)
    | .ok false =>
      (((state.storeContext false).emitError
        "Failed to create context".toList).llamaFreeModel.nullModel, .returned false)
    | .ok true => verifyContext outcome (state.storeContext true)

def loadModel (outcome : InitializeOutcome) (freeMemory : Int) (state : Lifecycle) :
    Lifecycle × Ending :=
  match outcome.loadModel with
  | .error what => (state.call .loadModel, .threw what)
  | .ok false =>
    ((state.storeModel false).emitError "Failed to load model".toList, .returned false)
  | .ok true => createContext outcome freeMemory (state.storeModel true)

def attempt (outcome : InitializeOutcome) (state : Lifecycle) : Lifecycle × Ending :=
  match outcome.fileExists with
  | .error what => (state, .threw what)
  | .ok false => (state.emitError "Model file not found".toList, .returned false)
  | .ok true =>
    match outcome.memoryInfo with
    | .error what => (state, .threw what)
    | .ok memoryInfo =>
      match freeMemoryBytes memoryInfo with
      | none => (state, .outOfRange)
      | some freeMemory => loadModel outcome freeMemory state

def settle (ended : Lifecycle × Ending) : Lifecycle :=
  match ended.2 with
  | .returned result => { ended.1 with returned := some result }
  | .threw what =>
    { (ended.1.emitError ("Error initializing LLM: ".toList ++ what)).cleanup with
      returned := some false }
  | .outOfRange => { ended.1 with outOfRange := true }

def initializeProcessor (state : Lifecycle) (outcome : InitializeOutcome) : Lifecycle :=
  settle (attempt outcome { state with errors := [], returned := none })

end Lifecycle

inductive LifecycleEvent where
  | initializeProcessor (outcome : InitializeOutcome)
  | cleanup
  | generate (analysisType : AnalysisType) (input : QString) (vocab : Option Vocab)
      (llama : Llama Nat)
  | destroy

namespace Lifecycle

def generate (fromStdString : List UInt8 → QString) (state : Lifecycle)
    (analysisType : AnalysisType) (input : QString) (vocab : Option Vocab) (llama : Llama Nat) :
    Option Lifecycle :=
  let processed := generateFor llama fromStdString analysisType
    ⟨state.context.stored, state.model.stored.map fun _ => ⟨vocab⟩⟩ input
  match processed.outcome with
  | .aborted => none
  | .returned _ => some { state with
      calls := state.calls ++ processed.calls.map LlamaCall.batch
      errors := processed.errors
      returned := none }

/-- Nothing is defined after the destructor or after an index out of range. -/
def step (fromStdString : List UInt8 → QString) (state : Lifecycle) (event : LifecycleEvent) :
    Option Lifecycle :=
  if state.destroyed || state.outOfRange then none
  else
    match event with
    | .initializeProcessor outcome => some (state.initializeProcessor outcome)
    | .cleanup => some { state.cleanup with errors := [], returned := none }
    | .generate analysisType input vocab llama =>
      state.generate fromStdString analysisType input vocab llama
    | .destroy => some { state.cleanup with errors := [], returned := none, destroyed := true }

end Lifecycle

end TextMaster
