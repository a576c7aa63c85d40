import TextMaster.LifecycleCore
import TextMaster.Transition

/-!
The ways out of `initialize`, what each leaves of the stored handles, and when a run of calls on
one processor keeps initialisation all-or-nothing.
-/

namespace TextMaster

inductive InitializeExit where
  | fileMissing
  | outOfRange
  | threwEarly
  | loadFailed
  | lowMemory
  | contextFailed
  | contextThrew
  | recreateFailed
  | recreateThrew
  | succeeded
  | recreated
  deriving DecidableEq, Repr

def lowMemory (memoryInfo : QString) : Bool :=
  (freeMemoryBytes memoryInfo).any fun bytes => bytes < requiredMemory * 2

namespace InitializeOutcome

/-! The way out that the outcomes of the calls lead to, from each stage on. -/

def verifyExit (outcome : InitializeOutcome) : InitializeExit :=
  if outcome.nCtx ≠ 2048 then
    match outcome.recreateContext with
    | .error _ => .recreateThrew
    | .ok false => .recreateFailed
    | .ok true => .recreated
  else .succeeded

def contextExit (outcome : InitializeOutcome) : InitializeExit :=
  match outcome.newContext with
  | .error _ => .contextThrew
  | .ok false => .contextFailed
  | .ok true => outcome.verifyExit

def loadExit (outcome : InitializeOutcome) (memoryInfo : QString) : InitializeExit :=
  match outcome.loadModel with
  | .error _ => .threwEarly
  | .ok false => .loadFailed
  | .ok true => if lowMemory memoryInfo then .lowMemory else outcome.contextExit

def exit (outcome : InitializeOutcome) : InitializeExit :=
  match outcome.fileExists, outcome.memoryInfo with
  | .error _, _ => .threwEarly
  | .ok false, _ => .fileMissing
  | .ok true, .error _ => .threwEarly
  | .ok true, .ok memoryInfo =>
    if '\n' ∈ memoryInfo then outcome.loadExit memoryInfo else .outOfRange

end InitializeOutcome

namespace InitializeExit

@[simp] def modelSlot : InitializeExit → HandleSlot → HandleSlot
  | .fileMissing | .outOfRange => id
  | .threwEarly => HandleSlot.release
  | .loadFailed => HandleSlot.clear
  | .lowMemory | .contextFailed | .contextThrew | .recreateFailed | .recreateThrew =>
    fun slot => slot.create.release
  | .succeeded | .recreated => HandleSlot.create

@[simp] def contextSlot : InitializeExit → HandleSlot → HandleSlot
  | .fileMissing | .outOfRange | .loadFailed => id
  | .threwEarly | .lowMemory | .contextThrew => HandleSlot.release
  | .contextFailed => HandleSlot.clear
  | .recreateFailed => fun slot => slot.create.release
  | .recreateThrew => fun slot => slot.create.free.release
  | .succeeded => HandleSlot.create
  | .recreated => fun slot => slot.create.free.create

@[simp] def result : InitializeExit → Option Bool
  | .outOfRange => none
  | .succeeded | .recreated => some true
  | _ => some false

@[simp] def shutsDown : InitializeExit → Bool
  | .threwEarly | .lowMemory | .contextThrew | .recreateFailed | .recreateThrew => true
  | _ => false

end InitializeExit

namespace Lifecycle

def cleanupCalls (state : Lifecycle) : List LlamaCall :=
  (if state.context.stored.isSome then [.freeContext] else []) ++
    (if state.model.stored.isSome then [.freeModel] else []) ++ [.backendFree]

@[simp] theorem cleanup_eq (state : Lifecycle) :
    state.cleanup = { state with
      context := state.context.release
      model := state.model.release
      calls := state.calls ++ state.cleanupCalls } := by
  cases context : state.context.stored <;> cases model : state.model.stored <;>
    simp [cleanup, cleanupCalls, call, llamaFree, llamaFreeModel, nullContext, nullModel, context,
      model, HandleSlot.release_of_none, HandleSlot.release]

@[simp] theorem cleanupCalls_init (state : Lifecycle) :
    state.cleanupCalls.count .backendInit = 0 := by
  cases context : state.context.stored <;> cases model : state.model.stored <;>
    simp [cleanupCalls, context, model]

@[simp] theorem cleanupCalls_shutdown (state : Lifecycle) :
    state.cleanupCalls.count .backendFree = 1 := by
  cases context : state.context.stored <;> cases model : state.model.stored <;>
    simp [cleanupCalls, context, model]

structure Leaves (exit : InitializeExit) (before after : Lifecycle) : Prop where
  model : after.model = exit.modelSlot before.model
  context : after.context = exit.contextSlot before.context
  source : exit.result = some true → after.source = after.model.stored
  outOfRange : after.outOfRange = (before.outOfRange || decide (exit = .outOfRange))
  returned : after.returned = exit.result
  errors : exit.result = some false → after.errors ≠ []
  inits : after.calls.count .backendInit = before.calls.count .backendInit
  shutdowns : after.calls.count .backendFree =
    before.calls.count .backendFree + if exit.shutsDown then 1 else 0

theorem freeMemoryBytes_eq_none (memoryInfo : QString) :
    freeMemoryBytes memoryInfo = none ↔ '\n' ∉ memoryInfo := by
  rw [freeMemoryBytes, Option.map_eq_none_iff, splitOn_second]

variable (state : Lifecycle) (outcome : InitializeOutcome)

theorem verifyContext_leaves :
    Leaves outcome.verifyExit state
      (settle (verifyContext outcome ((state.storeModel true).storeContext true))) := by
  by_cases size : outcome.nCtx = 2048
  · constructor <;> simp [InitializeOutcome.verifyExit, verifyContext, size, settle, storeModel,
      storeContext]
  -- the second creation throws, returns a null pointer or replaces the freed context
  · rcases created : outcome.recreateContext with what | (_ | _)
    · constructor <;> simp [InitializeOutcome.verifyExit, verifyContext, size, created, settle,
        storeModel, storeContext, HandleSlot.release]
    · constructor <;> simp [InitializeOutcome.verifyExit, verifyContext, size, created, settle,
        storeModel, storeContext, HandleSlot.release]
    · constructor <;> simp [InitializeOutcome.verifyExit, verifyContext, size, created, settle,
        storeModel, storeContext]

theorem createContext_leaves {freeMemory : Int} (enough : ¬freeMemory < requiredMemory * 2) :
    Leaves outcome.contextExit state
      (settle (createContext outcome freeMemory (state.storeModel true))) := by
  rcases created : outcome.newContext with what | (_ | _)
  · constructor <;> simp [InitializeOutcome.contextExit, createContext, enough, created, settle,
      storeModel]
  · constructor <;> simp [InitializeOutcome.contextExit, createContext, enough, created, settle,
      storeModel, storeContext, HandleSlot.release]
  · simpa only [InitializeOutcome.contextExit, createContext, enough, created, if_false] using
      verifyContext_leaves state outcome

theorem loadModel_leaves {memoryInfo : QString} {freeMemory : Int}
    (read : freeMemoryBytes memoryInfo = some freeMemory) :
    Leaves (outcome.loadExit memoryInfo) state (settle (loadModel outcome freeMemory state)) := by
  rcases loaded : outcome.loadModel with what | (_ | _)
  · constructor <;> simp [InitializeOutcome.loadExit, loadModel, loaded, settle]
  · constructor <;> simp [InitializeOutcome.loadExit, loadModel, loaded, settle, storeModel]
  · by_cases low : freeMemory < requiredMemory * 2
    · constructor <;> simp [InitializeOutcome.loadExit, loadModel, loaded, lowMemory, read, low,
        createContext, settle, storeModel]
    · have created := createContext_leaves state outcome low
      simpa [InitializeOutcome.loadExit, loadModel, loaded, lowMemory, read, low] using created

theorem initialize_leaves : Leaves outcome.exit state (state.initializeProcessor outcome) := by
  rcases found : outcome.fileExists with what | (_ | _)
  · constructor <;> simp [InitializeOutcome.exit, initializeProcessor, attempt, found, settle]
  · constructor <;> simp [InitializeOutcome.exit, initializeProcessor, attempt, found, settle]
  · rcases printed : outcome.memoryInfo with what | memoryInfo
    · constructor <;> simp [InitializeOutcome.exit, initializeProcessor, attempt, found, printed,
        settle]
    · cases read : freeMemoryBytes memoryInfo with
      | none =>
          have absent := (freeMemoryBytes_eq_none memoryInfo).mp read
          constructor <;> simp [InitializeOutcome.exit, initializeProcessor, attempt, found,
            printed, read, absent, settle]
      | some freeMemory =>
          have line : '\n' ∈ memoryInfo := by
            by_contra absent
            rw [(freeMemoryBytes_eq_none memoryInfo).mpr absent] at read
            cases read
          obtain ⟨model, context, source, outOfRange, returned, errors, inits, shutdowns⟩ :=
            loadModel_leaves { state with errors := [], returned := none } outcome read
          simp only [InitializeOutcome.exit, initializeProcessor, attempt, found, printed, read,
            line, if_true]
          exact ⟨model, context, source, outOfRange, returned, errors, inits, shutdowns⟩

end Lifecycle

namespace InitializeExit

theorem modelSlot_sound_iff {slot : HandleSlot} (sound : slot.Sound) (exit : InitializeExit) :
    (exit.modelSlot slot).Sound ↔
      exit = .fileMissing ∨ exit = .outOfRange ∨ exit = .threwEarly ∨ slot.stored = none := by
  cases exit <;> simp [sound, sound.allFreed_iff, sound.free_allFreed, HandleSlot.release,
    HandleSlot.clear_sound_iff, HandleSlot.create_sound_iff, HandleSlot.create_free_allFreed_iff]

theorem contextSlot_sound_iff {slot : HandleSlot} (sound : slot.Sound)
    (nothing : slot.stored = none) (exit : InitializeExit) :
    (exit.contextSlot slot).Sound ↔ exit ≠ .recreateThrew := by
  cases exit <;> simp [sound, nothing, sound.allFreed_iff, sound.free_allFreed,
    HandleSlot.release, HandleSlot.clear_sound_iff, HandleSlot.create_sound_iff,
    HandleSlot.create_free_allFreed_iff, HandleSlot.create_free_free_not_allFreed]

theorem modelSlot_stored {slot : HandleSlot} (nothing : slot.stored = none)
    (exit : InitializeExit) : (exit.modelSlot slot).stored = none ↔ exit.result ≠ some true := by
  cases exit <;> simp [nothing, HandleSlot.release, HandleSlot.clear, HandleSlot.create]

theorem contextSlot_stored {slot : HandleSlot} (nothing : slot.stored = none)
    (exit : InitializeExit) : (exit.contextSlot slot).stored = none ↔ exit.result ≠ some true := by
  cases exit <;> simp [nothing, HandleSlot.release, HandleSlot.clear, HandleSlot.create]

end InitializeExit

section AllOrNothing

/-- Both handles are stored or neither is, the last result of `initialize` tells which, and no
handle is leaked or freed twice. -/
structure AllOrNothing (state : Lifecycle) : Prop where
  inRange : state.outOfRange = false
  models : state.model.Sound
  contexts : state.context.Sound
  together : state.context.stored = none ↔ state.model.stored = none
  created : state.context.stored ≠ none → state.source = state.model.stored
  reported : ∀ result, state.returned = some result → (result = true ↔ state.model.stored ≠ none)
  explained : state.returned = some false → state.errors ≠ []

/-- An exception before the new model is stored is always cleaned up after; any other call has to
start with nothing stored, get a second line from `wmic` and not throw while it creates the
context again. -/
def InitializeOutcome.KeepsWhole (outcome : InitializeOutcome) (state : Lifecycle) : Prop :=
  outcome.exit = .threwEarly ∨
    state.model.stored = none ∧ outcome.exit ≠ .outOfRange ∧ outcome.exit ≠ .recreateThrew

def KeepsWhole (state : Lifecycle) : LifecycleEvent → Prop
  | .initializeProcessor outcome => outcome.KeepsWhole state
  | _ => True

variable {before after : Lifecycle} {exit : InitializeExit}

theorem construct_allOrNothing : AllOrNothing .construct := by
  constructor
  · rfl
  · exact HandleSlot.empty_sound
  · exact HandleSlot.empty_sound
  · exact Iff.rfl
  · intro stored
    exact absurd rfl stored
  · intro result returned
    cases returned
  · intro returned
    cases returned

theorem released_allOrNothing (whole : AllOrNothing before)
    (model : after.model = before.model.release) (context : after.context = before.context.release)
    (inRange : after.outOfRange = false) (failed : after.returned ≠ some true)
    (explained : after.returned = some false → after.errors ≠ []) : AllOrNothing after := by
  have noModel : after.model.stored = none := by rw [model]; rfl
  have noContext : after.context.stored = none := by rw [context]; rfl
  refine ⟨inRange, model ▸ HandleSlot.release_sound whole.models,
    context ▸ HandleSlot.release_sound whole.contexts, by rw [noModel, noContext],
    fun stored => absurd noContext stored, ?_, explained⟩
  intro result returned
  cases result with
  | false => simp [noModel]
  | true => exact absurd returned failed

theorem leaves_whole_of_nothing (leaves : Lifecycle.Leaves exit before after)
    (whole : AllOrNothing before) (nothing : before.model.stored = none)
    (inRange : exit ≠ .outOfRange) (settled : exit ≠ .recreateThrew) : AllOrNothing after := by
  have noContext := whole.together.mpr nothing
  have model := InitializeExit.modelSlot_stored nothing exit
  have context := InitializeExit.contextSlot_stored noContext exit
  rw [← leaves.model] at model
  rw [← leaves.context] at context
  constructor
  · simp [leaves.outOfRange, whole.inRange, inRange]
  · rw [leaves.model, InitializeExit.modelSlot_sound_iff whole.models]
    exact Or.inr (Or.inr (Or.inr nothing))
  · rw [leaves.context, InitializeExit.contextSlot_sound_iff whole.contexts noContext]
    exact settled
  · rw [model, context]
  · intro stored
    exact leaves.source (by_contra fun failed => stored (context.mpr failed))
  · intro result returned
    rw [leaves.returned] at returned
    rw [ne_eq, model, returned]
    simp
  · intro failed
    exact leaves.errors (leaves.returned ▸ failed)

theorem leaves_allOrNothing_iff (leaves : Lifecycle.Leaves exit before after)
    (whole : AllOrNothing before) :
    AllOrNothing after ↔ exit = .threwEarly ∨
      before.model.stored = none ∧ exit ≠ .outOfRange ∧ exit ≠ .recreateThrew := by
  constructor
  · intro kept
    by_cases early : exit = .threwEarly
    · exact Or.inl early
    have inRange : exit ≠ .outOfRange := by
      intro outside
      have last := kept.inRange
      simp [leaves.outOfRange, outside] at last
    have nothing : before.model.stored = none := by
      have models := kept.models
      rw [leaves.model, InitializeExit.modelSlot_sound_iff whole.models] at models
      rcases models with missing | outside | threw | nothing
      · have failed : after.returned = some false := by rw [leaves.returned, missing]; rfl
        have stored := kept.reported false failed
        rw [leaves.model, missing] at stored
        simpa using stored
      · exact absurd outside inRange
      · exact absurd threw early
      · exact nothing
    have contexts := kept.contexts
    rw [leaves.context, InitializeExit.contextSlot_sound_iff whole.contexts
      (whole.together.mpr nothing)] at contexts
    exact Or.inr ⟨nothing, inRange, contexts⟩
  · rintro (rfl | ⟨nothing, inRange, settled⟩)
    · refine released_allOrNothing whole leaves.model leaves.context ?_ ?_ ?_
      · simp [leaves.outOfRange, whole.inRange]
      · simp [leaves.returned]
      · exact fun _ => leaves.errors rfl
    · exact leaves_whole_of_nothing leaves whole nothing inRange settled

theorem step_allOrNothing_iff (fromStdString : List UInt8 → QString) (state : Lifecycle)
    (event : LifecycleEvent) (next : Lifecycle) (whole : AllOrNothing state)
    (taken : state.step fromStdString event = some next) :
    AllOrNothing next ↔ KeepsWhole state event := by
  simp only [Lifecycle.step] at taken
  split at taken
  · contradiction
  cases event with
  | initializeProcessor outcome =>
      cases taken
      exact leaves_allOrNothing_iff (state.initialize_leaves outcome) whole
  | cleanup =>
      cases taken
      refine iff_of_true (released_allOrNothing whole ?_ ?_ ?_ ?_ ?_) trivial
      all_goals simp [whole.inRange]
  | generate analysisType input vocab llama =>
      simp only [Lifecycle.generate] at taken
      split at taken
      · contradiction
      · cases taken
        exact iff_of_true ⟨whole.inRange, whole.models, whole.contexts, whole.together,
          whole.created, nofun, nofun⟩ trivial
  | destroy =>
      cases taken
      refine iff_of_true (released_allOrNothing whole ?_ ?_ ?_ ?_ ?_) trivial
      all_goals simp [whole.inRange]

theorem all_or_nothing_iff (fromStdString : List UInt8 → QString) (events : List LifecycleEvent) :
    Transition.Always (Lifecycle.step fromStdString) AllOrNothing .construct events ↔
      Transition.Along (Lifecycle.step fromStdString) KeepsWhole .construct events :=
  Transition.always_iff_along (step_allOrNothing_iff fromStdString) construct_allOrNothing events

def readyOutcome : InitializeOutcome :=
  ⟨.ok true, .ok "FreePhysicalMemory\n8000000\n".toList, .ok true, .ok true, 2048, .ok true⟩

def silentOutcome : InitializeOutcome := { readyOutcome with memoryInfo := .ok [] }

theorem initialize_not_all_or_nothing :
    ¬ Transition.Always (Lifecycle.step fun _ => []) AllOrNothing .construct
        [.initializeProcessor silentOutcome] ∧
      ¬ Transition.Always (Lifecycle.step fun _ => []) AllOrNothing .construct
        [.initializeProcessor readyOutcome, .initializeProcessor readyOutcome] := by
  constructor
  · intro always
    have last := always [.initializeProcessor silentOutcome] [] _ rfl rfl
    exact absurd last.inRange (by decide)
  · intro always
    have last := always
      [.initializeProcessor readyOutcome, .initializeProcessor readyOutcome] [] _ rfl rfl
    exact absurd (last.models.freed 0 0 rfl (by decide)) (by decide)

end AllOrNothing

end TextMaster
