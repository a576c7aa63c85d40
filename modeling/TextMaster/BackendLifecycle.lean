import TextMaster.Initialization
import TextMaster.ProcessText

/-!
How often a processor shuts the backend of llama.cpp down between its constructor and its
destructor.
-/

namespace TextMaster

structure ShutDownOnce (calls : List LlamaCall) : Prop where
  opened : calls.count .backendInit = 1
  closed : calls.count .backendFree = 1
  last : ∀ before after, calls = before ++ .backendFree :: after → after = []

def LifecycleEvent.cleansUp : LifecycleEvent → Bool
  | .initializeProcessor outcome => outcome.exit.shutsDown
  | .cleanup => true
  | .generate _ _ _ _ => false
  | .destroy => true

section Calls

variable {fromStdString : List UInt8 → QString}

theorem step_calls (state : Lifecycle) (event : LifecycleEvent) (next : Lifecycle)
    (taken : state.step fromStdString event = some next) :
    next.calls.count .backendInit = state.calls.count .backendInit ∧
      next.calls.count .backendFree =
        state.calls.count .backendFree + if event.cleansUp then 1 else 0 := by
  simp only [Lifecycle.step] at taken
  split at taken
  · contradiction
  cases event with
  | initializeProcessor outcome =>
      cases taken
      have leaves := state.initialize_leaves outcome
      exact ⟨leaves.inits, leaves.shutdowns⟩
  | cleanup =>
      cases taken
      simp [LifecycleEvent.cleansUp]
  | generate analysisType input vocab llama =>
      simp only [Lifecycle.generate] at taken
      split at taken
      · contradiction
      · cases taken
        have batches : ∀ calls : List BatchCall,
            (calls.map LlamaCall.batch).count .backendInit = 0 ∧
              (calls.map LlamaCall.batch).count .backendFree = 0 := by
          intro calls
          constructor <;> simp [List.count_eq_zero]
        simp [LifecycleEvent.cleansUp, batches]
  | destroy =>
      cases taken
      simp [LifecycleEvent.cleansUp]

theorem destroy_last {state final : Lifecycle}
    (taken : state.step fromStdString .destroy = some final) :
    ∃ made, final.calls = made ++ [.backendFree] := by
  simp only [Lifecycle.step] at taken
  split at taken
  · contradiction
  · cases taken
    simp only [Lifecycle.cleanup_eq, Lifecycle.cleanupCalls, ← List.append_assoc]
    exact ⟨_, rfl⟩

theorem nothing_after {calls made before after : List LlamaCall}
    (ends : calls = made ++ [.backendFree]) (once : calls.count .backendFree = 1)
    (splits : calls = before ++ .backendFree :: after) : after = [] := by
  have fresh : made.count .backendFree = 0 := by
    rw [ends, List.count_append, List.count_singleton_self] at once
    omega
  rcases List.eq_nil_or_concat after with empty | ⟨front, ending, rfl⟩
  · exact empty
  · rw [ends, List.concat_eq_append, ← List.cons_append, ← List.append_assoc] at splits
    have early := (List.append_inj' splits rfl).1
    rw [early, List.count_append, List.count_cons_self] at fresh
    omega

theorem run_opened {events : List LifecycleEvent} {final : Lifecycle}
    (ran : Transition.run (Lifecycle.step fromStdString) .construct events = some final) :
    final.calls.count .backendInit = 1 := by
  have preserved : ∀ (state : Lifecycle) (event : LifecycleEvent) (next : Lifecycle),
      state.calls.count .backendInit = 1 → state.step fromStdString event = some next →
        next.calls.count .backendInit = 1 :=
    fun state event next once taken => (step_calls state event next taken).1.trans once
  exact Transition.run_preserves preserved rfl ran

theorem run_closed {events : List LifecycleEvent} {final : Lifecycle}
    (ran : Transition.run (Lifecycle.step fromStdString) .construct events = some final) :
    final.calls.count .backendFree = events.countP LifecycleEvent.cleansUp := by
  have counted := Transition.run_countP
    (fun state event next taken => (step_calls state event next taken).2) ran
  simpa [Lifecycle.construct] using counted

theorem shut_down_once_iff {events : List LifecycleEvent} {final : Lifecycle}
    (ran : Transition.run (Lifecycle.step fromStdString) .construct (events ++ [.destroy]) =
      some final) :
    ShutDownOnce final.calls ↔ ∀ event ∈ events, event.cleansUp = false := by
  have closed : final.calls.count .backendFree = events.countP LifecycleEvent.cleansUp + 1 := by
    rw [run_closed ran, List.countP_append]
    rfl
  obtain ⟨state, _, destroyed⟩ := (Transition.run_append _ _ _ _ _).mp ran
  obtain ⟨made, ends⟩ := destroy_last ((Transition.run_single _ _ _ _).mp destroyed)
  have quiet : events.countP LifecycleEvent.cleansUp = 0 ↔
      ∀ event ∈ events, event.cleansUp = false := by
    simp [List.countP_eq_zero]
  constructor
  · intro once
    have one := once.closed
    exact quiet.mp (by omega)
  · intro none
    have one : final.calls.count .backendFree = 1 := by
      rw [closed, quiet.mpr none]
    exact ⟨run_opened ran, one, fun before after splits => nothing_after ends one splits⟩

def refusingLlama : Llama Nat := ⟨fun context _ => .failure 1 context, fun _ _ => none⟩

theorem one_life_shuts_down_once :
    ∃ final, Transition.run (Lifecycle.step fromLatin1) .construct
        ([.initializeProcessor readyOutcome,
          .generate .quiz ['a'] (some letterVocab) refusingLlama] ++ [.destroy]) = some final ∧
      ShutDownOnce final.calls := by
  obtain ⟨final, ran⟩ : ∃ final, Transition.run (Lifecycle.step fromLatin1) .construct
      ([.initializeProcessor readyOutcome,
        .generate .quiz ['a'] (some letterVocab) refusingLlama] ++ [.destroy]) = some final :=
    ⟨_, rfl⟩
  refine ⟨final, ran, (shut_down_once_iff ran).mpr ?_⟩
  intro event member
  simp only [List.mem_cons, List.not_mem_nil, or_false] at member
  rcases member with rfl | rfl
  · decide
  · rfl

def crampedOutcome : InitializeOutcome :=
  { readyOutcome with memoryInfo := .ok "FreePhysicalMemory\n1024\n".toList }

/-- After a failure for lack of memory a model is loaded on the backend that was shut down, and
the destructor shuts it down again. -/
theorem low_memory_shuts_down_twice :
    ∃ final, Transition.run (Lifecycle.step fromLatin1) .construct
        [.initializeProcessor crampedOutcome, .initializeProcessor readyOutcome, .destroy] =
          some final ∧
      final.calls = [.backendInit, .loadModel, .freeModel, .backendFree, .loadModel, .newContext,
        .freeContext, .freeModel, .backendFree] ∧
      ¬ ShutDownOnce final.calls := by
  obtain ⟨final, ran⟩ : ∃ final, Transition.run (Lifecycle.step fromLatin1) .construct
      [.initializeProcessor crampedOutcome, .initializeProcessor readyOutcome, .destroy] =
        some final := ⟨_, rfl⟩
  have calls : final.calls = [.backendInit, .loadModel, .freeModel, .backendFree, .loadModel,
      .newContext, .freeContext, .freeModel, .backendFree] := by
    cases ran
    decide
  refine ⟨final, ran, calls, fun once => ?_⟩
  have closed := once.closed
  rw [calls] at closed
  exact absurd closed (by decide)

end Calls

end TextMaster
