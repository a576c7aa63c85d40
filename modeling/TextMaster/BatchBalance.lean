import TextMaster.Transition
import TextMaster.GenerationLoop

/-!
The batches of `processText` over whole sequences of calls. A batch is live between its
`llama_batch_init` and its `llama_batch_free`; the ghost log of each call says which ones were.
-/

namespace TextMaster

/-- The ghost multiset of live batches after one more call on batches. -/
def track (live : List Nat) : BatchCall → List Nat
  | .init batch => batch :: live
  | .free batch => live.erase batch
  | .decode _ => live

def liveBatches (calls : List BatchCall) : List Nat := calls.foldl track []

/-- Whether the batch is passed to `llama_decode` behind its `llama_batch_free`. -/
def decodedFreed (batch : Nat) : Bool → List BatchCall → Bool
  | _, [] => false
  | freed, .init _ :: rest => decodedFreed batch freed rest
  | freed, .decode other :: rest => (freed && other == batch) || decodedFreed batch freed rest
  | freed, .free other :: rest => decodedFreed batch (freed || other == batch) rest

/-- A batch that the calls initialise is freed exactly once, and not decoded after that. -/
structure FreedOnce (calls : List BatchCall) (batch : Nat) : Prop where
  matched : .init batch ∈ calls →
    calls.count (.init batch) = 1 ∧ calls.count (.free batch) = 1
  fresh : decodedFreed batch false calls = false

def batchCalls (batch : Nat) : List BatchCall := [.init batch, .decode batch, .free batch]

section Log

theorem track_batchCalls (live : List Nat) (batch : Nat) :
    (batchCalls batch).foldl track live = live := by
  simp [batchCalls, track]

theorem track_iterations (live batches : List Nat) :
    (batches.flatMap batchCalls).foldl track live = live := by
  induction batches with
  | nil => rfl
  | cons batch rest ih => rw [List.flatMap_cons, List.foldl_append, track_batchCalls, ih]

theorem init_mem_iterations {batches : List Nat} {batch : Nat} :
    .init batch ∈ batches.flatMap batchCalls ↔ batch ∈ batches := by
  simp [batchCalls]

theorem decode_mem_iterations {batches : List Nat} {batch : Nat} :
    .decode batch ∈ batches.flatMap batchCalls ↔ batch ∈ batches := by
  simp [batchCalls]

theorem free_mem_iterations {batches : List Nat} {batch : Nat} :
    .free batch ∈ batches.flatMap batchCalls ↔ batch ∈ batches := by
  simp [batchCalls]

theorem decodedFreed_of_absent {batch : Nat} {calls : List BatchCall}
    (absent : .decode batch ∉ calls) (freed : Bool) : decodedFreed batch freed calls = false := by
  induction calls generalizing freed with
  | nil => rfl
  | cons call rest ih =>
      have later := ih fun member => absent (List.mem_cons_of_mem _ member)
      cases call with
      | init other => exact later freed
      | free other => exact later _
      | decode other =>
          have different : (other == batch) = false := by
            rw [beq_eq_false_iff_ne]
            rintro rfl
            exact absent List.mem_cons_self
          rw [decodedFreed, different, later, Bool.and_false, Bool.or_false]

theorem iterations_fresh {batches : List Nat} (distinct : batches.Nodup) (batch : Nat) :
    decodedFreed batch false (batches.flatMap batchCalls) = false := by
  induction batches with
  | nil => rfl
  | cons other rest ih =>
      obtain ⟨missing, distinct⟩ := List.nodup_cons.mp distinct
      rw [List.flatMap_cons]
      change decodedFreed batch (false || other == batch) (rest.flatMap batchCalls) = false
      by_cases same : other = batch
      · subst same
        exact decodedFreed_of_absent (fun decoded => missing (decode_mem_iterations.mp decoded)) _
      · rw [show (other == batch) = false by simpa using same]
        exact ih distinct

theorem iterations_count {batches : List Nat} (distinct : batches.Nodup) {batch : Nat}
    (member : batch ∈ batches) :
    (batches.flatMap batchCalls).count (.init batch) = 1 ∧
      (batches.flatMap batchCalls).count (.free batch) = 1 := by
  induction batches with
  | nil => simp at member
  | cons other rest ih =>
      obtain ⟨missing, distinct⟩ := List.nodup_cons.mp distinct
      rw [List.flatMap_cons, List.count_append, List.count_append]
      rcases List.mem_cons.mp member with rfl | later
      · have neverOpened : .init batch ∉ rest.flatMap batchCalls :=
          fun present => missing (init_mem_iterations.mp present)
        have neverClosed : .free batch ∉ rest.flatMap batchCalls :=
          fun present => missing (free_mem_iterations.mp present)
        rw [List.count_eq_zero.mpr neverOpened, List.count_eq_zero.mpr neverClosed]
        simp [batchCalls]
      · have different : other ≠ batch := by
          rintro rfl
          exact missing later
        obtain ⟨opened, closed⟩ := ih distinct later
        rw [opened, closed]
        simp [batchCalls, different]

def loopLog (count : Nat) : List BatchCall :=
  .init 0 :: .decode 0 :: (List.range' 1 count).flatMap batchCalls

theorem loopLog_freedOnce {count batch : Nat} (later : batch ≠ 0) :
    FreedOnce (loopLog count) batch := by
  have distinct : (List.range' 1 count).Nodup := List.nodup_range'
  constructor
  · intro present
    have member : batch ∈ List.range' 1 count := by
      rw [loopLog, List.mem_cons, List.mem_cons, init_mem_iterations] at present
      simpa [later] using present
    obtain ⟨opened, closed⟩ := iterations_count distinct member
    constructor
    · rw [loopLog, List.count_cons_of_ne (by simpa using Ne.symm later),
        List.count_cons_of_ne (by simp), opened]
    · rw [loopLog, List.count_cons_of_ne (by simp), List.count_cons_of_ne (by simp), closed]
  · exact iterations_fresh distinct batch

theorem loopLog_keeps_prompt (count : Nat) : ¬ FreedOnce (loopLog count) 0 := by
  intro freed
  have once := (freed.matched List.mem_cons_self).2
  have absent : .free 0 ∉ loopLog count := by
    rw [loopLog, List.mem_cons, List.mem_cons, free_mem_iterations, List.mem_range'_1]
    simp
  rw [List.count_eq_zero.mpr absent] at once
  contradiction

def RefusedLog (log : List BatchCall) : Prop := log = [] ∨ log = [.init 0, .decode 0, .free 0]

theorem RefusedLog.freedOnce {log : List BatchCall} (refused : RefusedLog log) (batch : Nat) :
    FreedOnce log batch := by
  rcases refused with rfl | rfl
  · exact ⟨by simp, rfl⟩
  · constructor
    · intro present
      obtain rfl : batch = 0 := by simpa using present
      decide
    · simp [decodedFreed]

theorem RefusedLog.track_eq {log : List BatchCall} (refused : RefusedLog log) (live : List Nat) :
    log.foldl track live = live := by
  rcases refused with rfl | rfl
  · rfl
  · exact track_batchCalls live 0

end Log

section Call

variable {Context : Type}

def Processed.raised (processed : Processed Context) : Bool :=
  processed.outcome == .aborted ||
    processed.errors.any fun error => "Error processing text: ".toList.isPrefixOf error

def ReachesLoop (llama : Llama Context) (impl : Impl Context) (prompt : QString) : Prop :=
  ∃ context vocab tokens after, impl = ⟨some context, some ⟨some vocab⟩⟩ ∧
    promptTokens vocab prompt = some tokens ∧
    llama.decode context (promptBatch tokens) = .success after

theorem generateTokens_calls (llama : Llama Context) (vocab : Vocab) (tokens : List Token)
    {remaining i : Nat} {state : Generation Context}
    (returned : (generateTokens llama vocab tokens remaining i state).2.raised = false) :
    ∃ count, (generateTokens llama vocab tokens remaining i state).1.calls =
      state.calls ++ (List.range' (i + 1) count).flatMap batchCalls := by
  induction remaining generalizing i state with
  | zero => exact ⟨0, (List.append_nil _).symm⟩
  | succ remaining ih =>
      cases taken : iteration llama vocab tokens i state with
      | mk next exit =>
          have logged := iteration_calls taken
          cases exit with
          | none =>
              rw [generateTokens_continue taken] at returned ⊢
              obtain ⟨count, later⟩ := ih returned
              refine ⟨count + 1, ?_⟩
              rw [later, logged, List.range'_succ, List.flatMap_cons, List.append_assoc]
              rfl
          | some exit =>
              rw [generateTokens_stop taken] at returned ⊢
              refine ⟨1, ?_⟩
              rw [logged, iterationCalls, if_neg (by simpa using returned)]
              rfl

theorem finishResponse_raised {fromStdString : List UInt8 → QString} {vocab : Vocab}
    {model : Model} {generated : Generation Context × Exit}
    (returned : (finishResponse fromStdString vocab model generated).raised = false) :
    generated.2.raised = false := by
  obtain ⟨state, exit⟩ := generated
  cases exit with
  | threw what => simp [finishResponse, Processed.raised] at returned
  | aborted => simp [finishResponse, Processed.raised] at returned
  | _ => rfl

theorem processText_calls {llama : Llama Context} {fromStdString : List UInt8 → QString}
    {impl : Impl Context} {prompt : QString} {processed : Processed Context}
    (called : processText llama fromStdString impl prompt = processed)
    (returned : processed.raised = false) :
    (ReachesLoop llama impl prompt ∧ ∃ count, processed.calls = loopLog count) ∨
      (¬ ReachesLoop llama impl prompt ∧ RefusedLog processed.calls) := by
  subst called
  by_cases reaches : ReachesLoop llama impl prompt
  · refine Or.inl ⟨reaches, ?_⟩
    obtain ⟨context, vocab, tokens, after, rfl, tokenized, decoded⟩ := reaches
    simp only [processText, tokenized, decoded] at returned ⊢
    exact generateTokens_calls llama vocab tokens (finishResponse_raised returned)
  · refine Or.inr ⟨reaches, ?_⟩
    obtain ⟨_ | context, _ | ⟨_ | vocab⟩⟩ := impl
    case some.some.some =>
      cases tokenized : promptTokens vocab prompt with
      | none =>
          simp only [processText, tokenized]
          exact Or.inl rfl
      | some tokens =>
          cases decoded : llama.decode context (promptBatch tokens) with
          | success after =>
              exact absurd ⟨context, vocab, tokens, after, rfl, tokenized, decoded⟩ reaches
          | failure code after =>
              simp only [processText, tokenized, decoded]
              exact Or.inr rfl
          | threw what after => simp [processText, tokenized, decoded, Processed.raised] at returned
          | aborted => simp [processText, tokenized, decoded, Processed.raised] at returned
    all_goals exact Or.inl rfl

end Call

section Sequence

variable {Context : Type} (fromStdString : List UInt8 → QString)

structure ProcessCall (Context : Type) where
  llama : Llama Context
  prompt : QString

structure Served (Context : Type) where
  impl : Impl Context
  logs : List (List BatchCall)

def Served.step (served : Served Context) (call : ProcessCall Context) :
    Option (Served Context) :=
  let processed := processText call.llama fromStdString served.impl call.prompt
  if processed.raised then none else some ⟨processed.impl, served.logs ++ [processed.calls]⟩

def BatchesBalanced (served : Served Context) : Prop :=
  (∀ log ∈ served.logs, ∀ batch, FreedOnce log batch) ∧ liveBatches served.logs.flatten = []

def OnlyPromptsLive (served : Served Context) : Prop :=
  (∀ log ∈ served.logs, ∀ batch, batch ≠ 0 → FreedOnce log batch) ∧
    ∀ batch ∈ liveBatches served.logs.flatten, batch = 0

variable {fromStdString} {served next : Served Context} {call : ProcessCall Context}

theorem liveBatches_logs (logs : List (List BatchCall)) (log : List BatchCall) :
    liveBatches (logs ++ [log]).flatten = log.foldl track (liveBatches logs.flatten) := by
  rw [List.flatten_append, List.flatten_singleton, liveBatches, List.foldl_append, liveBatches]

theorem forall_mem_logs {holds : List BatchCall → Prop} {logs : List (List BatchCall)}
    {log : List BatchCall} (before : ∀ earlier ∈ logs, holds earlier) (last : holds log) :
    ∀ earlier ∈ logs ++ [log], holds earlier :=
  List.forall_mem_append.mpr ⟨before, by simpa using last⟩

theorem step_logs (taken : served.step fromStdString call = some next) :
    (ReachesLoop call.llama served.impl call.prompt ∧
        ∃ count, next.logs = served.logs ++ [loopLog count]) ∨
      (¬ ReachesLoop call.llama served.impl call.prompt ∧
        ∃ log, next.logs = served.logs ++ [log] ∧ RefusedLog log) := by
  simp only [Served.step] at taken
  split at taken
  · cases taken
  · rename_i returned
    cases taken
    rcases processText_calls rfl (by simpa using returned) with
      ⟨reaches, count, logged⟩ | ⟨refused, logged⟩
    · exact Or.inl ⟨reaches, count, by rw [logged]⟩
    · exact Or.inr ⟨refused, _, rfl, logged⟩

theorem step_only_prompts_live (only : OnlyPromptsLive served)
    (taken : served.step fromStdString call = some next) : OnlyPromptsLive next := by
  obtain ⟨freed, live⟩ := only
  rcases step_logs taken with ⟨_, count, logged⟩ | ⟨_, log, logged, refused⟩
  · constructor
    · rw [logged]
      exact forall_mem_logs freed fun batch => loopLog_freedOnce
    · rw [logged, liveBatches_logs, loopLog, List.foldl_cons, List.foldl_cons, track_iterations]
      intro batch member
      rcases List.mem_cons.mp member with rfl | earlier
      · rfl
      · exact live batch earlier
  · constructor
    · rw [logged]
      exact forall_mem_logs freed fun batch _ => refused.freedOnce batch
    · rwa [logged, liveBatches_logs, refused.track_eq]

theorem step_balanced_iff (balanced : BatchesBalanced served)
    (taken : served.step fromStdString call = some next) :
    BatchesBalanced next ↔ ¬ ReachesLoop call.llama served.impl call.prompt := by
  obtain ⟨freed, live⟩ := balanced
  rcases step_logs taken with ⟨reaches, count, logged⟩ | ⟨refused, log, logged, short⟩
  · have unbalanced : ¬ BatchesBalanced next := fun balanced =>
      loopLog_keeps_prompt count (balanced.1 _ (by simp [logged]) 0)
    simp [unbalanced, reaches]
  · have kept : BatchesBalanced next := by
      constructor
      · rw [logged]
        exact forall_mem_logs freed short.freedOnce
      · rw [logged, liveBatches_logs, short.track_eq, live]
    simp [kept, refused]

theorem only_prompts_live (fromStdString : List UInt8 → QString) (impl : Impl Context)
    (calls : List (ProcessCall Context)) :
    Transition.Always (Served.step fromStdString) OnlyPromptsLive ⟨impl, []⟩ calls := by
  rintro before after reached rfl ran
  exact Transition.run_preserves (fun _ _ _ only taken => step_only_prompts_live only taken)
    ⟨by simp, by simp [liveBatches]⟩ ran

theorem batches_balanced_iff (fromStdString : List UInt8 → QString) (impl : Impl Context)
    (calls : List (ProcessCall Context)) :
    Transition.Always (Served.step fromStdString) BatchesBalanced ⟨impl, []⟩ calls ↔
      Transition.Along (Served.step fromStdString)
        (fun served call => ¬ ReachesLoop call.llama served.impl call.prompt)
        ⟨impl, []⟩ calls :=
  Transition.always_iff_along (fun _ _ _ balanced taken => step_balanced_iff balanced taken)
    ⟨by simp, by simp [liveBatches]⟩ calls

theorem word_batch_leaks :
    ∃ final, Transition.run (Served.step fromLatin1)
        ⟨⟨some 0, some ⟨some wordVocab⟩⟩, []⟩ [⟨wordLlama, ['x']⟩] = some final ∧
      liveBatches final.logs.flatten = [0] ∧ ¬ BatchesBalanced final := by
  obtain ⟨final, ran⟩ : ∃ final, Transition.run (Served.step fromLatin1)
      ⟨⟨some 0, some ⟨some wordVocab⟩⟩, []⟩ [⟨wordLlama, ['x']⟩] = some final := ⟨_, rfl⟩
  have live : liveBatches final.logs.flatten = [0] := by
    cases ran
    rfl
  refine ⟨final, ran, live, ?_⟩
  rintro ⟨_, none⟩
  rw [live] at none
  contradiction

end Sequence

end TextMaster
