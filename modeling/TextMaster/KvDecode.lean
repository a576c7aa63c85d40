import TextMaster.ProcessText

/-!
`processText` on the cell-based decoder: cells are only ever added, the loop never reaches the
batch assertion, and whether a prompt is decoded on an empty cache.
-/

namespace TextMaster

inductive DecodeStep (model : KvModel) (faults : Nat → Bool) (context : KvContext)
    (batch : List BatchToken) : DecodeResult KvContext → Prop where
  | empty : batch = [] → DecodeStep model faults context batch
      (.failure (-1) { context with decodes := context.decodes + 1 })
  | invalid : ¬(∀ entry ∈ batch, validToken model.nTokens entry.token = true) →
      DecodeStep model faults context batch
        (.threw "invalid token".toList { context with decodes := context.decodes + 1 })
  | overlong : (∀ entry ∈ batch, validToken model.nTokens entry.token = true) →
      model.nBatch < batch.length → DecodeStep model faults context batch .aborted
  | refused : batch.length ≤ model.nBatch →
      model.nCtx < context.cells.length + batch.length ∨ faults context.decodes = true →
      DecodeStep model faults context batch
        (.failure 1 { context with outputs := [], decodes := context.decodes + 1 })
  | decoded : batch ≠ [] → batch.length ≤ model.nBatch →
      context.cells.length + batch.length ≤ model.nCtx → ∀ cells,
      cells = context.cells ++ batch.map BatchToken.cell →
      DecodeStep model faults context batch (.success {
        cells := cells
        outputs := batch.map fun entry =>
          if entry.logits then some (visible cells entry.pos) else none
        decodes := context.decodes + 1 })

theorem decode_step (model : KvModel) (faults : Nat → Bool) (context : KvContext)
    (batch : List BatchToken) :
    DecodeStep model faults context batch ((model.llama faults).decode context batch) := by
  simp only [KvModel.llama, KvModel.decode]
  split
  · rename_i isEmpty
    exact .empty isEmpty
  · rename_i nonempty
    split
    · rename_i invalid
      exact .invalid (by simpa using invalid)
    · rename_i valid
      split
      · rename_i long
        exact .overlong (by simpa [List.any_eq_false] using valid) long
      · rename_i fits
        split
        · rename_i fails
          exact .refused (by omega) (by simpa using fails)
        · rename_i sound
          simp only [Bool.or_eq_true, decide_eq_true_eq, not_or] at sound
          exact .decoded nonempty (by omega) (by omega) _ rfl

theorem decode_success {model : KvModel} {faults : Nat → Bool} {context after : KvContext}
    {batch : List BatchToken}
    (decoded : (model.llama faults).decode context batch = .success after) :
    batch ≠ [] ∧ batch.length ≤ model.nBatch ∧
      after.cells = context.cells ++ batch.map BatchToken.cell ∧
      after.outputs = batch.map fun entry =>
        if entry.logits then some (visible after.cells entry.pos) else none := by
  have step := decode_step model faults context batch
  rw [decoded] at step
  cases step with
  | decoded nonempty fits room cells same => exact ⟨nonempty, fits, same, rfl⟩

theorem decode_refused {model : KvModel} {faults : Nat → Bool} {context after : KvContext}
    {batch : List BatchToken}
    (refused : (∃ code, (model.llama faults).decode context batch = .failure code after) ∨
      ∃ what, (model.llama faults).decode context batch = .threw what after) :
    after.cells = context.cells := by
  have step := decode_step model faults context batch
  rcases refused with ⟨code, failed⟩ | ⟨what, thrown⟩
  · rw [failed] at step
    cases step <;> rfl
  · rw [thrown] at step
    cases step
    rfl

theorem decode_aborted {model : KvModel} {faults : Nat → Bool} {context : KvContext}
    {batch : List BatchToken} (aborted : (model.llama faults).decode context batch = .aborted) :
    (∀ entry ∈ batch, validToken model.nTokens entry.token = true) ∧
      model.nBatch < batch.length := by
  have step := decode_step model faults context batch
  rw [aborted] at step
  cases step with
  | overlong valid long => exact ⟨valid, long⟩

theorem decode_threw {model : KvModel} {faults : Nat → Bool} {context after : KvContext}
    {batch : List BatchToken} {what : QString}
    (thrown : (model.llama faults).decode context batch = .threw what after) :
    ∃ entry ∈ batch, validToken model.nTokens entry.token = false := by
  have step := decode_step model faults context batch
  rw [thrown] at step
  cases step with
  | invalid found => simpa using found

theorem decode_not_threw {model : KvModel} {faults : Nat → Bool} {context after : KvContext}
    {batch : List BatchToken} {what : QString}
    (valid : ∀ entry ∈ batch, validToken model.nTokens entry.token = true) :
    (model.llama faults).decode context batch ≠ .threw what after := by
  intro thrown
  obtain ⟨entry, member, invalid⟩ := decode_threw thrown
  rw [valid entry member] at invalid
  contradiction

theorem nextBatch_not_aborted {model : KvModel} {faults : Nat → Bool} {context : KvContext}
    {tokens responseTokens : List Token} {i : Nat} (room : 1 ≤ model.nBatch) :
    (model.llama faults).decode context (nextBatch tokens responseTokens i) ≠ .aborted := by
  intro aborted
  have exceeds := (decode_aborted aborted).2
  simp only [nextBatch, List.length_singleton] at exceeds
  omega

section Accepted

variable (model : KvModel) (faults : Nat → Bool) (context : KvContext) (batch : List BatchToken)

theorem decode_of_accepted (nonempty : batch ≠ [])
    (valid : ∀ entry ∈ batch, validToken model.nTokens entry.token = true)
    (fits : batch.length ≤ model.nBatch)
    (room : context.cells.length + batch.length ≤ model.nCtx)
    (sound : faults context.decodes = false) :
    ∃ after, (model.llama faults).decode context batch = .success after := by
  have step := decode_step model faults context batch
  generalize (model.llama faults).decode context batch = result at step ⊢
  cases step with
  | empty isEmpty => contradiction
  | invalid found => contradiction
  | overlong _ long => omega
  | refused _ fails =>
      rcases fails with full | fault
      · omega
      · rw [sound] at fault
        contradiction
  | decoded => exact ⟨_, rfl⟩

theorem decode_of_full (nonempty : batch ≠ [])
    (valid : ∀ entry ∈ batch, validToken model.nTokens entry.token = true)
    (fits : batch.length ≤ model.nBatch)
    (full : model.nCtx < context.cells.length + batch.length) :
    ∃ after, (model.llama faults).decode context batch = .failure 1 after := by
  have step := decode_step model faults context batch
  generalize (model.llama faults).decode context batch = result at step ⊢
  cases step with
  | empty isEmpty => contradiction
  | invalid found => contradiction
  | overlong _ long => omega
  | refused => exact ⟨_, rfl⟩
  | decoded _ _ room => omega

theorem decode_of_aborted
    (valid : ∀ entry ∈ batch, validToken model.nTokens entry.token = true)
    (exceeds : model.nBatch < batch.length) :
    (model.llama faults).decode context batch = .aborted := by
  have step := decode_step model faults context batch
  generalize (model.llama faults).decode context batch = result at step ⊢
  cases step with
  | empty isEmpty =>
      rw [isEmpty, List.length_nil] at exceeds
      omega
  | invalid found => contradiction
  | overlong => rfl
  | refused fits => omega
  | decoded _ fits => omega

end Accepted

theorem decode_of_refused {model : KvModel} {faults : Nat → Bool} {batch : List BatchToken}
    (refused : ¬(batch ≠ [] ∧ (∀ entry ∈ batch, validToken model.nTokens entry.token = true) ∧
      batch.length ≤ model.nBatch ∧ batch.length ≤ model.nCtx ∧ faults 0 = false)) :
    (∃ code, ∀ cells, (model.llama faults).decode (.withCells cells) batch =
      .failure code ⟨cells, [], 1⟩) ∨
    (∃ what, ∀ cells, (model.llama faults).decode (.withCells cells) batch =
      .threw what ⟨cells, [], 1⟩) ∨
    ∀ cells, (model.llama faults).decode (.withCells cells) batch = .aborted := by
  simp only [KvModel.llama, KvModel.decode, KvContext.withCells, Nat.zero_add]
  by_cases empty : batch = []
  · exact Or.inl ⟨-1, fun cells => by rw [if_pos empty]⟩
  · by_cases invalid : batch.any (fun entry => !validToken model.nTokens entry.token) = true
    · exact Or.inr (Or.inl ⟨_, fun cells => by rw [if_neg empty, if_pos invalid]⟩)
    · by_cases long : model.nBatch < batch.length
      · exact Or.inr (Or.inr fun cells => by rw [if_neg empty, if_neg invalid, if_pos long])
      · refine Or.inl ⟨1, fun cells => ?_⟩
        have valid : ∀ entry ∈ batch, validToken model.nTokens entry.token = true := by
          simpa [List.any_eq_false] using invalid
        have fails : model.nCtx < cells.length + batch.length ∨ faults 0 = true := by
          by_contra sound
          simp only [not_or, Nat.not_lt, Bool.not_eq_true] at sound
          exact refused ⟨empty, valid, by omega, by omega, sound.2⟩
        rw [if_neg empty, if_neg invalid, if_neg long, if_pos (by simpa using fails)]

@[simp] theorem promptBatch_length (tokens : List Token) :
    (promptBatch tokens).length = tokens.length := by
  simp [promptBatch]

theorem promptBatch_nonempty {tokens : List Token} (nonempty : tokens ≠ []) :
    promptBatch tokens ≠ [] := by
  intro empty
  apply nonempty
  rw [← List.length_eq_zero_iff, ← promptBatch_length, empty, List.length_nil]

theorem promptBatch_valid {nTokens : Nat} {tokens : List Token}
    (valid : ∀ token ∈ tokens, validToken nTokens token = true) :
    ∀ entry ∈ promptBatch tokens, validToken nTokens entry.token = true := by
  intro entry member
  simp only [promptBatch, List.mem_mapIdx] at member
  obtain ⟨i, bound, rfl⟩ := member
  exact valid _ (List.getElem_mem bound)

theorem valid_of_promptBatch {nTokens : Nat} {tokens : List Token}
    (valid : ∀ entry ∈ promptBatch tokens, validToken nTokens entry.token = true) :
    ∀ token ∈ tokens, validToken nTokens token = true := by
  intro token member
  obtain ⟨i, bound, rfl⟩ := List.mem_iff_getElem.mp member
  have entry : (⟨tokens[i], i, 0, false⟩ : BatchToken) ∈ promptBatch tokens := by
    simp only [promptBatch, List.mem_mapIdx]
    exact ⟨i, bound, rfl⟩
  exact valid _ entry

def zeroCells (cells : List Cell) : Nat := cells.countP fun cell => cell.pos = 0

theorem promptBatch_zero {tokens : List Token} (nonempty : tokens ≠ []) :
    zeroCells ((promptBatch tokens).map BatchToken.cell) = 1 := by
  unfold zeroCells
  cases tokens with
  | nil => contradiction
  | cons first rest =>
      have later : ((rest.mapIdx fun i token => (⟨token, i + 1, 0, false⟩ : BatchToken)).map
          BatchToken.cell).countP (fun cell => cell.pos = 0) = 0 := by
        rw [List.countP_eq_zero]
        intro cell member
        simp only [List.mem_map, List.mem_mapIdx] at member
        obtain ⟨entry, ⟨i, bound, rfl⟩, rfl⟩ := member
        simp [BatchToken.cell]
      simp only [promptBatch, List.mapIdx_cons, List.map_cons, List.countP_cons, later]
      simp [BatchToken.cell]

theorem zeroCells_append (first second : List Cell) :
    zeroCells (first ++ second) = zeroCells first + zeroCells second := by
  simp [zeroCells, List.countP_append]

theorem zeroCells_visible (cells : List Cell) (pos : Nat) :
    zeroCells (visible cells pos) = zeroCells cells := by
  unfold zeroCells visible
  rw [List.countP_filter]
  apply List.countP_congr
  intro cell _
  simp only [Bool.and_eq_true, decide_eq_true_eq, and_iff_left_iff_imp]
  omega

theorem decode_nextBatch {model : KvModel} {faults : Nat → Bool} {context after : KvContext}
    {tokens responseTokens : List Token} {i : Nat} (nonempty : tokens ≠ [])
    (decoded : (model.llama faults).decode context (nextBatch tokens responseTokens i) =
      .success after) :
    zeroCells after.cells = zeroCells context.cells ∧
      ∃ seen, zeroCells seen = zeroCells context.cells ∧
        (model.llama faults).getLogitsIth after 0 = some (model.logits seen) := by
  obtain ⟨_, _, cells, outputs⟩ := decode_success decoded
  have same : zeroCells after.cells = zeroCells context.cells := by
    rw [cells]
    simp [zeroCells, nextBatch, BatchToken.cell, List.countP_append, nonempty]
  refine ⟨same, visible after.cells (tokens.length + i), ?_, ?_⟩
  · rw [zeroCells_visible, same]
  · simp [KvModel.llama, outputs, nextBatch]

section Growth

variable {model : KvModel} {faults : Nat → Bool} {vocab : Vocab}

theorem iteration_cells {tokens : List Token} {i : Nat}
    {state next : Generation KvContext} {exit : Option Exit}
    (taken : iteration (model.llama faults) vocab tokens i state = (next, exit)) :
    ∃ extra, next.context.cells = state.context.cells ++ extra := by
  cases iteration_step taken with
  | aborted => exact ⟨[], (List.append_nil _).symm⟩
  | threw what context decoded =>
      exact ⟨[], by simp [decode_refused (Or.inr ⟨what, decoded⟩)]⟩
  | failed code context decoded =>
      exact ⟨[], by simp [decode_refused (Or.inl ⟨code, decoded⟩)]⟩
  | noLogits context decoded => exact ⟨_, (decode_success decoded).2.2.1⟩
  | noBestToken context _ decoded => exact ⟨_, (decode_success decoded).2.2.1⟩
  | chosen context logits checked exit decoded _ _ chosen =>
      obtain ⟨sameContext, _⟩ := checkToken_frame chosen
      rw [Generation.call_context, sameContext]
      exact ⟨_, (decode_success decoded).2.2.1⟩

theorem iteration_not_aborted {tokens : List Token} {i : Nat}
    {state next : Generation KvContext} {exit : Option Exit} (room : 1 ≤ model.nBatch)
    (taken : iteration (model.llama faults) vocab tokens i state = (next, exit)) :
    exit ≠ some .aborted := by
  cases iteration_step taken with
  | aborted decoded => exact absurd decoded (nextBatch_not_aborted room)
  | chosen context logits checked exit decoded found some chosen =>
      obtain ⟨_, _, stops⟩ := checkToken_frame chosen
      intro aborted
      simpa using stops .aborted aborted
  | _ => simp

theorem generateTokens_cells (model : KvModel) (faults : Nat → Bool) (vocab : Vocab)
    (tokens : List Token) (remaining i : Nat)
    (state : Generation KvContext) :
    (∃ extra,
      (generateTokens (model.llama faults) vocab tokens remaining i state).1.context.cells =
        state.context.cells ++ extra) ∧
    (1 ≤ model.nBatch →
      (generateTokens (model.llama faults) vocab tokens remaining i state).2 ≠ .aborted) := by
  refine generateTokens_rule (model.llama faults) vocab tokens
    (fun _ current => ∃ extra, current.context.cells = state.context.cells ++ extra)
    (fun final exit =>
      (∃ extra, final.context.cells = state.context.cells ++ extra) ∧
        (1 ≤ model.nBatch → exit ≠ .aborted))
    ?_ ?_ remaining i state (fun last grown => ⟨grown, fun _ => by simp⟩) ⟨[], by simp⟩
  · rintro _ current next ⟨extra, grown⟩ taken
    obtain ⟨more, added⟩ := iteration_cells taken
    exact ⟨extra ++ more, by rw [added, grown, List.append_assoc]⟩
  · rintro _ current next exit ⟨extra, grown⟩ taken
    obtain ⟨more, added⟩ := iteration_cells taken
    exact ⟨⟨extra ++ more, by rw [added, grown, List.append_assoc]⟩,
      fun room aborted => iteration_not_aborted room taken (congrArg some aborted)⟩

end Growth

end TextMaster
