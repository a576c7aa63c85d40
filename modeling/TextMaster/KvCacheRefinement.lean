import Mathlib.Data.List.GetD
import TextMaster.DecoderSimulation
import TextMaster.KvCacheDecode
import TextMaster.KvDecode

/-!
`llama_decode` on the cache refines the cell-based decoder: over a single sequence it accepts the
same batches, keeps the same cells and answers with the same logits.
-/

namespace TextMaster

open KvCache

section Outputs

theorem wanted_ascending (batch : List BatchToken) (offset : Nat) :
    ((wanted batch offset).map Prod.snd).Pairwise (· < ·) := by
  have places : ((batch.zipIdx offset).map Prod.snd).Pairwise (· < ·) := by
    rw [List.zipIdx_map_snd]
    exact List.pairwise_lt_range'
  exact places.sublist (List.filter_sublist.map Prod.snd)

theorem length_wanted (batch : List BatchToken) (offset : Nat) :
    (wanted batch offset).length = batch.countP BatchToken.logits := by
  have counted : batch.countP BatchToken.logits =
      ((batch.zipIdx offset).map Prod.fst).countP BatchToken.logits := by
    rw [List.zipIdx_map_fst]
  rw [counted, List.countP_map, wanted, ← List.countP_eq_length_filter]
  rfl

theorem mem_wanted {batch : List BatchToken} {entry : BatchToken} {index : Nat} :
    (entry, index) ∈ wanted batch 0 ↔ batch[index]? = some entry ∧ entry.logits = true := by
  rw [wanted, List.mem_filter, List.mk_mem_zipIdx_iff_getElem?]

theorem smallestId_first {outIds : List Nat} (ascending : outIds.Pairwise (· < ·)) {i : Nat}
    (rest : List Nat) (behind : ∀ j ∈ rest, i < j ∧ j < outIds.length) :
    smallestId outIds i rest = i := by
  unfold smallestId
  induction rest with
  | nil => rfl
  | cons j rest ih =>
      obtain ⟨after, inside⟩ := behind j List.mem_cons_self
      have larger := List.pairwise_iff_getElem.mp ascending i j (by omega) inside after
      have kept : ¬ outIds.getD j 0 < outIds.getD i 0 := by
        rw [List.getD_eq_getElem _ _ inside, List.getD_eq_getElem _ _ (Nat.lt_trans after inside)]
        omega
      rw [List.foldl_cons, if_neg kept]
      exact ih fun k member => behind k (List.mem_cons_of_mem _ member)

theorem sortOutputs_ascending (outputs : List Nat × List (List Cell))
    (ascending : outputs.1.Pairwise (· < ·)) : sortOutputs outputs = outputs := by
  unfold sortOutputs
  induction List.range (outputs.1.length - 1) with
  | nil => rfl
  | cons i rest ih =>
      have behind : ∀ j ∈ List.range' (i + 1) (outputs.1.length - (i + 1)),
          i < j ∧ j < outputs.1.length := by
        intro j member
        rw [List.mem_range'_1] at member
        omega
      have first := smallestId_first ascending _ behind
      rw [List.foldl_cons]
      simp only [first, if_true]
      exact ih

section Mapping

variable {ids : List Int} {outIds : List Nat} {index : Nat}

theorem mapOutputs_miss (offset : Nat) (absent : index ∉ outIds) :
    ((outIds.zipIdx offset).foldl (fun ids entry => ids.set entry.1 entry.2) ids)[index]? =
      ids[index]? := by
  induction outIds generalizing ids offset with
  | nil => rfl
  | cons first rest ih =>
      rw [List.mem_cons, not_or] at absent
      rw [List.zipIdx_cons, List.foldl_cons, ih _ absent.2,
        List.getElem?_set_ne (fun same => absent.1 same.symm)]

theorem mapOutputs_hit (offset : Nat) (distinct : outIds.Nodup) (inside : index < ids.length)
    {row : Nat} (here : outIds[row]? = some index) :
    ((outIds.zipIdx offset).foldl (fun ids entry => ids.set entry.1 entry.2) ids)[index]? =
      some ((offset + row : Nat) : Int) := by
  induction outIds generalizing ids offset row with
  | nil => simp at here
  | cons first rest ih =>
      rw [List.nodup_cons] at distinct
      rw [List.zipIdx_cons, List.foldl_cons]
      cases row with
      | zero =>
          rw [List.getElem?_cons_zero, Option.some.injEq] at here
          subst here
          rw [mapOutputs_miss _ distinct.1, List.getElem?_set_self inside]
          rfl
      | succ row =>
          rw [List.getElem?_cons_succ] at here
          rw [ih _ distinct.2 (by simpa using inside) here, Nat.add_assoc, Nat.add_comm 1]

end Mapping

end Outputs

/-- Whether a decode fails for another reason than a full cache: the buffer for its outputs cannot
be reserved, or the graph of one of its pieces is not computed. -/
def ComputeEnv.fails (env : ComputeEnv) (nUbatch call : Nat) (batch : List BatchToken) : Bool :=
  (!env.reserved call && 0 < batch.countP BatchToken.logits) ||
    (List.range batch.length).any fun piece =>
      piece * nUbatch < batch.length && env.status call piece != .success

structure LlamaContext.Refines (nCtx earlier : Nat) (context : LlamaContext) (model : KvContext) :
    Prop where
  holds : context.cache.Holds model.cells
  sized : context.cache.size = nCtx
  counted : context.decodes = earlier + model.decodes

def DecodeParams.model (params : DecodeParams) (nCtx : Nat) : KvModel :=
  ⟨params.nTokens, nCtx, params.nBatch, params.logits⟩

section Decode

variable {params : DecodeParams} {env : ComputeEnv} {context : LlamaContext} {model : KvContext}
  {batch : List BatchToken} {nCtx earlier : Nat} {faults : Nat → Bool}

theorem completes_iff {status : Nat → ComputeStatus} {capacity live nUbatch : Nat}
    (positive : 0 < nUbatch) :
    Completes capacity nUbatch status (live + 0) (batch.length - 0) 0 ↔
      live + batch.length ≤ capacity ∧ ((List.range batch.length).any fun piece =>
        piece * nUbatch < batch.length && status piece != .success) = false := by
  unfold Completes
  rw [Nat.add_zero, Nat.sub_zero]
  apply and_congr_right
  intro _
  rw [List.any_eq_false]
  constructor
  · intro all piece _
    by_cases within : piece * nUbatch < batch.length
    · simpa [within] using all piece within
    · simp [within]
  · intro none piece within
    have inside : piece < batch.length := by
      have smaller := Nat.le_mul_of_pos_right piece positive
      omega
    simpa [within] using none piece (List.mem_range.mpr inside)

theorem absent_of_unwanted (batch : List BatchToken) (index : Nat)
    (unwanted : ∀ entry, batch[index]? = some entry → entry.logits = false) :
    index ∉ (wanted batch 0).map Prod.snd := by
  rintro member
  obtain ⟨⟨entry, place⟩, there, rfl⟩ := List.mem_map.mp member
  obtain ⟨here, wants⟩ := mem_wanted.mp there
  rw [unwanted entry here] at wants
  contradiction

theorem llama_getLogitsIth (context : LlamaContext) (index : Nat) :
    (LlamaContext.llama params env).getLogitsIth context index =
      LlamaContext.getLogitsIth params context index := rfl

theorem getLogitsIth_none {context : LlamaContext} {index : Nat}
    (unset : context.outputIds[index]? = some (-1) ∨ context.outputIds[index]? = none) :
    LlamaContext.getLogitsIth params context index = none := by
  unfold LlamaContext.getLogitsIth
  cases context.rows with
  | none => rfl
  | some rows =>
      rcases unset with same | same
      · rw [same]
        rfl
      · rw [same]

theorem getLogitsIth_null {context : LlamaContext} {index : Nat} (null : context.rows = none) :
    LlamaContext.getLogitsIth params context index = none := by
  rw [LlamaContext.getLogitsIth, null]

theorem getLogitsIth_row {context : LlamaContext} {index row : Nat} {rows : List (List Cell)}
    (computed : context.rows = some rows) (mapped : context.outputIds[index]? = some (row : Int)) :
    LlamaContext.getLogitsIth params context index = rows[row]?.map params.logits := by
  unfold LlamaContext.getLogitsIth
  rw [computed, mapped]

theorem unmapped_cleared (size index : Nat) :
    (List.replicate size (-1 : Int))[index]? = some (-1) ∨
      (List.replicate size (-1 : Int))[index]? = none := by
  rw [List.getElem?_replicate]
  split
  · exact Or.inl rfl
  · exact Or.inr rfl

theorem getLogitsIth_mapped (cache : KvCache) (cells : List Cell) (decodes index : Nat)
    (fits : batch.length ≤ params.nBatch) :
    LlamaContext.getLogitsIth params ⟨cache,
        mapOutputs (List.replicate params.nBatch (-1)) ((wanted batch 0).map Prod.snd),
        some (outputRows cells batch), decodes⟩ index =
      ((batch.map fun entry =>
        if entry.logits then some (visible cells entry.pos) else none)[index]?).join.map
          params.logits := by
  have unmapped := unmapped_cleared params.nBatch index
  rw [List.getElem?_map]
  cases here : batch[index]? with
  | none =>
      have absent := absent_of_unwanted batch index (by simp [here])
      rw [← mapOutputs_miss 0 absent] at unmapped
      exact getLogitsIth_none unmapped
  | some entry =>
      have inside : index < batch.length := (List.getElem?_eq_some_iff.mp here).1
      cases wants : entry.logits with
      | false =>
          have absent := absent_of_unwanted batch index (by simp [here, wants])
          rw [← mapOutputs_miss 0 absent] at unmapped
          rw [getLogitsIth_none unmapped]
          simp [wants]
      | true =>
          obtain ⟨row, there⟩ := List.mem_iff_getElem?.mp (mem_wanted.mpr ⟨here, wants⟩)
          have inIds : index < (List.replicate params.nBatch (-1 : Int)).length := by
            rw [List.length_replicate]
            omega
          have place : ((wanted batch 0).map Prod.snd)[row]? = some index := by simp [there]
          have mapped := mapOutputs_hit 0 (wanted_ascending batch 0).nodup inIds place
          rw [Nat.zero_add] at mapped
          rw [getLogitsIth_row rfl mapped]
          simp [outputRows, there, wants]

theorem unanswered_of_none {cells : List Cell} {index : Nat}
    (silent : ∀ entry ∈ batch, ¬ entry.logits = true) :
    ((batch.map fun entry => if entry.logits then some (visible cells entry.pos)
      else none)[index]?).join = none := by
  rw [List.getElem?_map]
  cases here : batch[index]? with
  | none => rfl
  | some entry => simp [silent entry (List.mem_of_getElem? here)]

section Ended

variable {reserved : Bool} {cache : KvCache} {ids : List Int} {cells : List Cell}

/-- The rows of a batch that was given up are mapped to no token. -/
theorem refused_logits (reserved : Bool) (rows : List (List Cell)) (decodes : Nat)
    (model : KvContext) (unanswered : model.outputs = []) :
    SameLogits (LlamaContext.llama params env) ((params.model nCtx).llama faults)
      ⟨cache, if reserved then List.replicate params.nBatch (-1) else ids,
        if reserved then some rows else none, decodes⟩ model := by
  intro index
  have none : ((params.model nCtx).llama faults).getLogitsIth model index = none := by
    simp [KvModel.llama, unanswered]
  rw [none, llama_getLogitsIth]
  cases reserved with
  | true => exact getLogitsIth_none (unmapped_cleared params.nBatch index)
  | false => exact getLogitsIth_null (by rfl)

theorem completed_logits (fits : batch.length ≤ params.nBatch)
    (unreserved : reserved = false → ∀ entry ∈ batch, ¬ entry.logits = true)
    (count decodes counted : Nat) :
    let places := (wanted batch 0).map Prod.snd
    let reset := if reserved then List.replicate params.nBatch (-1) else ids
    let rows := if reserved then some (outputRows cells batch) else none
    SameLogits (LlamaContext.llama params env) ((params.model nCtx).llama faults)
      ⟨cache, if places = List.range count then mapOutputs reset places
          else mapOutputs (reset.map fun _ => -1) places,
        if places = List.range count then rows else rows.map fun _ => outputRows cells batch,
        decodes⟩
      ⟨cells, batch.map fun entry => if entry.logits then some (visible cells entry.pos) else none,
        counted⟩ := by
  intro places reset rows index
  cases reserved with
  | true =>
      simp only [reset, rows, if_true, List.map_replicate, Option.map_some, ite_self]
      exact getLogitsIth_mapped _ _ _ index fits
  | false =>
      simp only [rows, Bool.false_eq_true, if_false, Option.map_none, ite_self]
      rw [llama_getLogitsIth, getLogitsIth_null (by rfl)]
      exact (congrArg (Option.map params.logits) (unanswered_of_none (unreserved rfl))).symm

end Ended

theorem decode_accepted (refines : context.Refines nCtx earlier model)
    (positive : 0 < params.nUbatch) (first : ∀ entry ∈ batch, entry.seqId = 0)
    (ordered : batch.Pairwise fun one other => one.pos < other.pos)
    (faulty : faults model.decodes = env.fails params.nUbatch context.decodes batch)
    (fits : batch.length ≤ params.nBatch) :
    Answers (LlamaContext.Refines nCtx earlier) (LlamaContext.llama params env)
      ((params.model nCtx).llama faults) context model
      (LlamaContext.decodeAccepted params env context batch)
      (if nCtx < model.cells.length + batch.length || faults model.decodes then
        .failure 1 { model with outputs := [], decodes := model.decodes + 1 }
      else .success {
        cells := model.cells ++ batch.map BatchToken.cell
        outputs := batch.map fun entry =>
          if entry.logits then some (visible (model.cells ++ batch.map BatchToken.cell) entry.pos)
          else none
        decodes := model.decodes + 1 }) := by
  have restored := refines.holds.underway.restore refines.holds
  have restoredSize := (restore_fields context.cache).2.2.1.trans refines.sized
  have next : context.decodes + 1 = earlier + (model.decodes + 1) := congrArg (· + 1) refines.counted
  have every : (batch.countP BatchToken.logits == batch.length) = true →
      ∀ entry ∈ batch, entry.logits = true := by
    intro all
    exact List.countP_eq_length.mp (by simpa using all)
  have ends := decodeUbatches_ends (batch.countP BatchToken.logits == batch.length)
    (env.status context.decodes) refines.holds positive every first ordered batch.length 0 0
    (Nat.zero_le _) (by omega) refines.holds.underway
  have start : Decoding.reached model.cells batch
      (batch.countP BatchToken.logits == batch.length) 0 context.cache =
      ⟨0, context.cache, .init batch (batch.countP BatchToken.logits == batch.length), []⟩ := rfl
  rw [completes_iff positive, refines.sized, start] at ends
  unfold LlamaContext.decodeAccepted
  simp only
  by_cases unreserved :
      (!env.reserved context.decodes && decide (0 < batch.countP BatchToken.logits)) = true
  · have fault : faults model.decodes = true := by
      rw [faulty, ComputeEnv.fails, unreserved, Bool.true_or]
    rw [if_pos unreserved, if_pos (by simp [fault])]
    exact .failure _ _ _ _ ⟨restored, restoredSize, next⟩
      fun _ => refused_logits false [] _ _ rfl
  · rw [if_neg unreserved]
    have faultIff : faults model.decodes = (List.range batch.length).any fun piece =>
        piece * params.nUbatch < batch.length && env.status context.decodes piece != .success := by
      rw [faulty, ComputeEnv.fails, Bool.not_eq_true _ |>.mp unreserved,
        Bool.false_or]
    rw [← faultIff] at ends
    rcases ends with ⟨⟨room, sound⟩, last, underway, same⟩ | ⟨refused, code, held, heldSize⟩
    · have accepted : (decide (nCtx < model.cells.length + batch.length) ||
          faults model.decodes) = false := by
        simp only [Bool.or_eq_false_iff, decide_eq_false_iff_not]
        exact ⟨by omega, sound⟩
      have committed := underway.commit refines.holds
      have committedSize := underway.sameSize.trans refines.sized
      simp only [accepted, Bool.false_eq_true, if_false, same, Decoding.reached, Sbatch.after,
        List.take_length, List.length_map, length_wanted, ne_eq, not_true_eq_false]
      rw [sortOutputs_ascending ((wanted batch 0).map Prod.snd, _) (wanted_ascending batch 0)]
      refine .success _ _ ⟨committed, committedSize, next⟩ (completed_logits fits ?_ _ _ _)
      intro none
      rw [none, Bool.not_false, Bool.true_and, decide_eq_true_eq] at unreserved
      exact List.countP_eq_zero.mp (Nat.eq_zero_of_not_pos unreserved)
    · have refusal : (decide (nCtx < model.cells.length + batch.length) ||
          faults model.decodes) = true := by
        by_contra accepted
        simp only [Bool.or_eq_true, decide_eq_true_eq, not_or, Bool.not_eq_true] at accepted
        exact refused ⟨by omega, accepted.2⟩
      simp only [refusal, if_true, if_pos code]
      exact .failure _ _ _ _ ⟨held, heldSize, next⟩ fun _ => refused_logits _ _ _ _ rfl

theorem llama_decode_refines (refines : context.Refines nCtx earlier model)
    (positive : 0 < params.nUbatch) (first : ∀ entry ∈ batch, entry.seqId = 0)
    (ordered : batch.Pairwise fun one other => one.pos < other.pos)
    (faulty : faults model.decodes = env.fails params.nUbatch context.decodes batch) :
    Answers (LlamaContext.Refines nCtx earlier) (LlamaContext.llama params env)
      ((params.model nCtx).llama faults) context model
      ((LlamaContext.llama params env).decode context batch)
      (((params.model nCtx).llama faults).decode model batch) := by
  have restored : LlamaContext.Refines nCtx earlier
      { context with decodes := context.decodes + 1, cache := context.cache.restore }
      { model with decodes := model.decodes + 1 } :=
    ⟨refines.holds.underway.restore refines.holds, by
      rw [(restore_fields context.cache).2.2.1, refines.sized], congrArg (· + 1) refines.counted⟩
  simp only [LlamaContext.llama, LlamaContext.decode, KvModel.llama, KvModel.decode,
    DecodeParams.model]
  by_cases empty : batch = []
  · rw [if_pos empty, if_pos empty]
    exact .failure _ _ _ _ ⟨refines.holds, refines.sized, congrArg (· + 1) refines.counted⟩ id
  · rw [if_neg empty, if_neg empty]
    by_cases invalid : (batch.any fun entry => !validToken params.nTokens entry.token) = true
    · rw [if_pos invalid, if_pos invalid]
      exact .threw _ _ _ restored id
    · rw [if_neg invalid, if_neg invalid]
      by_cases long : params.nBatch < batch.length
      · rw [if_pos long, if_pos long]
        exact .aborted
      · rw [if_neg long, if_neg long]
        exact decode_accepted refines positive first ordered faulty (Nat.le_of_not_lt long)

end Decode

theorem construct_holds (nCtx nBatch : Nat) {padding : Nat} (padded : 0 < padding) :
    (LlamaContext.construct nCtx nBatch padding).cache.Holds [] := by
  refine ⟨⟨construct_sound nCtx padding, ?_, ?_, ?_⟩, construct_since nCtx padding, padded⟩
  · exact Nat.zero_le _
  · rfl
  · exact Nat.le_refl 0

theorem llama_decode_refines_first :
    Answers (LlamaContext.Refines 4 0)
      (LlamaContext.llama ⟨2, 2, 1, fun _ _ => .negativeInfinity⟩
        ⟨fun _ => true, fun _ _ => .success⟩)
      ((DecodeParams.model ⟨2, 2, 1, fun _ _ => .negativeInfinity⟩ 4).llama fun _ => false)
      (.construct 4 2 2) (.withCells [])
      ((LlamaContext.llama ⟨2, 2, 1, fun _ _ => .negativeInfinity⟩
        ⟨fun _ => true, fun _ _ => .success⟩).decode (.construct 4 2 2)
          [⟨1, 0, 0, false⟩, ⟨1, 1, 0, true⟩])
      (((DecodeParams.model ⟨2, 2, 1, fun _ _ => .negativeInfinity⟩ 4).llama fun _ => false).decode
        (.withCells []) [⟨1, 0, 0, false⟩, ⟨1, 1, 0, true⟩]) :=
  llama_decode_refines ⟨construct_holds 4 2 (by decide : 0 < 2), rfl, rfl⟩ (by decide) (by simp)
    (by simp) rfl

end TextMaster
