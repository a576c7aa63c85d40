import TextMaster.Processor
import TextMaster.Continuation

/-!
`processText` on an empty cache against greedy decoding. The loop feeds the last token of the
prompt once more, so what it continues is the prompt with that token repeated.
-/

namespace TextMaster

def placed (tokens : List Token) : List Cell := tokens.mapIdx fun pos token => ⟨pos, token⟩

/-- The lowest-numbered token whose logit no other exceeds. -/
def LowestMaximal (vocab : Vocab) (logits : Nat → Binary32) (token : Token) : Prop :=
  ∃ id < vocab.nTokens, token = (id : Int) ∧
    (∀ other < vocab.nTokens, (logits other).gt (logits id) = false) ∧
    ∀ other < id, (logits other).isNaN = false → (logits id).gt (logits other) = true

/-- Greedy decoding of the prompt: under every logits function each token of the response is the
best one after the prompt and the response so far. -/
def Processor.DecodesGreedily (processor : Processor) (prompt : QString) : Prop :=
  ∀ logits faults tokens, promptTokens processor.vocab prompt = some tokens →
    Continuation.Continues
      (fun before => LowestMaximal processor.vocab (logits (placed before))) tokens
      (processor.processText logits faults [] prompt).responseTokens

section Cells

@[simp] theorem placed_length (tokens : List Token) : (placed tokens).length = tokens.length := by
  simp [placed]

theorem placed_append_singleton (tokens : List Token) (token : Token) :
    placed (tokens ++ [token]) = placed tokens ++ [⟨tokens.length, token⟩] := by
  simp [placed, List.mapIdx_append]

theorem promptBatch_placed (tokens : List Token) :
    (promptBatch tokens).map BatchToken.cell = placed tokens := by
  apply List.ext_getElem?
  intro i
  simp [promptBatch, placed, Function.comp_def, BatchToken.cell]

theorem visible_placed (tokens : List Token) {pos : Nat} (whole : tokens.length ≤ pos + 1) :
    visible (placed tokens) pos = placed tokens := by
  rw [visible, List.filter_eq_self]
  intro cell member
  simp only [placed, List.mem_mapIdx] at member
  obtain ⟨i, bound, rfl⟩ := member
  simpa using (by omega : i ≤ pos)

theorem nextBatch_fed {tokens responseTokens : List Token} {last : Token} {i : Nat}
    (ends : tokens.getLast? = some last) (reached : responseTokens.length = i) :
    ∃ fed, nextBatch tokens responseTokens i = [⟨fed, tokens.length + i, 0, true⟩] ∧
      (last :: responseTokens).take i ++ [fed] = last :: responseTokens := by
  subst reached
  refine ⟨_, rfl, ?_⟩
  rcases List.eq_nil_or_concat responseTokens with rfl | ⟨early, token, rfl⟩
  · simp [List.getLastD_eq_getLast?, ends]
  · simp [List.getLastD_eq_getLast?]

theorem bestToken_lowestMaximal {vocab : Vocab} {logits : Nat → Binary32}
    (chosen : bestToken vocab logits ≠ -1) :
    LowestMaximal vocab logits (bestToken vocab logits) := by
  rcases bestToken_cases vocab logits with ⟨none, _⟩ | ⟨found, bound, same, _, largest, first⟩
  · exact absurd none chosen
  · exact ⟨found, bound, same, largest, first⟩

end Cells

section Loop

variable {processor : Processor} {logits : List Cell → Nat → Binary32} {faults : Nat → Bool}
  {tokens : List Token} {last : Token}

def Chooses (vocab : Vocab) (logits : List Cell → Nat → Binary32) (before : List Token)
    (token : Token) : Prop :=
  token = bestToken vocab (logits (placed before)) ∧ token ≠ -1

structure Doubled (processor : Processor) (logits : List Cell → Nat → Binary32)
    (tokens : List Token) (last : Token) (i : Nat) (state : Generation KvContext) : Prop where
  reached : state.responseTokens.length = i
  cells : state.context.cells = placed (tokens ++ (last :: state.responseTokens).take i)
  continues : Continuation.Continues (Chooses processor.vocab logits) (tokens ++ [last])
    state.responseTokens

theorem decode_doubled {i : Nat} {state : Generation KvContext} {context : KvContext}
    (ends : tokens.getLast? = some last)
    (doubled : Doubled processor logits tokens last i state)
    (decoded : ((processor.model logits).llama faults).decode state.context
      (nextBatch tokens state.responseTokens i) = .success context) :
    context.cells = placed (tokens ++ [last] ++ state.responseTokens) ∧
      tokens.length + i + 1 ≤ processor.nCtx ∧
      ∀ answer, ((processor.model logits).llama faults).getLogitsIth context 0 = some answer →
        answer = logits (placed (tokens ++ [last] ++ state.responseTokens)) := by
  obtain ⟨reached, before, _⟩ := doubled
  obtain ⟨fed, batch, whole⟩ := nextBatch_fed ends reached
  have size : (tokens ++ (last :: state.responseTokens).take i).length = tokens.length + i := by
    simp [reached]
  have joined : tokens ++ [last] ++ state.responseTokens =
      tokens ++ (last :: state.responseTokens).take i ++ [fed] := by
    rw [List.append_assoc, List.append_assoc, whole, List.singleton_append]
  have step := decode_step (processor.model logits) faults state.context
    (nextBatch tokens state.responseTokens i)
  rw [decoded, batch] at step
  cases step with
  | decoded _ _ room cells grown =>
      have after : cells = placed (tokens ++ [last] ++ state.responseTokens) := by
        rw [grown, before, joined, placed_append_singleton, size]
        rfl
      refine ⟨after, ?_, ?_⟩
      · rw [before, placed_length, size] at room
        exact room
      · intro answer answered
        have seen : visible cells (tokens.length + i) = cells := by
          rw [after]
          exact visible_placed _ (by simp [reached]; omega)
        simp only [KvModel.llama, Processor.model, List.map_cons, List.map_nil, if_true, seen,
          List.getElem?_cons_zero, Option.join_some, Option.map_some, Option.some.injEq]
          at answered
        rw [← answered, after]

theorem iteration_doubled {i : Nat} {state next : Generation KvContext} {exit : Option Exit}
    (ends : tokens.getLast? = some last)
    (doubled : Doubled processor logits tokens last i state)
    (taken : iteration ((processor.model logits).llama faults) processor.vocab tokens i state =
      (next, exit)) :
    (exit ≠ none ∧ next.responseTokens = state.responseTokens) ∨
      ∃ token, next.responseTokens = state.responseTokens ++ [token] ∧
        Chooses processor.vocab logits (tokens ++ [last] ++ state.responseTokens) token ∧
        next.context.cells = placed (tokens ++ [last] ++ state.responseTokens) ∧
        tokens.length + i + 1 ≤ processor.nCtx := by
  cases iteration_step taken with
  | chosen context answer checked exit decoded answered found chosen =>
      obtain ⟨cells, room, asked⟩ := decode_doubled ends doubled decoded
      obtain ⟨sameContext, sameTokens, _⟩ := checkToken_frame chosen
      have best := asked answer answered
      subst best
      refine Or.inr ⟨_, sameTokens, ⟨rfl, found⟩, ?_, room⟩
      rw [Generation.call_context, sameContext, cells]
  | _ => exact Or.inl ⟨by simp, rfl⟩

theorem iteration_keeps_doubled {i : Nat} {state next : Generation KvContext}
    (ends : tokens.getLast? = some last)
    (doubled : Doubled processor logits tokens last i state)
    (taken : iteration ((processor.model logits).llama faults) processor.vocab tokens i state =
      (next, none)) : Doubled processor logits tokens last (i + 1) next := by
  rcases iteration_doubled ends doubled taken with ⟨impossible, _⟩ |
    ⟨token, grown, chosen, cells, _⟩
  · contradiction
  · refine ⟨?_, ?_, ?_⟩
    · rw [grown, List.length_append, doubled.reached, List.length_singleton]
    · rw [cells, grown, List.append_assoc, List.singleton_append]
      have kept : (last :: (state.responseTokens ++ [token])).take (i + 1) =
          last :: state.responseTokens := by
        rw [List.take_succ_cons, ← doubled.reached, List.take_left]
      rw [kept]
    · rw [grown]
      exact Continuation.continues_append_singleton.mpr ⟨doubled.continues, chosen⟩

theorem generateTokens_doubled (ends : tokens.getLast? = some last)
    {state : Generation KvContext} (doubled : Doubled processor logits tokens last 0 state)
    (remaining : Nat) :
    let final := (generateTokens ((processor.model logits).llama faults) processor.vocab tokens
      remaining 0 state).1
    Continuation.Continues (Chooses processor.vocab logits) (tokens ++ [last])
        final.responseTokens ∧
      (final.responseTokens ≠ [] → tokens.length + 1 ≤ processor.nCtx) := by
  let response (state : Generation KvContext) : Prop :=
    Continuation.Continues (Chooses processor.vocab logits) (tokens ++ [last])
        state.responseTokens ∧
      (state.responseTokens ≠ [] → tokens.length + 1 ≤ processor.nCtx)
  refine generateTokens_rule ((processor.model logits).llama faults) processor.vocab tokens
    (fun i state => Doubled processor logits tokens last i state ∧ response state)
    (fun final _ => response final) ?_ ?_ remaining 0 state (fun _ holds => holds.2)
    ⟨doubled, doubled.continues, ?_⟩
  · rintro i current next ⟨before, generated⟩ taken
    have after := iteration_keeps_doubled ends before taken
    rcases iteration_doubled ends before taken with ⟨impossible, _⟩ | ⟨_, _, _, _, room⟩
    · contradiction
    · exact ⟨after, after.continues, fun _ => by omega⟩
  · rintro i current next exit ⟨before, generated⟩ taken
    rcases iteration_doubled ends before taken with ⟨_, same⟩ | ⟨token, grown, chosen, _, room⟩
    · simpa only [response, same] using generated
    · refine ⟨?_, fun _ => by omega⟩
      rw [grown]
      exact Continuation.continues_append_singleton.mpr ⟨before.continues, chosen⟩
  · intro some
    exact absurd (List.length_eq_zero_iff.mp doubled.reached) some

theorem processText_doubled (logits : List Cell → Nat → Binary32) {prompt : QString}
    (decodes : processor.DecodesAs faults prompt tokens) (ends : tokens.getLast? = some last) :
    let response := (processor.processText logits faults [] prompt).responseTokens
    Continuation.Continues (Chooses processor.vocab logits) (tokens ++ [last]) response ∧
      (response ≠ [] → tokens.length + 1 ≤ processor.nCtx) := by
  rcases processText_of_decodes logits [] decodes with ⟨full, _⟩ | ⟨_, after, prompted, result⟩
  · have short := decodes.short
    rw [List.length_nil] at full
    omega
  · rw [result]
    refine generateTokens_doubled ends ⟨rfl, ?_, Continuation.Continues.nil⟩ maxResponseTokens
    simpa [promptBatch_placed] using prompted

theorem response_eq_continuation (logits : List Cell → Nat → Binary32) {prompt : QString}
    (decodes : processor.DecodesAs faults prompt tokens) (ends : tokens.getLast? = some last) :
    let response := (processor.processText logits faults [] prompt).responseTokens
    response = Continuation.continuation
      (fun before => bestToken processor.vocab (logits (placed before))) (tokens ++ [last])
      response.length :=
  Continuation.eq_continuation _
    ((processText_doubled logits decodes ends).1.imp fun _ _ chosen => chosen.1)

end Loop

section Response

variable {Context : Type} {llama : Llama Context} {vocab : Vocab} {tokens : List Token}

theorem generateTokens_grows (llama : Llama Context) (vocab : Vocab) (tokens : List Token)
    (remaining i : Nat) (state : Generation Context) :
    ∃ extra, (generateTokens llama vocab tokens remaining i state).1.responseTokens =
      state.responseTokens ++ extra := by
  have grows : ∀ i (current next : Generation Context) exit,
      iteration llama vocab tokens i current = (next, exit) →
        ∃ extra, next.responseTokens = current.responseTokens ++ extra := by
    intro i current next exit taken
    cases iteration_step taken with
    | chosen context answer checked exit decoded answered found chosen =>
        exact ⟨_, (checkToken_frame chosen).2.1⟩
    | _ => exact ⟨[], (List.append_nil _).symm⟩
  refine generateTokens_rule llama vocab tokens
    (fun _ current => ∃ extra, current.responseTokens = state.responseTokens ++ extra)
    (fun final _ => ∃ extra, final.responseTokens = state.responseTokens ++ extra)
    ?_ ?_ remaining i state (fun _ grown => grown) ⟨[], (List.append_nil _).symm⟩
  · rintro j current next ⟨extra, grown⟩ taken
    obtain ⟨more, added⟩ := grows j current next none taken
    exact ⟨extra ++ more, by rw [added, grown, List.append_assoc]⟩
  · rintro j current next exit ⟨extra, grown⟩ taken
    obtain ⟨more, added⟩ := grows j current next (some exit) taken
    exact ⟨extra ++ more, by rw [added, grown, List.append_assoc]⟩

theorem generateTokens_responds {remaining i : Nat} {state : Generation Context}
    {context : Context} {answer : Nat → Binary32}
    (decoded : llama.decode state.context (nextBatch tokens state.responseTokens i) =
      .success context)
    (answered : llama.getLogitsIth context 0 = some answer)
    (found : bestToken vocab answer ≠ -1) :
    (generateTokens llama vocab tokens (remaining + 1) i state).1.responseTokens ≠ [] := by
  cases taken : iteration llama vocab tokens i state with
  | mk next exit =>
      have pushed : next.responseTokens ≠ [] := by
        cases iteration_step taken with
        | chosen context answer checked exit decoded answered found chosen =>
            rw [Generation.call_responseTokens, (checkToken_frame chosen).2.1]
            simp
        | _ => simp_all
      cases exit with
      | some exit => rwa [generateTokens_stop taken]
      | none =>
          rw [generateTokens_continue taken]
          obtain ⟨extra, grown⟩ := generateTokens_grows llama vocab tokens remaining (i + 1) next
          rw [grown]
          exact List.append_ne_nil_of_left_ne_nil pushed extra

end Response

section Exactness

variable {processor : Processor} {tokens : List Token} {last : Token} {prompt : QString}

theorem processText_responds (logits : List Cell → Nat → Binary32)
    (decodes : processor.DecodesAs noFaults prompt tokens)
    (ends : tokens.getLast? = some last) (room : tokens.length + 1 ≤ processor.nCtx)
    (found : bestToken processor.vocab (logits (placed (tokens ++ [last]))) ≠ -1) :
    (processor.processText logits noFaults [] prompt).responseTokens ≠ [] := by
  rcases processText_of_decodes logits [] decodes with ⟨full, _⟩ | ⟨_, after, prompted, result⟩
  · rw [List.length_nil] at full
    omega
  · rw [List.nil_append, promptBatch_placed] at prompted
    have positive := List.length_pos_iff.mpr decodes.nonempty
    have fits := decodes.fits
    obtain ⟨context, decoded⟩ := decode_of_accepted (processor.model logits) noFaults after
      (nextBatch tokens [] 0) (List.cons_ne_nil _ _)
      (nextBatch_valid (by simpa using decodes.nonempty)
        (by simpa [Processor.model] using decodes.valid))
      (by simp only [nextBatch, List.length_singleton, Processor.model]; omega)
      (by rw [prompted]; simpa [nextBatch, Processor.model] using room) rfl
    obtain ⟨_, seen, _, answered⟩ := decode_nextBatch decodes.nonempty decoded
    have fresh : Doubled processor logits tokens last 0
        ⟨after, [], 0, [.init 0, .decode 0]⟩ :=
      ⟨rfl, by simpa using prompted, Continuation.Continues.nil⟩
    have asked := (decode_doubled ends fresh decoded).2.2 _ answered
    rw [List.append_nil] at asked
    rw [← asked] at found
    rw [result]
    exact generateTokens_responds decoded answered found

def favour (token id : Nat) : Binary32 :=
  if id = token then Binary32.one else Binary32.negativeInfinity

theorem bestToken_favour {vocab : Vocab} {token : Nat} (bound : token < vocab.nTokens) :
    bestToken vocab (favour token) = token := by
  rcases bestToken_cases vocab (favour token) with ⟨_, none⟩ | ⟨found, _, same, above, _⟩
  · have impossible := none token bound
    rw [favour, if_pos rfl] at impossible
    exact absurd impossible (by decide)
  · by_cases equal : found = token
    · rw [same, equal]
    · rw [favour, if_neg equal] at above
      exact absurd above (by decide)

theorem lowestMaximal_favour {vocab : Vocab} {token : Nat} {other : Token}
    (bound : token < vocab.nTokens) (lowest : LowestMaximal vocab (favour token) other) :
    other = token := by
  obtain ⟨id, _, rfl, largest, _⟩ := lowest
  by_cases equal : id = token
  · rw [equal]
  · have impossible := largest token bound
    rw [favour, favour, if_pos rfl, if_neg equal] at impossible
    exact absurd impossible (by decide)

def contrast (tokens : List Token) (cells : List Cell) : Nat → Binary32 :=
  favour (if cells = placed tokens then 0 else 1)

theorem contrast_not_greedy (decodes : processor.DecodesAs noFaults prompt tokens)
    (room : tokens.length + 1 ≤ processor.nCtx) (several : 2 ≤ processor.vocab.nTokens) :
    ¬ Continuation.Continues
      (fun before => LowestMaximal processor.vocab (contrast tokens (placed before))) tokens
      (processor.processText (contrast tokens) noFaults [] prompt).responseTokens := by
  intro greedy
  have ends := List.getLast?_eq_some_getLast decodes.nonempty
  have longer : placed (tokens ++ [tokens.getLast decodes.nonempty]) ≠ placed tokens := by
    intro same
    have sizes := congrArg List.length same
    simp at sizes
  have doubled : bestToken processor.vocab
      (contrast tokens (placed (tokens ++ [tokens.getLast decodes.nonempty]))) = (1 : Nat) := by
    rw [contrast, if_neg longer]
    exact bestToken_favour (by omega)
  have responds := processText_responds (contrast tokens) decodes ends room
    (by rw [doubled]; decide)
  obtain ⟨first, rest, response⟩ := List.exists_cons_of_ne_nil responds
  have chosen := (processText_doubled (contrast tokens) decodes ends).1 0 first
    (by simp [response])
  have wanted := greedy 0 first (by simp [response])
  simp only [List.take_zero, List.append_nil] at chosen wanted
  rw [contrast, if_pos rfl] at wanted
  have zero := lowestMaximal_favour (by omega) wanted
  rw [chosen.1, doubled] at zero
  exact absurd zero (by decide)

/-- The response is that of greedy decoding, under all logits, exactly if no token is generated
from the prompt or there is only one token to choose. -/
theorem decodesGreedily_iff (processor : Processor) (prompt : QString) :
    processor.DecodesGreedily prompt ↔
      ¬ ∃ tokens, processor.DecodesAs noFaults prompt tokens ∧
        tokens.length + 1 ≤ processor.nCtx ∧ 2 ≤ processor.vocab.nTokens := by
  constructor
  · rintro greedy ⟨tokens, decodes, room, several⟩
    exact contrast_not_greedy decodes room several
      (greedy (contrast tokens) noFaults tokens decodes.tokenized)
  · intro excluded logits faults tokens tokenized
    by_cases decodes : processor.Decodes faults prompt
    · obtain ⟨other, decodes⟩ := decodes
      have same : other = tokens := by
        have read := decodes.tokenized
        rw [tokenized, Option.some.injEq] at read
        exact read.symm
      subst other
      obtain ⟨continues, room⟩ := processText_doubled logits decodes
        (List.getLast?_eq_some_getLast decodes.nonempty)
      have single : (processor.processText logits faults [] prompt).responseTokens ≠ [] →
          processor.vocab.nTokens < 2 := by
        intro responds
        by_contra several
        exact excluded ⟨tokens, { decodes with sound := rfl }, room responds, by omega⟩
      intro i token found
      obtain ⟨same, chosen⟩ := continues i token found
      have few := single (by rintro empty; simp [empty] at found)
      rw [same] at chosen
      obtain ⟨id, bound, number, _⟩ := bestToken_lowestMaximal chosen
      have zero : id = 0 := by omega
      subst id
      refine ⟨0, bound, by rw [same, number], ?_, by omega⟩
      intro other below
      have only : other = 0 := by omega
      rw [only]
      exact Binary32.gt_self _
    · obtain ⟨_, ends⟩ := processText_refused logits decodes
      obtain ⟨_, _, _, _, result⟩ := ends []
      rw [result]
      exact Continuation.Continues.nil

theorem letter_prompt_not_greedy : ¬ letterProcessor.DecodesGreedily ['a'] := by
  intro greedy
  have decodes : letterProcessor.DecodesAs noFaults ['a'] [1] :=
    ⟨by rw [letterProcessor, letterVocab_tokens]; rfl, by simp, by decide, by decide, by decide, rfl⟩
  exact contrast_not_greedy decodes (by decide) (by decide)
    (greedy (contrast [1]) noFaults [1] decodes.tokenized)

end Exactness

end TextMaster
