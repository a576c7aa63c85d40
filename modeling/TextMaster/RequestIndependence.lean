import TextMaster.Processor

/-!
Whether an answer depends on the calls before it. `processText` starts every prompt at position
0 of sequence 0 but never empties the key-value cache, so the cells of an earlier prompt stay
visible to the next one.
-/

namespace TextMaster

namespace Processor

variable (processor : Processor)

/-- Either no earlier call has had its prompt decoded, or one of them has ended the process, or
the prompt is one that even an empty cache does not take. -/
def Separated (history : List Call) (prompt : QString) : Prop :=
  (∀ call ∈ history, ¬ processor.Decodes call.faults call.prompt) ∨
    (∃ call ∈ history, processor.Aborts call.prompt) ∨
    ¬ processor.Decodes noFaults prompt

def Independent (history : List Call) (prompt : QString) : Prop :=
  ∀ logits faults cells, Transition.run (processor.callStep logits) [] history = some cells →
    (processor.processText logits faults cells prompt).outcome =
      (processor.processText logits faults [] prompt).outcome

def Prints : Prop :=
  ∃ token, token < processor.vocab.nTokens ∧ ∀ count, 0 < count →
    cleanedResponse processor.fromStdString processor.vocab
        (List.replicate count (token : Token)) ≠
      cleanedResponse processor.fromStdString processor.vocab []

end Processor

section Probe

variable {processor : Processor} {token : Nat}

def probe (token : Nat) (cells : List Cell) (id : Nat) : Binary32 :=
  if zeroCells cells = 1 ∧ id = token then Binary32.one else Binary32.quietNaN

theorem bestToken_probe {vocab : Vocab} {seen : List Cell} (bound : token < vocab.nTokens)
    (single : zeroCells seen = 1) : bestToken vocab (probe token seen) = token := by
  apply bestToken_of_single vocab bound
  · rw [probe, if_pos ⟨single, rfl⟩]
    decide
  · intro id different
    rw [probe, if_neg (by simp [different])]
    decide

theorem bestToken_probe_stale {vocab : Vocab} {seen : List Cell}
    (stale : zeroCells seen ≠ 1) : bestToken vocab (probe token seen) = -1 := by
  apply bestToken_of_nan
  intro id
  rw [probe, if_neg (by simp [stale])]
  decide

theorem bestToken_of_decoded {vocab : Vocab} {tokens responseTokens : List Token} {i : Nat}
    {context after : KvContext} {logits : Nat → Binary32} (bound : token < vocab.nTokens)
    (nonempty : tokens ≠ []) (single : zeroCells context.cells = 1)
    (decoded : ((processor.model (probe token)).llama noFaults).decode context
      (nextBatch tokens responseTokens i) = .success after)
    (found : ((processor.model (probe token)).llama noFaults).getLogitsIth after 0 =
      some logits) : bestToken vocab logits = token := by
  obtain ⟨_, seen, sameSeen, answered⟩ := decode_nextBatch nonempty decoded
  rw [answered] at found
  cases found
  exact bestToken_probe bound (by rw [sameSeen, single])

theorem iteration_fresh {tokens : List Token} {i : Nat}
    {state next : Generation KvContext} {exit : Option Exit}
    (bound : token < processor.vocab.nTokens) (room : 1 ≤ processor.nBatch)
    (nonempty : tokens ≠ []) (single : zeroCells state.context.cells = 1)
    (valid : ∀ entry ∈ nextBatch tokens state.responseTokens i,
      validToken processor.vocab.nTokens entry.token = true)
    (taken : iteration ((processor.model (probe token)).llama noFaults) processor.vocab tokens i
      state = (next, exit)) :
    (next.responseTokens = state.responseTokens ∧ exit = some .decodeFailed ∧
      processor.nCtx ≤ state.context.cells.length) ∨
    (next.responseTokens = state.responseTokens ++ [(token : Token)] ∧
      zeroCells next.context.cells = 1 ∧
      ∀ stopped, exit = some stopped →
        stopped = .endOfText ∨ stopped = .repeatedTokens ∨ stopped = .emptyTokens) := by
  cases iteration_step taken with
  | aborted decoded => exact absurd decoded (nextBatch_not_aborted room)
  | threw what context decoded =>
      exact absurd decoded (decode_not_threw valid)
  | failed code context decoded =>
      refine Or.inl ⟨rfl, rfl, ?_⟩
      by_contra space
      obtain ⟨after, success⟩ := decode_of_accepted (processor.model (probe token)) noFaults
        state.context _ (by simp [nextBatch]) valid
        (by simpa [nextBatch, Processor.model] using room)
        (by simp only [nextBatch, List.length_singleton, Processor.model]; omega) rfl
      rw [success] at decoded
      contradiction
  | noLogits context decoded missing =>
      obtain ⟨_, seen, _, answered⟩ := decode_nextBatch nonempty decoded
      rw [answered] at missing
      contradiction
  | noBestToken context logits decoded found none =>
      rw [bestToken_of_decoded bound nonempty single decoded found] at none
      have negative : (token : Int) = -1 := none
      omega
  | chosen context logits checked exit decoded found some chosen =>
      obtain ⟨unchanged, _⟩ := decode_nextBatch nonempty decoded
      obtain ⟨sameContext, pushed, stops⟩ := checkToken_frame chosen
      rw [bestToken_of_decoded bound nonempty single decoded found] at pushed
      refine Or.inr ⟨pushed, ?_, stops⟩
      rw [Generation.call_context, sameContext, unchanged, single]

theorem iteration_stale {tokens : List Token} {state next : Generation KvContext}
    {exit : Option Exit} (room : 1 ≤ processor.nBatch) (nonempty : tokens ≠ [])
    (valid : ∀ token ∈ tokens, validToken processor.vocab.nTokens token = true)
    (stale : zeroCells state.context.cells ≠ 1)
    (taken : iteration ((processor.model (probe token)).llama noFaults) processor.vocab tokens 0
      state = (next, exit)) :
    next.responseTokens = state.responseTokens ∧
      (exit = some .decodeFailed ∨ exit = some .noBestToken) := by
  have validNow : ∀ entry ∈ nextBatch tokens state.responseTokens 0,
      validToken processor.vocab.nTokens entry.token = true :=
    nextBatch_valid (by simpa using nonempty) (by simpa using valid)
  cases iteration_step taken with
  | aborted decoded => exact absurd decoded (nextBatch_not_aborted room)
  | threw what context decoded =>
      exact absurd decoded (decode_not_threw validNow)
  | failed code context decoded => exact ⟨rfl, Or.inl rfl⟩
  | noLogits context decoded missing =>
      obtain ⟨_, seen, _, answered⟩ := decode_nextBatch nonempty decoded
      rw [answered] at missing
      contradiction
  | noBestToken => exact ⟨rfl, Or.inr rfl⟩
  | chosen context logits checked exit decoded found some chosen =>
      obtain ⟨_, seen, sameSeen, answered⟩ := decode_nextBatch nonempty decoded
      rw [answered] at found
      cases found
      exact absurd (bestToken_probe_stale (by rw [sameSeen]; exact stale)) some

theorem nextBatch_repeated {nTokens : Nat} {tokens : List Token} (bound : token < nTokens)
    (nonempty : tokens ≠ []) (valid : ∀ token ∈ tokens, validToken nTokens token = true)
    (i : Nat) :
    ∀ entry ∈ nextBatch tokens (List.replicate i (token : Token)) i,
      validToken nTokens entry.token = true := by
  by_cases first : i = 0
  · exact nextBatch_valid (by simpa [first] using nonempty) (by simpa [first] using valid)
  · apply nextBatch_valid
    · simp [first]
    · intro other member
      rw [if_neg first] at member
      rw [List.eq_of_mem_replicate member]
      simp [validToken, bound]

theorem generateTokens_fresh {tokens : List Token} {after : KvContext}
    (bound : token < processor.vocab.nTokens) (room : 1 ≤ processor.nBatch)
    (nonempty : tokens ≠ [])
    (valid : ∀ token ∈ tokens, validToken processor.vocab.nTokens token = true)
    (single : zeroCells after.cells = 1) (space : after.cells.length < processor.nCtx)
    (calls : List BatchCall) :
    let generated := generateTokens ((processor.model (probe token)).llama noFaults)
      processor.vocab tokens maxResponseTokens 0 ⟨after, [], 0, calls⟩
    (∃ count, 0 < count ∧ generated.1.responseTokens = List.replicate count (token : Token)) ∧
      generated.2 ≠ .aborted ∧ ∀ what, generated.2 ≠ .threw what := by
  refine generateTokens_rule ((processor.model (probe token)).llama noFaults) processor.vocab
    tokens
    (fun i state => zeroCells state.context.cells = 1 ∧
      state.responseTokens = List.replicate i (token : Token) ∧
      (i = 0 → state.context.cells.length < processor.nCtx))
    (fun state exit =>
      (∃ count, 0 < count ∧ state.responseTokens = List.replicate count (token : Token)) ∧
        exit ≠ .aborted ∧ ∀ what, exit ≠ .threw what)
    ?_ ?_ maxResponseTokens 0 ⟨after, [], 0, calls⟩ ?_ ⟨single, rfl, fun _ => space⟩
  · rintro i state next ⟨singleNow, repeated, _⟩ taken
    have validNow := nextBatch_repeated bound nonempty valid i
    rw [← repeated] at validNow
    rcases iteration_fresh bound room nonempty singleNow validNow taken with
      ⟨_, impossible, _⟩ | ⟨pushed, singleNext, _⟩
    · contradiction
    · exact ⟨singleNext, by rw [pushed, repeated, ← List.replicate_succ'], by omega⟩
  · rintro i state next exit ⟨singleNow, repeated, spaceNow⟩ taken
    have validNow := nextBatch_repeated bound nonempty valid i
    rw [← repeated] at validNow
    rcases iteration_fresh bound room nonempty singleNow validNow taken with
      ⟨same, stopped, full⟩ | ⟨pushed, _, stops⟩
    · have later : i ≠ 0 := fun first => absurd (spaceNow first) (by omega)
      cases stopped
      exact ⟨⟨i, by omega, by rw [same, repeated]⟩, by simp, by simp⟩
    · refine ⟨⟨i + 1, by omega, by rw [pushed, repeated, ← List.replicate_succ']⟩, ?_⟩
      rcases stops exit rfl with rfl | rfl | rfl <;> exact ⟨by simp, by simp⟩
  · rintro last ⟨_, repeated, _⟩
    exact ⟨⟨0 + maxResponseTokens, by decide, repeated⟩, by simp, by simp⟩

theorem finishResponse_returned {Context : Type} {fromStdString : List UInt8 → QString}
    {vocab : Vocab} {model : Model} {generated : Generation Context × Exit}
    (notAborted : generated.2 ≠ .aborted) (notThrown : ∀ what, generated.2 ≠ .threw what) :
    (finishResponse fromStdString vocab model generated).outcome =
      .returned (cleanedResponse fromStdString vocab generated.1.responseTokens) := by
  simp only [finishResponse]

theorem generateTokens_stale (token : Nat) {tokens : List Token} {after : KvContext}
    (room : 1 ≤ processor.nBatch) (nonempty : tokens ≠ [])
    (valid : ∀ token ∈ tokens, validToken processor.vocab.nTokens token = true)
    (stale : zeroCells after.cells ≠ 1) (calls : List BatchCall) :
    let generated := generateTokens ((processor.model (probe token)).llama noFaults)
      processor.vocab tokens maxResponseTokens 0 ⟨after, [], 0, calls⟩
    generated.1.responseTokens = [] ∧ generated.2 ≠ .aborted ∧
      ∀ what, generated.2 ≠ .threw what := by
  cases taken : iteration ((processor.model (probe token)).llama noFaults) processor.vocab tokens
      0 ⟨after, [], 0, calls⟩ with
  | mk next exit =>
      obtain ⟨same, stopped⟩ := iteration_stale room nonempty valid stale taken
      rcases stopped with rfl | rfl
      · rw [maxResponseTokens, generateTokens_stop taken]
        exact ⟨same, by simp, by simp⟩
      · rw [maxResponseTokens, generateTokens_stop taken]
        exact ⟨same, by simp, by simp⟩

theorem generateTokens_full (token : Nat) {tokens : List Token} {after : KvContext}
    (room : 1 ≤ processor.nBatch) (nonempty : tokens ≠ [])
    (valid : ∀ token ∈ tokens, validToken processor.vocab.nTokens token = true)
    (full : processor.nCtx ≤ after.cells.length) (calls : List BatchCall) :
    let generated := generateTokens ((processor.model (probe token)).llama noFaults)
      processor.vocab tokens maxResponseTokens 0 ⟨after, [], 0, calls⟩
    generated.1.responseTokens = [] ∧ generated.2 = .decodeFailed := by
  obtain ⟨left, decoded⟩ := decode_of_full (processor.model (probe token)) noFaults after
    (nextBatch tokens [] 0) (List.cons_ne_nil _ _)
    (nextBatch_valid (by simpa using nonempty) (by simpa [Processor.model] using valid))
    (by simpa [nextBatch, Processor.model] using room)
    (by simp only [nextBatch, List.length_singleton, Processor.model]; omega)
  cases taken : iteration ((processor.model (probe token)).llama noFaults) processor.vocab tokens
      0 ⟨after, [], 0, calls⟩ with
  | mk next exit =>
      have step := iteration_step taken
      cases step with
      | failed =>
          rw [maxResponseTokens, generateTokens_stop taken]
          exact ⟨rfl, rfl⟩
      | _ => simp_all

theorem cleanedResponse_nonempty (fromStdString : List UInt8 → QString) (vocab : Vocab)
    (responseTokens : List Token) : cleanedResponse fromStdString vocab responseTokens ≠ [] := by
  simp only [cleanedResponse]
  split
  · decide
  · rename_i visible
    simpa using visible

theorem processText_probe_ne {prompt : QString} {cells : List Cell}
    (bound : token < processor.vocab.nTokens)
    (prints : ∀ count, 0 < count →
      cleanedResponse processor.fromStdString processor.vocab
          (List.replicate count (token : Token)) ≠
        cleanedResponse processor.fromStdString processor.vocab [])
    (decodes : processor.Decodes noFaults prompt) (stale : 0 < zeroCells cells) :
    (processor.processText (probe token) noFaults cells prompt).outcome ≠
      (processor.processText (probe token) noFaults [] prompt).outcome := by
  obtain ⟨tokens, decodes⟩ := decodes
  have room : 1 ≤ processor.nBatch :=
    Nat.le_trans (List.length_pos_iff.mpr decodes.nonempty) decodes.fits
  have older : 0 < cells.length := Nat.lt_of_lt_of_le stale List.countP_le_length
  rcases processText_of_decodes (probe token) [] decodes with
    ⟨full, _⟩ | ⟨_, fresh, freshCells, freshResult⟩
  · have short := decodes.short
    simp only [List.length_nil] at full
    omega
  · rw [List.nil_append] at freshCells
    have single : zeroCells fresh.cells = 1 := by rw [freshCells, promptBatch_zero decodes.nonempty]
    have size : fresh.cells.length = tokens.length := by simp [freshCells]
    rw [freshResult]
    rcases processText_of_decodes (probe token) cells decodes with
      ⟨_, _, _, staleResult⟩ | ⟨space, old, oldCells, staleResult⟩
    · rw [staleResult]
      by_cases space : fresh.cells.length < processor.nCtx
      · obtain ⟨_, freshAborted, freshThrown⟩ := generateTokens_fresh bound room decodes.nonempty
          decodes.valid single space [.init 0, .decode 0]
        rw [finishResponse_returned freshAborted freshThrown]
        simpa using (cleanedResponse_nonempty _ _ _).symm
      · obtain ⟨_, failed⟩ := generateTokens_full token room decodes.nonempty
          decodes.valid (Nat.le_of_not_lt space) [.init 0, .decode 0]
        rw [finishResponse_returned (by simp [failed]) (by simp [failed])]
        simpa using (cleanedResponse_nonempty _ _ _).symm
    · have crowded : zeroCells old.cells ≠ 1 := by
        rw [oldCells, zeroCells_append, promptBatch_zero decodes.nonempty]
        omega
      obtain ⟨none, notAborted, notThrown⟩ := generateTokens_stale token room
        decodes.nonempty decodes.valid crowded [.init 0, .decode 0]
      obtain ⟨⟨count, positive, repeated⟩, freshAborted, freshThrown⟩ := generateTokens_fresh
        bound room decodes.nonempty decodes.valid single (by omega) [.init 0, .decode 0]
      rw [staleResult, finishResponse_returned notAborted notThrown, none,
        finishResponse_returned freshAborted freshThrown, repeated]
      simpa using (prints count positive).symm

end Probe

section Requests

theorem Processor.Decodes.noFaults {processor : Processor} {faults : Nat → Bool}
    {prompt : QString} (decodes : processor.Decodes faults prompt) :
    processor.Decodes noFaults prompt := by
  obtain ⟨tokens, decodes⟩ := decodes
  exact ⟨tokens, { decodes with sound := rfl }⟩

theorem independent_of_separated {processor : Processor} {history : List Call}
    {prompt : QString} (separated : processor.Separated history prompt) :
    processor.Independent history prompt := by
  intro logits faults cells ran
  rcases separated with refused | aborts | refused
  · rw [run_of_not_decodes refused ran]
  · rw [run_of_aborts aborts] at ran
    contradiction
  · exact (processText_of_not_decodes cells fun decodes => refused decodes.noFaults).1

theorem not_independent {processor : Processor} {history : List Call} {prompt : QString}
    (prints : processor.Prints)
    (decoded : ∃ call ∈ history, processor.Decodes call.faults call.prompt)
    (fits : ∀ call ∈ history, ¬ processor.Aborts call.prompt)
    (decodes : processor.Decodes noFaults prompt) :
    ¬ processor.Independent history prompt := by
  intro independent
  obtain ⟨token, bound, prints⟩ := prints
  obtain ⟨cells, ran⟩ := run_isSome (probe token) [] fits
  exact processText_probe_ne bound prints decodes (run_of_decodes decoded ran)
    (independent (probe token) noFaults cells ran)

/-- A prompt is answered as on a fresh processor whenever it is separated from the earlier calls,
and, for a vocabulary with a printing token, under no other condition. -/
theorem independent_iff_separated (processor : Processor) (history : List Call)
    (prompt : QString) :
    (processor.Separated history prompt → processor.Independent history prompt) ∧
      (processor.Prints →
        (processor.Independent history prompt ↔ processor.Separated history prompt)) := by
  refine ⟨independent_of_separated, fun prints => ⟨?_, independent_of_separated⟩⟩
  intro independent
  by_contra apart
  simp only [Processor.Separated, not_or, not_forall, not_not, not_exists, not_and] at apart
  obtain ⟨⟨call, member, decoded⟩, fits, decodes⟩ := apart
  exact not_independent prints ⟨call, member, decoded⟩ fits decodes independent

theorem letterProcessor_decodes {prompt : QString} (nonempty : toStdString prompt ≠ [])
    (short : (toStdString prompt).length ≤ 2048) : letterProcessor.Decodes noFaults prompt := by
  refine ⟨_, letterVocab_tokens prompt, by simpa using nonempty, ?_,
    by simpa [letterProcessor] using short, by simpa [letterProcessor] using short, rfl⟩
  intro token member
  rw [List.eq_of_mem_replicate member]
  rfl

theorem letterProcessor_fits {prompt : QString} (short : (toStdString prompt).length ≤ 2048) :
    ¬ letterProcessor.Aborts prompt := by
  rintro ⟨tokens, tokenized, _, exceeds⟩
  have known := (letterVocab_tokens prompt).symm.trans tokenized
  cases known
  simp only [List.length_replicate, letterProcessor] at exceeds
  omega

theorem letterProcessor_letters {count : Nat} (positive : 0 < count) :
    cleanedResponse letterProcessor.fromStdString letterProcessor.vocab
      (List.replicate count (1 : Token)) = List.replicate count 'a' := by
  have bytes : responseBytes letterProcessor.vocab (List.replicate count (1 : Token)) =
      List.replicate count 97 := by
    have piece : pieceBytes letterProcessor.vocab 1 = [97] := by decide
    simp [responseBytes, List.flatMap_replicate, piece]
  have letters : letterProcessor.fromStdString (List.replicate count 97) =
      List.replicate count 'a' := by simp [letterProcessor, fromLatin1]
  have visible : ∀ char ∈ List.replicate count 'a', isSpace char = false := by
    intro char member
    rw [List.eq_of_mem_replicate member]
    decide
  simp only [cleanedResponse, bytes, letters, trimmed_of_visible visible]
  rw [if_neg]
  simp only [List.isEmpty_iff, List.replicate_eq_nil_iff]
  omega

theorem letterProcessor_prints : letterProcessor.Prints := by
  refine ⟨1, by decide, ?_⟩
  intro count positive same
  have letters := (letterProcessor_letters positive).symm.trans same
  have failure : 'F' ∈ List.replicate count 'a' := by
    rw [letters]
    decide
  exact absurd (List.eq_of_mem_replicate failure) (by decide)

theorem letterProcessor_not_independent :
    ¬ letterProcessor.Independent [⟨.quiz, ['a'], noFaults⟩] ['a'] := by
  have prompt : (toStdString (formatPrompt .quiz ['a'])).length ≤ 2048 := by decide
  apply not_independent letterProcessor_prints
  · exact ⟨_, List.mem_singleton_self _, letterProcessor_decodes (by decide) prompt⟩
  · rintro call member
    rw [List.mem_singleton.mp member]
    exact letterProcessor_fits prompt
  · exact letterProcessor_decodes (by decide) (by decide)

theorem letterProcessor_independent_iff :
    letterProcessor.Prints ∧
      (letterProcessor.Independent [⟨.quiz, [], noFaults⟩] ['a'] ↔
        letterProcessor.Separated [⟨.quiz, [], noFaults⟩] ['a']) :=
  ⟨letterProcessor_prints,
    (independent_iff_separated letterProcessor [⟨.quiz, [], noFaults⟩] ['a']).2
      letterProcessor_prints⟩

end Requests

end TextMaster
