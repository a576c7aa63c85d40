import TextMaster.GenerationLoop

/-!
Where the generation loop stops on a given stream of best tokens, against the rule it aims at:
the end of the text, three equal tokens, five tokens with an empty piece, the limit, or a failure.
-/

namespace TextMaster

structure FirstStop (stops : Nat → Prop) (count : Nat) : Prop where
  reached : stops count
  first : ∀ earlier < count, ¬ stops earlier

theorem firstStop_iff {stops intended : Nat → Prop} {count : Nat}
    (stopped : FirstStop stops count) :
    FirstStop intended count ↔
      (∀ wanted, intended wanted → ∃ actual ≤ wanted, stops actual) ∧
        ∀ actual, stops actual → ∃ wanted ≤ actual, intended wanted := by
  constructor
  · rintro ⟨reached, first⟩
    constructor
    · intro wanted meets
      exact ⟨count, Nat.le_of_not_lt fun early => first wanted early meets, stopped.reached⟩
    · intro actual meets
      exact ⟨count, Nat.le_of_not_lt fun early => stopped.first actual early meets, reached⟩
  · rintro ⟨covered, expected⟩
    have early : ∀ wanted < count, ¬ intended wanted := by
      intro wanted below meets
      obtain ⟨actual, before, stops⟩ := covered wanted meets
      exact stopped.first actual (by omega) stops
    obtain ⟨wanted, before, meets⟩ := expected count stopped.reached
    have same : wanted = count :=
      Nat.le_antisymm before (Nat.le_of_not_lt fun below => early wanted below meets)
    exact ⟨same ▸ meets, early⟩

section Stream

variable (vocab : Vocab) (stream : Nat → Token) (failure : Option Nat)

def streamTo (count : Nat) : List Token := (List.range count).map stream

def EndsThrice (count : Nat) : Prop :=
  3 ≤ count ∧ stream (count - 1) = stream (count - 2) ∧ stream (count - 2) = stream (count - 3)

def EndsFive (test : Token → Bool) (count : Nat) : Prop :=
  maxEmptyTokens ≤ count ∧ ∀ i < count, count ≤ i + maxEmptyTokens → test (stream i) = true

def TokenStop (fewest : Nat) (test : Token → Bool) (count : Nat) : Prop :=
  (∃ i, count = i + 1 ∧ stream i = vocab.eos) ∨
    (fewest ≤ count ∧ EndsThrice stream count) ∨ EndsFive stream test count

def Stops (fewest : Nat) (test : Token → Bool) (count : Nat) : Prop :=
  TokenStop vocab stream fewest test count ∨ count = maxResponseTokens ∨ failure = some count

/-- The rule as intended: `failure` counts the tokens in front of the failing step. -/
def IntendedStop : Nat → Prop :=
  Stops vocab stream failure 3 fun token => (fullPiece vocab token).isEmpty

/-- The rule as coded, with its size guard and its test on the returned length. -/
def CodedStop : Nat → Prop := Stops vocab stream failure 4 (emptyPiece vocab)

def StopsAsIntended (responseTokens : List Token) : Prop :=
  ∃ count, FirstStop (IntendedStop vocab stream failure) count ∧
    responseTokens = streamTo stream count

end Stream

section Lists

variable {stream : Nat → Token}

@[simp] theorem streamTo_length (count : Nat) : (streamTo stream count).length = count := by
  simp [streamTo]

theorem streamTo_succ (count : Nat) :
    streamTo stream (count + 1) = streamTo stream count ++ [stream count] := by
  rw [streamTo, List.range_succ, List.map_append]
  rfl

theorem streamTo_getElem? (stream : Nat → Token) {count i : Nat} (bound : i < count) :
    (streamTo stream count)[i]? = some (stream i) := by
  simp [streamTo, bound]

theorem repeatedTokens_streamTo (count : Nat) :
    repeatedTokens (streamTo stream count) = true ↔ 4 ≤ count ∧ EndsThrice stream count := by
  by_cases long : 3 < count
  · simp only [repeatedTokens, streamTo_length, long,
      streamTo_getElem? stream (show count - 1 < count by omega),
      streamTo_getElem? stream (show count - 2 < count by omega),
      streamTo_getElem? stream (show count - 3 < count by omega), EndsThrice]
    simp [Nat.le_of_lt long, Nat.succ_le_of_lt long]
  · simp only [repeatedTokens, streamTo_length, long]
    simp
    omega

theorem le_trailingRun_iff (stream : Nat → Token) (test : Token → Bool) (least count : Nat) :
    least ≤ trailingRun test (streamTo stream count) ↔
      least ≤ count ∧ ∀ i < count, count ≤ i + least → test (stream i) = true := by
  induction count generalizing least with
  | zero => simp [streamTo, trailingRun]
  | succ count ih =>
      rw [streamTo_succ, trailingRun_append]
      split
      · rename_i meets
        cases least with
        | zero => simp; omega
        | succ least =>
            rw [Nat.add_le_add_iff_right, ih]
            constructor
            · rintro ⟨fits, all⟩
              refine ⟨by omega, ?_⟩
              intro i below near
              by_cases last : i = count
              · rw [last]
                exact meets
              · exact all i (by omega) (by omega)
            · rintro ⟨fits, all⟩
              exact ⟨by omega, fun i below near => all i (by omega) (by omega)⟩
      · rename_i fails
        constructor
        · intro none
          refine ⟨by omega, fun i below near => ?_⟩
          omega
        · rintro ⟨fits, all⟩
          by_contra positive
          exact fails (all count (by omega) (by omega))

end Lists

section Loop

variable {Context : Type} {llama : Llama Context} {vocab : Vocab} {tokens : List Token}
  {stream : Nat → Token} {failure : Option Nat} {contexts : Nat → Context}

def StepFails (llama : Llama Context) (vocab : Vocab) (context : Context)
    (batch : List BatchToken) : Prop :=
  (∃ code after, llama.decode context batch = .failure code after) ∨
    ∃ after, llama.decode context batch = .success after ∧
      ∀ logits, llama.getLogitsIth after 0 = some logits → bestToken vocab logits = -1

/-- Behind these tokens the model yields this stream of best tokens, up to the failing step if
there is one. -/
structure Yields (llama : Llama Context) (vocab : Vocab) (tokens : List Token)
    (stream : Nat → Token) (failure : Option Nat) (contexts : Nat → Context) : Prop where
  answers : ∀ i, (∀ failed, failure = some failed → i < failed) →
    llama.decode (contexts i) (nextBatch tokens (streamTo stream i) i) =
        .success (contexts (i + 1)) ∧
      ∃ logits, llama.getLogitsIth (contexts (i + 1)) 0 = some logits ∧
        bestToken vocab logits = stream i ∧ stream i ≠ -1
  fails : ∀ i, failure = some i →
    StepFails llama vocab (contexts i) (nextBatch tokens (streamTo stream i) i)

structure OnStream (vocab : Vocab) (stream : Nat → Token) (failure : Option Nat)
    (contexts : Nat → Context) (i : Nat) (state : Generation Context) : Prop where
  context : state.context = contexts i
  produced : state.responseTokens = streamTo stream i
  books : Bookkeeping vocab i state
  running : ∀ earlier ≤ i, ¬ TokenStop vocab stream 4 (emptyPiece vocab) earlier
  sound : ∀ earlier < i, failure ≠ some earlier

theorem checkToken_exit {best : Token} {state next : Generation Context} {exit : Option Exit}
    (checked : checkToken vocab best state = (next, exit)) :
    exit ≠ none ↔ best = vocab.eos ∨ repeatedTokens state.responseTokens = true ∨
      (emptyPiece vocab best = true ∧ maxEmptyTokens ≤ state.consecutiveEmptyTokens + 1) := by
  cases checkToken_check checked with
  | endOfText ended => simp [ended]
  | repeated more same => simp [same]
  | lastEmpty more varied blank many => simp [emptyPiece, blank, many]
  | empty more varied blank few => simp [more, varied, Nat.not_le.mpr few]
  | filled more varied full => simp [more, varied, emptyPiece, full]

theorem tokenStop_succ_iff (i : Nat) :
    TokenStop vocab stream 4 (emptyPiece vocab) (i + 1) ↔
      stream i = vocab.eos ∨ repeatedTokens (streamTo stream (i + 1)) = true ∨
        (emptyPiece vocab (stream i) = true ∧
          maxEmptyTokens ≤ trailingRun (emptyPiece vocab) (streamTo stream i) + 1) := by
  have five := le_trailingRun_iff stream (emptyPiece vocab) maxEmptyTokens (i + 1)
  rw [streamTo_succ, trailingRun_append] at five
  rw [TokenStop, EndsFive, ← five, repeatedTokens_streamTo]
  by_cases empty : emptyPiece vocab (stream i) = true
  · simp [empty]
  · simp [empty, maxEmptyTokens]

theorem iteration_onStream {i : Nat} {state next : Generation Context} {exit : Option Exit}
    (yields : Yields llama vocab tokens stream failure contexts)
    (on : OnStream vocab stream failure contexts i state)
    (taken : iteration llama vocab tokens i state = (next, exit)) :
    (failure = some i ∧ exit ≠ none ∧ next.responseTokens = streamTo stream i) ∨
      (failure ≠ some i ∧ next.context = contexts (i + 1) ∧
        next.responseTokens = streamTo stream (i + 1) ∧
        (exit ≠ none ↔ TokenStop vocab stream 4 (emptyPiece vocab) (i + 1))) := by
  have stepped := iteration_step taken
  by_cases failing : failure = some i
  · refine Or.inl ⟨failing, ?_⟩
    have fails := yields.fails i failing
    rw [← on.context, ← on.produced] at fails
    rcases fails with ⟨code, after, failed⟩ | ⟨after, succeeded, missing⟩
    · cases stepped <;> simp_all [on.produced]
    · cases stepped <;> simp_all [on.produced]
  · refine Or.inr ⟨failing, ?_⟩
    have before : ∀ failed, failure = some failed → i < failed := by
      intro failed same
      by_contra reached
      by_cases now : failed = i
      · exact failing (now ▸ same)
      · exact on.sound failed (by omega) same
    obtain ⟨decoded, logits, answered, best, found⟩ := yields.answers i before
    rw [← on.context, ← on.produced] at decoded
    cases stepped with
    | chosen context other checked exit decodedTo logitsAre chosenOne chosen =>
        rw [decoded, DecodeResult.success.injEq] at decodedTo
        subst decodedTo
        rw [answered, Option.some.injEq] at logitsAre
        subst logitsAre
        rw [best] at chosen
        obtain ⟨sameContext, sameTokens, _⟩ := checkToken_frame chosen
        have grown : state.responseTokens ++ [stream i] = streamTo stream (i + 1) := by
          rw [on.produced, streamTo_succ]
        refine ⟨sameContext, sameTokens.trans grown, ?_⟩
        rw [checkToken_exit chosen, tokenStop_succ_iff, grown,
          Generation.opened_consecutiveEmptyTokens, on.books.counted, on.produced]
    | _ => simp_all

theorem onStream_continues {i : Nat} {state next : Generation Context}
    (yields : Yields llama vocab tokens stream failure contexts)
    (on : OnStream vocab stream failure contexts i state)
    (taken : iteration llama vocab tokens i state = (next, none)) :
    OnStream vocab stream failure contexts (i + 1) next := by
  rcases iteration_onStream yields on taken with ⟨_, impossible, _⟩ |
    ⟨sound, context, produced, stops⟩
  · exact absurd rfl impossible
  · refine ⟨context, produced, iteration_keeps_bookkeeping on.books taken, ?_, ?_⟩
    · intro earlier reached
      by_cases last : earlier = i + 1
      · rw [last]
        exact fun stopped => stops.mpr stopped rfl
      · exact on.running earlier (by omega)
    · intro earlier reached
      by_cases last : earlier = i
      · rwa [last]
      · exact on.sound earlier (by omega)

theorem generateTokens_stops {start : Generation Context}
    (yields : Yields llama vocab tokens stream failure contexts)
    (on : OnStream vocab stream failure contexts 0 start) :
    ∃ count, FirstStop (CodedStop vocab stream failure) count ∧
      (generateTokens llama vocab tokens maxResponseTokens 0 start).1.responseTokens =
        streamTo stream count := by
  refine generateTokens_rule_below llama vocab tokens (OnStream vocab stream failure contexts)
    (fun final _ => ∃ count, FirstStop (CodedStop vocab stream failure) count ∧
      final.responseTokens = streamTo stream count) maxResponseTokens ?_ ?_ ?_
    maxResponseTokens 0 start (Nat.zero_add _) on
  · exact fun i state next _ on taken => onStream_continues yields on taken
  · intro i state next exit below on taken
    have running : ∀ earlier < i, ¬ CodedStop vocab stream failure earlier := by
      rintro earlier reached (stopped | limit | failed)
      · exact on.running earlier (by omega) stopped
      · omega
      · exact on.sound earlier reached failed
    rcases iteration_onStream yields on taken with ⟨failing, _, produced⟩ |
      ⟨sound, _, produced, stops⟩
    · exact ⟨i, ⟨Or.inr (Or.inr failing), running⟩, produced⟩
    · refine ⟨i + 1, ⟨Or.inl (stops.mp (by simp)), ?_⟩, produced⟩
      intro earlier reached
      by_cases last : earlier = i
      · rintro (stopped | limit | failed)
        · exact on.running earlier (by omega) stopped
        · omega
        · exact sound (last ▸ failed)
      · exact running earlier (by omega)
  · intro last on
    refine ⟨maxResponseTokens, ⟨Or.inr (Or.inl rfl), ?_⟩, on.produced⟩
    rintro earlier reached (stopped | limit | failed)
    · exact on.running earlier (by omega) stopped
    · omega
    · exact on.sound earlier reached failed

theorem not_tokenStop_zero (fewest : Nat) (test : Token → Bool) :
    ¬ TokenStop vocab stream fewest test 0 := by
  rintro (⟨i, impossible, _⟩ | ⟨_, long, _⟩ | ⟨long, _⟩)
  · omega
  · omega
  · exact absurd long (by decide)

theorem processText_stops (fromStdString : List UInt8 → QString) {prompt : QString}
    {context : Context} (tokenized : promptTokens vocab prompt = some tokens)
    (prompted : llama.decode context (promptBatch tokens) = .success (contexts 0))
    (yields : Yields llama vocab tokens stream failure contexts) :
    ∃ count, FirstStop (CodedStop vocab stream failure) count ∧
      (processText llama fromStdString ⟨some context, some ⟨some vocab⟩⟩ prompt).responseTokens =
        streamTo stream count := by
  simp only [processText, tokenized, prompted, finishResponse]
  apply generateTokens_stops yields
  refine ⟨rfl, rfl, bookkeeping_initially vocab _ _, ?_, by omega⟩
  intro earlier none
  rw [Nat.le_zero.mp none]
  exact not_tokenStop_zero 4 _

end Loop

section Exactness

variable {Context : Type} {llama : Llama Context} {vocab : Vocab} {tokens : List Token}
  {stream : Nat → Token} {failure : Option Nat} {contexts : Nat → Context}

def TripledStart (vocab : Vocab) (stream : Nat → Token) (failure : Option Nat) : Prop :=
  stream 0 = stream 1 ∧ stream 1 = stream 2 ∧ stream 0 ≠ vocab.eos ∧
    ∀ failed, failure = some failed → 3 < failed

theorem emptyPiece_of_fullPiece {token : Token} (empty : (fullPiece vocab token).isEmpty = true) :
    emptyPiece vocab token = true := by
  rw [fullPiece] at empty
  split at empty
  · rename_i special
    simp [emptyPiece, llamaTokenToPiece, special]
  · rename_i plain
    simp_all [emptyPiece, llamaTokenToPiece]

theorem coded_covers_iff :
    (∀ wanted, IntendedStop vocab stream failure wanted →
        ∃ actual ≤ wanted, CodedStop vocab stream failure actual) ↔
      ¬ TripledStart vocab stream failure := by
  constructor
  · rintro covers ⟨first, second, more, late⟩
    obtain ⟨actual, before, stops⟩ := covers 3
      (Or.inl (Or.inr (Or.inl ⟨Nat.le_refl 3, Nat.le_refl 3, second.symm, first.symm⟩)))
    rcases stops with (⟨i, rfl, ended⟩ | ⟨long, _⟩ | ⟨long, _⟩) | limit | failed
    · have same : stream i = stream 0 := by
        obtain rfl | rfl | rfl : i = 0 ∨ i = 1 ∨ i = 2 := by omega
        · rfl
        · exact first.symm
        · exact (first.trans second).symm
      exact more (same ▸ ended)
    · omega
    · rw [maxEmptyTokens] at long
      omega
    · rw [maxResponseTokens] at limit
      omega
    · have later := late actual failed
      omega
  · rintro notTripled wanted ((ended | ⟨_, thrice⟩ | ⟨long, empty⟩) | limit | failed)
    · exact ⟨wanted, Nat.le_refl _, Or.inl (Or.inl ended)⟩
    · by_cases guarded : 4 ≤ wanted
      · exact ⟨wanted, Nat.le_refl _, Or.inl (Or.inr (Or.inl ⟨guarded, thrice⟩))⟩
      · obtain rfl : wanted = 3 := Nat.le_antisymm (by omega) thrice.1
        by_contra none
        apply notTripled
        refine ⟨thrice.2.2.symm, thrice.2.1.symm, ?_, ?_⟩
        · intro ended
          exact none ⟨1, by omega, Or.inl (Or.inl ⟨0, rfl, ended⟩)⟩
        · intro failed failing
          by_contra early
          exact none ⟨failed, by omega, Or.inr (Or.inr failing)⟩
    · have short : EndsFive stream (emptyPiece vocab) wanted :=
        ⟨long, fun i below near => emptyPiece_of_fullPiece (empty i below near)⟩
      exact ⟨wanted, Nat.le_refl _, Or.inl (Or.inr (Or.inr short))⟩
    · exact ⟨wanted, Nat.le_refl _, Or.inr (Or.inl limit)⟩
    · exact ⟨wanted, Nat.le_refl _, Or.inr (Or.inr failed)⟩

theorem intended_expects_iff :
    (∀ actual, CodedStop vocab stream failure actual →
        ∃ wanted ≤ actual, IntendedStop vocab stream failure wanted) ↔
      ∀ count, EndsFive stream (emptyPiece vocab) count →
        ∃ wanted ≤ count, IntendedStop vocab stream failure wanted := by
  constructor
  · exact fun expects count five => expects count (Or.inl (Or.inr (Or.inr five)))
  · rintro expects actual ((ended | ⟨long, thrice⟩ | five) | limit | failed)
    · exact ⟨actual, Nat.le_refl _, Or.inl (Or.inl ended)⟩
    · exact ⟨actual, Nat.le_refl _, Or.inl (Or.inr (Or.inl ⟨by omega, thrice⟩))⟩
    · exact expects actual five
    · exact ⟨actual, Nat.le_refl _, Or.inr (Or.inl limit)⟩
    · exact ⟨actual, Nat.le_refl _, Or.inr (Or.inr failed)⟩

theorem stops_as_intended_iff (fromStdString : List UInt8 → QString) {prompt : QString}
    {context : Context} (tokenized : promptTokens vocab prompt = some tokens)
    (prompted : llama.decode context (promptBatch tokens) = .success (contexts 0))
    (yields : Yields llama vocab tokens stream failure contexts) :
    StopsAsIntended vocab stream failure
        (processText llama fromStdString ⟨some context, some ⟨some vocab⟩⟩ prompt).responseTokens ↔
      ¬ TripledStart vocab stream failure ∧
        ∀ count, EndsFive stream (emptyPiece vocab) count →
          ∃ wanted ≤ count, IntendedStop vocab stream failure wanted := by
  obtain ⟨count, stopped, produced⟩ := processText_stops fromStdString tokenized prompted yields
  rw [← coded_covers_iff, ← intended_expects_iff, ← firstStop_iff stopped, StopsAsIntended,
    produced]
  constructor
  · rintro ⟨other, intended, same⟩
    have sizes := congrArg List.length same
    rw [streamTo_length, streamTo_length] at sizes
    rwa [sizes]
  · exact fun intended => ⟨count, intended, rfl⟩

end Exactness

section Echo

def echoLlama : Llama Nat where
  decode calls _ := .success (calls + 1)
  getLogitsIth _ _ := some fun token => if token = 1 then .one else .negativeInfinity

theorem echo_yields (tokens : List Token) :
    Yields echoLlama letterVocab tokens (fun _ => 1) none fun i => i + 1 where
  answers _ _ := ⟨rfl, _, rfl, by decide, by decide⟩
  fails _ failed := by cases failed

theorem echo_stops_iff :
    StopsAsIntended letterVocab (fun _ => 1) none
        (processText echoLlama fromLatin1 ⟨some 0, some ⟨some letterVocab⟩⟩ ['x']).responseTokens ↔
      ¬ TripledStart letterVocab (fun _ => 1) none ∧
        ∀ count, EndsFive (fun _ => 1) (emptyPiece letterVocab) count →
          ∃ wanted ≤ count, IntendedStop letterVocab (fun _ => 1) none wanted :=
  stops_as_intended_iff fromLatin1 (letterVocab_tokens ['x']) rfl (echo_yields _)

theorem echo_stops_late :
    Yields echoLlama letterVocab [1] (fun _ => 1) none (fun i => i + 1) ∧
      ¬ StopsAsIntended letterVocab (fun _ => 1) none
        (processText echoLlama fromLatin1 ⟨some 0, some ⟨some letterVocab⟩⟩
          ['x']).responseTokens := by
  refine ⟨echo_yields [1], ?_⟩
  have produced : (processText echoLlama fromLatin1 ⟨some 0, some ⟨some letterVocab⟩⟩
      ['x']).responseTokens = [1, 1, 1, 1] := rfl
  rw [produced]
  rintro ⟨count, ⟨_, first⟩, same⟩
  have four := congrArg List.length same
  rw [streamTo_length] at four
  exact first 3 (by rw [← four]; decide)
    (Or.inl (Or.inr (Or.inl ⟨Nat.le_refl 3, Nat.le_refl 3, rfl, rfl⟩)))

end Echo

end TextMaster
