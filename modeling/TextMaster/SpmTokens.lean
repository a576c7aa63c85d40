import Mathlib.Data.List.Nodup
import TextMaster.PromptBatch
import TextMaster.SpmGreedy

/-!
The whole SPM tokenizer: the fragments of a text spell it, and with a token for every byte each
fragment becomes tokens that cover it, so that the tokenizer is one of those that `processText` is
verified with.
-/

namespace TextMaster

def SpmVocab.Complete (vocab : SpmVocab) : Prop := ∀ byte, (vocab.byteToToken byte).isSome = true

def SpmVocab.Within (vocab : SpmVocab) (limit : Nat) : Prop :=
  1 ≤ limit ∧ ∀ data ∈ vocab.tokens, data.text.length ≤ limit

def SpmVocab.Unstripped (vocab : SpmVocab) : Prop :=
  ∀ data ∈ vocab.tokens, data.lstrip = false ∧ data.rstrip = false

structure Counted (vocab : SpmVocab) (limit bytes : Nat) (tokens : List Nat) : Prop where
  few : bytes ≤ limit * tokens.length
  valid : ∀ token ∈ tokens, token < vocab.tokens.length

namespace Fragment

def spelled (vocab : SpmVocab) : Fragment → List UInt8
  | .token id => vocab.tokens[id]?.elim [] TokenData.text
  | .rawText text => text

def Sound (vocab : SpmVocab) : Fragment → Prop
  | .token id => id < vocab.tokens.length
  | .rawText text => text ≠ []

end Fragment

variable {vocab : SpmVocab} {limit bytes more : Nat} {tokens others : List Nat}
  {text search : List UInt8} {pop : Pop}

section Lookup

theorem textToToken_spec {token : Nat} (found : vocab.textToToken text = some token) :
    ∃ data, vocab.tokens[token]? = some data ∧ data.text = text := by
  obtain ⟨inside, same, _⟩ := List.findIdx?_eq_some_iff_getElem.mp found
  exact ⟨vocab.tokens[token], List.getElem?_eq_getElem inside, by simpa using same⟩

theorem textToToken_lt {token : Nat} (found : vocab.textToToken text = some token) :
    token < vocab.tokens.length := by
  obtain ⟨data, there, _⟩ := textToToken_spec found
  exact (List.getElem?_eq_some_iff.mp there).1

theorem byteToToken_lt {byte : UInt8} {token : Nat} (found : vocab.byteToToken byte = some token) :
    token < vocab.tokens.length := by
  rw [SpmVocab.byteToToken, Option.or_eq_some_iff] at found
  rcases found with named | ⟨_, bare⟩
  · exact textToToken_lt named
  · exact textToToken_lt bare

end Lookup

section Replace

theorem findText_spec {found : Nat} (there : findText search text = some found) :
    text = text.take found ++ search ++ text.drop (found + search.length) := by
  induction text generalizing found with
  | nil => simp [findText] at there
  | cons byte rest ih =>
      rw [findText] at there
      by_cases starts : search.isPrefixOf (byte :: rest) = true
      · rw [if_pos starts, Option.some.injEq] at there
        subst there
        obtain ⟨tail, same⟩ := List.isPrefixOf_iff_prefix.mp starts
        rw [← same]
        simp
      · rw [if_neg starts, Option.map_eq_some_iff] at there
        obtain ⟨earlier, later, rfl⟩ := there
        have split := ih later
        rw [Nat.add_right_comm, List.take_succ_cons, List.drop_succ_cons, List.cons_append,
          List.cons_append, ← split]

theorem escape_eq (text : List UInt8) :
    llamaEscapeWhitespace text = text.flatMap fun byte => if byte = 32 then spaceMark else [byte] := by
  rw [llamaEscapeWhitespace]
  induction text with
  | nil => rfl
  | cons byte rest ih =>
      rw [List.length_cons, replaceAll, List.flatMap_cons]
      by_cases space : byte = 32
      · subst space
        simpa using ih
      · have other : List.isPrefixOf [32] (byte :: rest) = false := by
          simpa [List.isPrefixOf] using fun same : 32 = byte => space same.symm
        rw [if_neg (by simp [other]), if_neg space, ih]
        rfl

theorem length_le_escape (text : List UInt8) : text.length ≤ (llamaEscapeWhitespace text).length := by
  rw [escape_eq]
  induction text with
  | nil => exact Nat.le_refl 0
  | cons byte rest ih =>
      rw [List.flatMap_cons, List.length_append, List.length_cons]
      split
      · rw [show spaceMark.length = 3 from rfl]
        omega
      · rw [List.length_singleton]
        omega

end Replace

section Partition

variable {data : TokenData} {id fuel : Nat}

theorem ofText_spelled (text : List UInt8) :
    ((Fragment.ofText text).map (Fragment.spelled vocab)).flatten = text := by
  unfold Fragment.ofText
  by_cases empty : text = []
  · simp [empty]
  · simp [empty, Fragment.spelled]

theorem ofText_sound (text : List UInt8) :
    ∀ fragment ∈ Fragment.ofText text, fragment.Sound vocab := by
  intro fragment member
  unfold Fragment.ofText at member
  split at member
  · simp at member
  · next nonempty =>
      rw [List.mem_singleton.mp member]
      exact nonempty

theorem partitionText_spelled (there : vocab.tokens[id]? = some data)
    (keepsLeft : data.lstrip = false) (keepsRight : data.rstrip = false) (fuel : Nat)
    (text : List UInt8) :
    ((data.partitionText id fuel text).map (Fragment.spelled vocab)).flatten = text ∧
      ∀ fragment ∈ data.partitionText id fuel text, fragment.Sound vocab := by
  induction fuel generalizing text with
  | zero => exact ⟨ofText_spelled text, ofText_sound text⟩
  | succ fuel ih =>
      rw [TokenData.partitionText]
      cases found : findText data.text text with
      | none => exact ⟨ofText_spelled text, ofText_sound text⟩
      | some place =>
          obtain ⟨later, sound⟩ := ih (text.drop (place + data.text.length))
          simp only [keepsLeft, keepsRight, Bool.false_eq_true, if_false]
          constructor
          · rw [List.map_append, List.flatten_append, ofText_spelled, List.map_cons,
              List.flatten_cons, later]
            calc text.take place ++ (Fragment.spelled vocab (.token id) ++
                  text.drop (place + data.text.length))
                = text.take place ++ data.text ++ text.drop (place + data.text.length) := by
                  rw [Fragment.spelled, there, Option.elim_some, List.append_assoc]
              _ = text := (findText_spec found).symm
          · intro fragment member
            rcases List.mem_append.mp member with left | behind
            · exact ofText_sound _ fragment left
            · rcases List.mem_cons.mp behind with rfl | right
              · exact (List.getElem?_eq_some_iff.mp there).1
              · exact sound fragment right

theorem partitionFragment_spelled (unstripped : vocab.Unstripped)
    (there : vocab.tokens[id]? = some data) {fragment : Fragment} (sound : fragment.Sound vocab) :
    ((data.partitionFragment id fragment).map (Fragment.spelled vocab)).flatten =
        fragment.spelled vocab ∧
      ∀ part ∈ data.partitionFragment id fragment, part.Sound vocab := by
  cases fragment with
  | token other =>
      constructor
      · simp [TokenData.partitionFragment]
      · intro part member
        rw [List.mem_singleton.mp member]
        exact sound
  | rawText text =>
      obtain ⟨keepsLeft, keepsRight⟩ := unstripped data (List.mem_of_getElem? there)
      exact partitionText_spelled there keepsLeft keepsRight text.length text

theorem flatMap_spelled (unstripped : vocab.Unstripped) (there : vocab.tokens[id]? = some data)
    {buffer : List Fragment} (sound : ∀ fragment ∈ buffer, fragment.Sound vocab) :
    ((buffer.flatMap (data.partitionFragment id)).map (Fragment.spelled vocab)).flatten =
        (buffer.map (Fragment.spelled vocab)).flatten ∧
      ∀ part ∈ buffer.flatMap (data.partitionFragment id), part.Sound vocab := by
  constructor
  · induction buffer with
    | nil => rfl
    | cons fragment rest ih =>
        have later := ih fun other member => sound other (List.mem_cons_of_mem _ member)
        rw [List.flatMap_cons, List.map_append, List.flatten_append, List.map_cons,
          List.flatten_cons, later,
          (partitionFragment_spelled unstripped there (sound fragment List.mem_cons_self)).1]
  · intro part member
    obtain ⟨fragment, inside, partIn⟩ := List.mem_flatMap.mp member
    exact (partitionFragment_spelled unstripped there (sound fragment inside)).2 part partIn

theorem tokenizerStPartition_spelled (unstripped : vocab.Unstripped) (parseSpecial : Bool)
    {buffer : List Fragment} (sound : ∀ fragment ∈ buffer, fragment.Sound vocab) :
    ((vocab.tokenizerStPartition parseSpecial buffer).map (Fragment.spelled vocab)).flatten =
        (buffer.map (Fragment.spelled vocab)).flatten ∧
      ∀ part ∈ vocab.tokenizerStPartition parseSpecial buffer, part.Sound vocab := by
  unfold SpmVocab.tokenizerStPartition
  induction vocab.specialTokens generalizing buffer with
  | nil => exact ⟨rfl, sound⟩
  | cons id rest ih =>
      rw [List.foldl_cons]
      cases there : vocab.tokens[id]? with
      | none => exact ih sound
      | some data =>
          simp only
          split
          · exact ih sound
          · obtain ⟨same, parts⟩ := flatMap_spelled unstripped there sound
            obtain ⟨whole, last⟩ := ih parts
            exact ⟨whole.trans same, last⟩

end Partition

section Count

theorem Counted.nil : Counted vocab limit 0 [] := ⟨Nat.zero_le _, by simp⟩

theorem Counted.append (first : Counted vocab limit bytes tokens)
    (second : Counted vocab limit more others) :
    Counted vocab limit (bytes + more) (tokens ++ others) := by
  refine ⟨?_, fun token member => ?_⟩
  · rw [List.length_append, Nat.mul_add]
    exact Nat.add_le_add first.few second.few
  · rcases List.mem_append.mp member with early | late
    · exact first.valid token early
    · exact second.valid token late

theorem Counted.mono (counted : Counted vocab limit bytes tokens) (fewer : more ≤ bytes) :
    Counted vocab limit more tokens :=
  ⟨Nat.le_trans fewer counted.few, counted.valid⟩

theorem Counted.one {token : Nat} {data : TokenData} (within : vocab.Within limit)
    (there : vocab.tokens[token]? = some data) :
    Counted vocab limit data.text.length [token] := by
  refine ⟨?_, fun other member => ?_⟩
  · rw [List.length_singleton, Nat.mul_one]
    exact within.2 data (List.mem_of_getElem? there)
  · rw [List.mem_singleton.mp member]
    exact (List.getElem?_eq_some_iff.mp there).1

namespace SpmSession

theorem bytes_counted (complete : vocab.Complete) (within : vocab.Within limit)
    (segment : List UInt8) :
    ∃ tokens, segment.mapM vocab.byteToToken = some tokens ∧
      Counted vocab limit segment.length tokens := by
  induction segment with
  | nil => exact ⟨[], rfl, Counted.nil⟩
  | cons byte rest ih =>
      obtain ⟨tokens, later, counted⟩ := ih
      obtain ⟨token, found⟩ := Option.isSome_iff_exists.mp (complete byte)
      refine ⟨token :: tokens, ?_, ?_⟩
      · rw [List.mapM_cons, found, later]
        rfl
      · have one : Counted vocab limit 1 [token] := by
          refine ⟨?_, fun other member => ?_⟩
          · simpa using within.1
          · rw [List.mem_singleton.mp member]
            exact byteToToken_lt found
        rw [List.length_cons, Nat.add_comm]
        exact one.append counted

theorem segmentTokens_counted (complete : vocab.Complete) (within : vocab.Within limit)
    (segment : List UInt8) :
    ∃ tokens, segmentTokens vocab segment = some tokens ∧
      Counted vocab limit segment.length tokens := by
  unfold segmentTokens
  cases found : vocab.textToToken segment with
  | none => exact bytes_counted complete within segment
  | some token =>
      obtain ⟨data, there, rfl⟩ := textToToken_spec found
      exact ⟨[token], rfl, Counted.one within there⟩

theorem segmentsTokens_counted (complete : vocab.Complete) (within : vocab.Within limit)
    (segments : List (List UInt8)) :
    ∃ tokens, segmentsTokens vocab segments = some tokens ∧
      Counted vocab limit segments.flatten.length tokens := by
  induction segments with
  | nil => exact ⟨[], rfl, Counted.nil⟩
  | cons segment rest ih =>
      obtain ⟨later, found, rest⟩ := ih
      obtain ⟨first, here, counted⟩ := segmentTokens_counted complete within segment
      refine ⟨first ++ later, ?_, ?_⟩
      · rw [segmentsTokens_cons, here, found]
        rfl
      · rw [List.flatten_cons, List.length_append]
        exact counted.append rest

theorem tokenize_counted (numeric : vocab.Numeric) (complete : vocab.Complete)
    (within : vocab.Within limit) (lawful : Lawful pop) (nonempty : text ≠ []) :
    ∃ tokens, tokenize vocab pop text = some tokens ∧ Counted vocab limit text.length tokens := by
  obtain ⟨final, merges, session⟩ := tokenize_eq numeric lawful nonempty
  obtain ⟨tokens, found, counted⟩ := segmentsTokens_counted complete within final
  rw [merges.flatten, splitCharacters_flatten] at counted
  exact ⟨tokens, session.trans found, counted⟩

end SpmSession

theorem length_le_prefixed (text : List UInt8) (prefixes : Bool) :
    text.length ≤ (llamaEscapeWhitespace (if prefixes = true then 32 :: text else text)).length := by
  have escaped := length_le_escape (if prefixes = true then 32 :: text else text)
  cases prefixes with
  | false => exact escaped
  | true => exact Nat.le_trans (Nat.le_succ _) escaped

theorem escape_prefixed_ne_nil (nonempty : text ≠ []) (prefixes : Bool) :
    llamaEscapeWhitespace (if prefixes = true then 32 :: text else text) ≠ [] := by
  have long := length_le_prefixed text prefixes
  have filled := List.length_pos_iff.mpr nonempty
  rw [← List.length_pos_iff]
  omega

theorem fragmentTokens_counted (numeric : vocab.Numeric) (complete : vocab.Complete)
    (within : vocab.Within limit) (lawful : Lawful pop) {fragments : List Fragment}
    (sound : ∀ fragment ∈ fragments, fragment.Sound vocab) (isPrevSpecial : Bool) :
    ∃ tokens, vocab.fragmentTokens pop isPrevSpecial fragments = some tokens ∧
      Counted vocab limit ((fragments.map (Fragment.spelled vocab)).flatten.length) tokens := by
  induction fragments generalizing isPrevSpecial with
  | nil => exact ⟨[], rfl, Counted.nil⟩
  | cons fragment rest ih =>
      have here := sound fragment List.mem_cons_self
      have others : ∀ other ∈ rest, other.Sound vocab :=
        fun other member => sound other (List.mem_cons_of_mem _ member)
      cases fragment with
      | token id =>
          obtain ⟨later, found, counted⟩ := ih others true
          have there := List.getElem?_eq_getElem here
          refine ⟨id :: later, by rw [SpmVocab.fragmentTokens, found]; rfl, ?_⟩
          rw [List.map_cons, List.flatten_cons, List.length_append, Fragment.spelled, there]
          exact (Counted.one within there).append counted
      | rawText text =>
          obtain ⟨later, found, rest⟩ := ih others false
          have long := length_le_prefixed text (vocab.addSpacePrefix && isPrevSpecial)
          have nonempty := escape_prefixed_ne_nil here (vocab.addSpacePrefix && isPrevSpecial)
          obtain ⟨first, session, counted⟩ :=
            SpmSession.tokenize_counted numeric complete within lawful nonempty
          refine ⟨first ++ later, ?_, ?_⟩
          · rw [SpmVocab.fragmentTokens]
            simp only [session, Option.bind_some, found, Option.map_some]
          · rw [List.map_cons, List.flatten_cons, List.length_append, Fragment.spelled]
            exact (counted.mono long).append rest

theorem tokenize_counted (numeric : vocab.Numeric) (complete : vocab.Complete)
    (within : vocab.Within limit) (unstripped : vocab.Unstripped) (lawful : Lawful pop)
    (addSpecial parseSpecial : Bool) (text : List UInt8) :
    ∃ tokens, vocab.tokenize pop addSpecial parseSpecial text =
        some ((if addSpecial && vocab.addBos then [vocab.bos] else []) ++ tokens ++
          if addSpecial && vocab.addEos then [vocab.eos] else []) ∧
      Counted vocab limit text.length tokens := by
  have sound : ∀ fragment ∈ Fragment.ofText text, fragment.Sound vocab := ofText_sound text
  obtain ⟨whole, parts⟩ := tokenizerStPartition_spelled unstripped parseSpecial sound
  obtain ⟨tokens, found, counted⟩ := fragmentTokens_counted numeric complete within lawful parts true
  rw [whole, ofText_spelled] at counted
  exact ⟨tokens, by rw [SpmVocab.tokenize, found, Option.map_some], counted⟩

end Count

section Covers

theorem bounded_valid (pop : Pop) (valid : ∀ token ∈ tokens, token < vocab.tokens.length) {id : Nat}
    (member : id ∈ (if vocab.addBos then [vocab.bos] else []) ++ tokens ++
      if vocab.addEos then [vocab.eos] else []) :
    validToken (vocab.toVocab pop).nTokens id = true := by
  have inside : id < vocab.tokens.length := by
    rcases List.mem_append.mp member with early | last
    · rcases List.mem_append.mp early with start | middle
      · split at start
        · rw [List.mem_singleton.mp start]
          exact vocab.bosValid
        · simp at start
      · exact valid id middle
    · split at last
      · rw [List.mem_singleton.mp last]
        exact vocab.eosValid
      · simp at last
  simp only [validToken, Bool.and_eq_true, decide_eq_true_eq]
  exact ⟨Int.natCast_nonneg id, Int.ofNat_lt.mpr inside⟩

theorem spread (tokens : List Token) (text : List UInt8)
    (few : text.length ≤ limit * tokens.length) :
    ∃ parts : List (Token × List UInt8), parts.map Prod.fst = tokens ∧
      (parts.map Prod.snd).flatten = text ∧ ∀ part ∈ parts, part.2.length ≤ limit := by
  induction tokens generalizing text with
  | nil =>
      have empty : text = [] := by simpa using few
      exact ⟨[], rfl, by simp [empty], by simp⟩
  | cons token rest ih =>
      have fewer : (text.drop limit).length ≤ limit * rest.length := by
        rw [List.length_cons, Nat.mul_add, Nat.mul_one] at few
        rw [List.length_drop]
        omega
      obtain ⟨parts, firsts, covered, short⟩ := ih (text.drop limit) fewer
      refine ⟨(token, text.take limit) :: parts, by simp [firsts], ?_, ?_⟩
      · rw [List.map_cons, List.flatten_cons, covered]
        exact List.take_append_drop limit text
      · intro part member
        rcases List.mem_cons.mp member with rfl | later
        · rw [List.length_take]
          exact Nat.min_le_left _ _
        · exact short part later

theorem toVocab_covers (numeric : vocab.Numeric) (complete : vocab.Complete)
    (within : vocab.Within limit) (unstripped : vocab.Unstripped) (lawful : Lawful pop) :
    Covers limit (vocab.toVocab pop) := by
  constructor
  · intro text
    obtain ⟨tokens, tokenized, counted⟩ :=
      tokenize_counted numeric complete within unstripped lawful true false text
    simp only [Bool.true_and] at tokenized
    let start : List Token := if vocab.addBos then [(vocab.bos : Token)] else []
    let others : List Token :=
      (tokens ++ if vocab.addEos then [vocab.eos] else []).map fun (token : Nat) => (token : Token)
    have few : text.length ≤ limit * others.length := by
      refine Nat.le_trans counted.few (Nat.mul_le_mul_left limit ?_)
      simp only [others, List.length_map, List.length_append]
      omega
    obtain ⟨parts, firsts, covered, short⟩ := spread others text few
    refine ⟨start, parts, ?_, ?_, covered, short⟩
    · simp only [start]
      split
      · exact Nat.le_refl 1
      · exact Nat.zero_le 1
    · rw [firsts]
      simp only [SpmVocab.toVocab, tokenized, Option.getD_some, start, others, List.map_append,
        List.append_assoc]
      split <;> rfl
  · intro text token member
    obtain ⟨tokens, tokenized, counted⟩ :=
      tokenize_counted numeric complete within unstripped lawful true false text
    simp only [SpmVocab.toVocab, tokenized, Option.getD_some] at member ⊢
    obtain ⟨id, inside, rfl⟩ := List.mem_map.mp member
    exact bounded_valid pop counted.valid inside

end Covers

section Bytes

theorem hexDigit_spec {digit : Nat} (small : digit < 16) :
    hexValue (SpmVocab.hexDigit digit) = some digit ∧
      isSpaceByte (SpmVocab.hexDigit digit) = false ∧ SpmVocab.hexDigit digit ≠ 45 ∧
      SpmVocab.hexDigit digit ≠ 43 := by
  interval_cases digit <;> decide

theorem strtolByte_byteName (byte : UInt8) :
    strtolByte (((SpmVocab.byteName byte).drop 3).take 2) = byte := by
  have below := byte.toNat_lt
  have first : byte.toNat / 16 < 16 := by omega
  have second : byte.toNat % 16 < 16 := by omega
  obtain ⟨high, visible, noMinus, noPlus⟩ := hexDigit_spec first
  obtain ⟨low, _⟩ := hexDigit_spec second
  have digits : ((SpmVocab.byteName byte).drop 3).take 2 =
      [SpmVocab.hexDigit (byte.toNat / 16), SpmVocab.hexDigit (byte.toNat % 16)] := rfl
  have number : hexNumber 0
      [SpmVocab.hexDigit (byte.toNat / 16), SpmVocab.hexDigit (byte.toNat % 16)] = byte.toNat := by
    simp only [hexNumber, high, low]
    omega
  rw [digits, strtolByte, List.dropWhile_cons_of_neg (by simp [visible])]
  split
  · next same => exact absurd (List.cons.inj same).1 noMinus
  · next same => exact absurd (List.cons.inj same).1 noPlus
  · rw [number]
    exact UInt8.ofNat_toNat

theorem byteName_injective {byte other : UInt8}
    (same : SpmVocab.byteName byte = SpmVocab.byteName other) : byte = other := by
  rw [← strtolByte_byteName byte, same, strtolByte_byteName]

end Bytes

section Overlong

/-- An accepted text may have more tokens than the batch takes, whatever the vocabulary. -/
theorem toVocab_overlong (numeric : vocab.Numeric) (complete : vocab.Complete)
    (within : vocab.Within limit) (unstripped : vocab.Unstripped) (lawful : Lawful pop)
    (analysisType : AnalysisType) :
    (textWindow (marks (limit * nBatch + 1))).validateInputText = true ∧
      (promptTokens (vocab.toVocab pop)
          (formatPrompt analysisType (marks (limit * nBatch + 1))) = none ∨
        ∀ nCtx fromStdString logits faults cells,
          ((Processor.mk (vocab.toVocab pop) nCtx nBatch fromStdString).processText logits faults
            cells (formatPrompt analysisType (marks (limit * nBatch + 1)))).outcome = .aborted) := by
  have covers := toVocab_covers numeric complete within unstripped lawful
  refine ⟨marks_accepted (Nat.succ_pos _), ?_⟩
  cases tokenized : promptTokens (vocab.toVocab pop)
      (formatPrompt analysisType (marks (limit * nBatch + 1))) with
  | none => exact Or.inl rfl
  | some tokens =>
      right
      intro nCtx fromStdString logits faults cells
      have long := (accepted_overlong covers analysisType tokenized).2
      obtain ⟨same, _⟩ := promptTokens_eq_some.mp tokenized
      apply processText_of_aborts
      exact ⟨tokens, tokenized, same ▸ covers.valid _, long⟩

def byteToken (byte : UInt8) : TokenData :=
  ⟨SpmVocab.byteName byte, Binary32.one, false, false, false, false, true, false, false⟩

def byteSpm : SpmVocab where
  tokens := controlToken [60, 115, 62] :: controlToken [60, 47, 115, 62] ::
    normalToken spaceMark Binary32.one ::
      (List.range 256).map fun byte => byteToken byte.toUInt8
  specialTokens := [1, 0]
  bos := 0
  eos := 1
  addBos := true
  addEos := false
  addSpacePrefix := false
  distinct := by
    have bytes : (((List.range 256).map fun byte => byteToken byte.toUInt8).map
        TokenData.text).Nodup := by
      rw [List.map_map]
      refine List.Nodup.map_on ?_ List.nodup_range
      intro byte small other otherSmall same
      rw [List.mem_range] at small otherSmall
      have equal := congrArg UInt8.toNat (byteName_injective same)
      rw [Nat.toUInt8_eq, Nat.toUInt8_eq, UInt8.toNat_ofNat', UInt8.toNat_ofNat'] at equal
      omega
    have apart : ∀ text ∈ ((List.range 256).map fun byte => byteToken byte.toUInt8).map
        TokenData.text, text.length = 6 := by
      intro text member
      simp only [List.mem_map] at member
      obtain ⟨_, ⟨byte, _, rfl⟩, rfl⟩ := member
      rfl
    rw [List.map_cons, List.map_cons, List.map_cons, List.nodup_cons, List.nodup_cons,
      List.nodup_cons]
    refine ⟨?_, ?_, ?_, bytes⟩
    · simp only [List.mem_cons, not_or]
      exact ⟨by decide, by decide, fun member => absurd (apart _ member) (by decide)⟩
    · simp only [List.mem_cons, not_or]
      exact ⟨by decide, fun member => absurd (apart _ member) (by decide)⟩
    · exact fun member => absurd (apart _ member) (by decide)
  nonempty := by
    intro data member
    simp only [List.mem_cons, List.mem_map] at member
    rcases member with rfl | rfl | rfl | ⟨byte, _, rfl⟩ <;>
      simp [controlToken, normalToken, byteToken, spaceMark, SpmVocab.byteName]
  special id := by
    rcases id with _ | _ | _ | id
    · simp [controlToken, TokenData.isSpecial]
    · simp [controlToken, TokenData.isSpecial]
    · simp [normalToken, TokenData.isSpecial]
    · simp [byteToken, TokenData.isSpecial]
  bosValid := by simp
  eosValid := by simp

theorem byteSpm_tokens {data : TokenData} (member : data ∈ byteSpm.tokens) :
    data = controlToken [60, 115, 62] ∨ data = controlToken [60, 47, 115, 62] ∨
      data = normalToken spaceMark Binary32.one ∨ ∃ byte, data = byteToken byte := by
  simp only [byteSpm, List.mem_cons, List.mem_map] at member
  rcases member with rfl | rfl | rfl | ⟨byte, _, rfl⟩
  · exact Or.inl rfl
  · exact Or.inr (Or.inl rfl)
  · exact Or.inr (Or.inr (Or.inl rfl))
  · exact Or.inr (Or.inr (Or.inr ⟨_, rfl⟩))

theorem byteSpm_numeric : byteSpm.Numeric := by
  intro data member
  rcases byteSpm_tokens member with rfl | rfl | rfl | ⟨byte, rfl⟩ <;> rfl

theorem byteToken_mem (byte : UInt8) : byteToken byte ∈ byteSpm.tokens := by
  have inRange : byte.toNat ∈ List.range 256 := List.mem_range.mpr byte.toNat_lt
  have here : byteToken byte.toNat.toUInt8 ∈
      (List.range 256).map fun byte => byteToken byte.toUInt8 :=
    List.mem_map_of_mem inRange
  simp only [byteSpm, List.mem_cons]
  refine Or.inr (Or.inr (Or.inr ?_))
  simpa using here

theorem byteSpm_complete : byteSpm.Complete := by
  intro byte
  have named : (byteSpm.textToToken (SpmVocab.byteName byte)).isSome = true := by
    rw [SpmVocab.textToToken, List.findIdx?_isSome, List.any_eq_true]
    exact ⟨byteToken byte, byteToken_mem byte, beq_self_eq_true _⟩
  rw [SpmVocab.byteToToken]
  cases found : byteSpm.textToToken (SpmVocab.byteName byte) with
  | none => simp [found] at named
  | some token => rfl

theorem byteSpm_within : byteSpm.Within 6 := by
  refine ⟨by decide, fun data member => ?_⟩
  rcases byteSpm_tokens member with rfl | rfl | rfl | ⟨byte, rfl⟩ <;>
    simp [controlToken, normalToken, byteToken, spaceMark, SpmVocab.byteName]

theorem byteSpm_unstripped : byteSpm.Unstripped := by
  intro data member
  rcases byteSpm_tokens member with rfl | rfl | rfl | ⟨byte, rfl⟩ <;> exact ⟨rfl, rfl⟩

theorem toVocab_overlong_byteSpm :
    (textWindow (marks 12289)).validateInputText = true ∧
      (promptTokens (byteSpm.toVocab SpmSession.popFirst) (formatPrompt .quiz (marks 12289)) = none ∨
        ∀ nCtx fromStdString logits faults cells,
          ((Processor.mk (byteSpm.toVocab SpmSession.popFirst) nCtx nBatch
            fromStdString).processText logits faults cells
              (formatPrompt .quiz (marks 12289))).outcome = .aborted) :=
  toVocab_overlong byteSpm_numeric byteSpm_complete byteSpm_within byteSpm_unstripped
    SpmSession.lawful_popFirst .quiz

end Overlong

end TextMaster
