import TextMaster.SpmTokens

/-!
What cannot come out of a text: a control token whose name merging never spells stands in a prompt
only where the tokenizer puts it, at the start or at the end.
-/

namespace TextMaster

open GreedyMerge LazyMerge

/-- Bytes that a session may start with as one symbol. -/
def Character (segment : List UInt8) : Prop :=
  ∃ byte rest, segment = byte :: rest ∧ segment.length ≤ unicodeLenUtf8 byte

/-- No text has segments with the name of the token. -/
structure SpmVocab.Sealed (vocab : SpmVocab) (data : TokenData) : Prop where
  unformed : ¬ Formed vocab.score Character data.text
  noName : ∀ byte, data.text ≠ SpmVocab.byteName byte
  noByte : ∀ byte, data.text ≠ [byte]

def SpmVocab.Avoids (vocab : SpmVocab) (data : TokenData) (tokens : List Nat) : Prop :=
  ∀ token ∈ tokens, vocab.tokens[token]? ≠ some data

variable {vocab : SpmVocab} {data : TokenData} {tokens others : List Nat} {text : List UInt8}
  {pop : Pop}

namespace SpmSession

theorem character_of_mem {segment : List UInt8} (member : segment ∈ splitCharacters text) :
    Character segment := by
  unfold splitCharacters at member
  generalize text.length = fuel at member
  generalize 0 = index at member
  induction fuel generalizing index text with
  | zero => simp [characters] at member
  | succ fuel ih =>
      cases text with
      | nil => simp [characters] at member
      | cons byte rest =>
          rw [characters, List.map_cons] at member
          rcases List.mem_cons.mp member with rfl | later
          · obtain ⟨n, same⟩ := Nat.exists_eq_succ_of_ne_zero
              (Nat.ne_of_gt (unicodeLenUtf8_bounds byte).1)
            refine ⟨byte, rest.take (min n rest.length), ?_, ?_⟩
            · rw [same, Nat.succ_eq_add_one, Nat.add_min_add_right, List.take_succ_cons]
            · rw [List.length_take]
              omega
          · exact ih (index + 1) later

theorem formed_of_merges {final : List (List UInt8)}
    (merges : Merges vocab.score (splitCharacters text) final) :
    ∀ segment ∈ final, Formed vocab.score Character segment :=
  merges.formed fun segment member => .given segment (character_of_mem member)

end SpmSession

section Avoids

theorem SpmVocab.Avoids.append (early : vocab.Avoids data tokens) (late : vocab.Avoids data others) :
    vocab.Avoids data (tokens ++ others) := by
  intro token member
  rcases List.mem_append.mp member with inFirst | inLast
  · exact early token inFirst
  · exact late token inLast

theorem avoids_of_text {token : Nat} (found : vocab.textToToken text = some token)
    (apart : data.text ≠ text) : vocab.tokens[token]? ≠ some data := by
  intro same
  obtain ⟨other, there, spelled⟩ := textToToken_spec found
  rw [same, Option.some.injEq] at there
  exact apart (there ▸ spelled)

theorem avoids_byte (hidden : vocab.Sealed data) {byte : UInt8} {token : Nat}
    (found : vocab.byteToToken byte = some token) : vocab.tokens[token]? ≠ some data := by
  rw [SpmVocab.byteToToken, Option.or_eq_some_iff] at found
  rcases found with named | ⟨_, bare⟩
  · exact avoids_of_text named (hidden.noName byte)
  · exact avoids_of_text bare (hidden.noByte byte)

theorem avoids_bytes (hidden : vocab.Sealed data) {segment : List UInt8}
    (found : segment.mapM vocab.byteToToken = some tokens) : vocab.Avoids data tokens := by
  induction segment generalizing tokens with
  | nil =>
      rw [List.mapM_nil] at found
      obtain rfl : [] = tokens := Option.some.inj found
      intro token member
      simp at member
  | cons byte rest ih =>
      simp only [List.mapM_cons, Option.bind_eq_bind, Option.bind_eq_some_iff, Option.pure_def,
        Option.some.injEq] at found
      obtain ⟨token, here, others, later, rfl⟩ := found
      intro other member
      rcases List.mem_cons.mp member with rfl | inside
      · exact avoids_byte hidden here
      · exact ih later other inside

theorem avoids_segment (hidden : vocab.Sealed data) {segment : List UInt8}
    (formed : Formed vocab.score Character segment)
    (found : SpmSession.segmentTokens vocab segment = some tokens) : vocab.Avoids data tokens := by
  rw [SpmSession.segmentTokens] at found
  cases named : vocab.textToToken segment with
  | none =>
      rw [named] at found
      exact avoids_bytes hidden found
  | some token =>
      rw [named, Option.some.injEq] at found
      subst found
      intro other member
      rw [List.mem_singleton.mp member]
      exact avoids_of_text named fun same => hidden.unformed (same ▸ formed)

theorem avoids_segments (hidden : vocab.Sealed data) {segments : List (List UInt8)}
    (formed : ∀ segment ∈ segments, Formed vocab.score Character segment)
    (found : SpmSession.segmentsTokens vocab segments = some tokens) :
    vocab.Avoids data tokens := by
  induction segments generalizing tokens with
  | nil =>
      obtain rfl : [] = tokens := Option.some.inj found
      intro token member
      simp at member
  | cons segment rest ih =>
      rw [SpmSession.segmentsTokens_cons, Option.bind_eq_some_iff] at found
      obtain ⟨first, here, found⟩ := found
      obtain ⟨later, there, same⟩ := Option.bind_eq_some_iff.mp found
      obtain rfl := Option.some.inj same
      exact (avoids_segment hidden (formed segment List.mem_cons_self) here).append
        (ih (fun other member => formed other (List.mem_cons_of_mem _ member)) there)

theorem avoids_session (numeric : vocab.Numeric) (lawful : Lawful pop) (hidden : vocab.Sealed data)
    (nonempty : text ≠ []) (found : SpmSession.tokenize vocab pop text = some tokens) :
    vocab.Avoids data tokens := by
  obtain ⟨final, merges, session⟩ := SpmSession.tokenize_eq numeric lawful nonempty
  exact avoids_segments hidden (SpmSession.formed_of_merges merges) (session ▸ found)

end Avoids

section Fragments

def Fragment.Plain (vocab : SpmVocab) : Fragment → Prop
  | .token id => ∀ data, vocab.tokens[id]? = some data → (data.control || data.unknown) = false
  | .rawText text => text ≠ []

theorem ofText_plain (text : List UInt8) :
    ∀ fragment ∈ Fragment.ofText text, fragment.Plain vocab := by
  intro fragment member
  unfold Fragment.ofText at member
  split at member
  · simp at member
  · next nonempty =>
      rw [List.mem_singleton.mp member]
      exact nonempty

theorem partitionText_plain {id : Nat} (there : vocab.tokens[id]? = some data)
    (parsed : (data.control || data.unknown) = false) (fuel : Nat) (text : List UInt8) :
    ∀ fragment ∈ data.partitionText id fuel text, fragment.Plain vocab := by
  induction fuel generalizing text with
  | zero => exact ofText_plain text
  | succ fuel ih =>
      rw [TokenData.partitionText]
      cases findText data.text text with
      | none => exact ofText_plain text
      | some place =>
          intro fragment member
          rcases List.mem_append.mp member with left | behind
          · exact ofText_plain _ fragment left
          · rcases List.mem_cons.mp behind with rfl | right
            · intro other same
              rw [there, Option.some.injEq] at same
              exact same ▸ parsed
            · exact ih _ fragment right

theorem tokenizerStPartition_plain {buffer : List Fragment}
    (plain : ∀ fragment ∈ buffer, fragment.Plain vocab) :
    ∀ fragment ∈ vocab.tokenizerStPartition false buffer, fragment.Plain vocab := by
  unfold SpmVocab.tokenizerStPartition
  induction vocab.specialTokens generalizing buffer with
  | nil => exact plain
  | cons id rest ih =>
      rw [List.foldl_cons]
      cases there : vocab.tokens[id]? with
      | none => exact ih plain
      | some data =>
          simp only [Bool.not_false, Bool.true_and]
          cases parsed : data.control || data.unknown with
          | true => exact ih plain
          | false =>
              apply ih
              intro part member
              obtain ⟨fragment, inside, partIn⟩ := List.mem_flatMap.mp member
              cases fragment with
              | token other =>
                  rw [List.mem_singleton.mp partIn]
                  exact plain _ inside
              | rawText text => exact partitionText_plain there parsed text.length text part partIn

theorem fragmentTokens_avoids (numeric : vocab.Numeric) (lawful : Lawful pop)
    (hidden : vocab.Sealed data) (control : (data.control || data.unknown) = true)
    {fragments : List Fragment} (plain : ∀ fragment ∈ fragments, fragment.Plain vocab)
    {isPrevSpecial : Bool} (found : vocab.fragmentTokens pop isPrevSpecial fragments = some tokens) :
    vocab.Avoids data tokens := by
  induction fragments generalizing isPrevSpecial tokens with
  | nil =>
      obtain rfl : [] = tokens := Option.some.inj found
      intro token member
      simp at member
  | cons fragment rest ih =>
      have here := plain fragment List.mem_cons_self
      have others : ∀ other ∈ rest, other.Plain vocab :=
        fun other member => plain other (List.mem_cons_of_mem _ member)
      cases fragment with
      | token id =>
          rw [SpmVocab.fragmentTokens, Option.map_eq_some_iff] at found
          obtain ⟨later, there, rfl⟩ := found
          intro token member same
          rcases List.mem_cons.mp member with rfl | inside
          · have parsed := here data same
            rw [control] at parsed
            contradiction
          · exact ih others there token inside same
      | rawText text =>
          rw [SpmVocab.fragmentTokens] at found
          obtain ⟨first, session, found⟩ := Option.bind_eq_some_iff.mp found
          obtain ⟨later, there, rfl⟩ := Option.map_eq_some_iff.mp found
          have nonempty := escape_prefixed_ne_nil here (vocab.addSpacePrefix && isPrevSpecial)
          exact (avoids_session numeric lawful hidden nonempty session).append (ih others there)

/-- A sealed control token stands at most at the two ends of what a text becomes. -/
theorem tokenize_seals (numeric : vocab.Numeric) (lawful : Lawful pop)
    (hidden : vocab.Sealed data) (control : (data.control || data.unknown) = true)
    {addSpecial : Bool} (found : vocab.tokenize pop addSpecial false text = some tokens) :
    ∃ middle, tokens = (if addSpecial && vocab.addBos then [vocab.bos] else []) ++ middle ++
        (if addSpecial && vocab.addEos then [vocab.eos] else []) ∧ vocab.Avoids data middle := by
  rw [SpmVocab.tokenize, Option.map_eq_some_iff] at found
  obtain ⟨middle, there, rfl⟩ := found
  exact ⟨middle, rfl, fragmentTokens_avoids numeric lawful hidden control
    (tokenizerStPartition_plain (ofText_plain text)) there⟩

end Fragments

section Example

theorem unicodeLenUtf8_ascii {byte : UInt8} (ascii : byte < 128) : unicodeLenUtf8 byte = 1 := by
  have below : byte.toNat < 128 := ascii
  have high : byte.toNat / 16 < 8 := by omega
  unfold unicodeLenUtf8
  generalize byte.toNat / 16 = nibble at high
  interval_cases nibble <;> rfl

theorem character_ascii {byte : UInt8} {rest : List UInt8} (ascii : byte < 128)
    (character : Character (byte :: rest)) : rest = [] := by
  obtain ⟨head, tail, same, short⟩ := character
  obtain ⟨rfl, rfl⟩ := List.cons.inj same
  rw [unicodeLenUtf8_ascii ascii, List.length_cons] at short
  exact List.length_eq_zero_iff.mp (by omega)

theorem not_two_characters {first second third : UInt8} {tail left right : List UInt8}
    (firstAscii : first < 128) (secondAscii : second < 128) (leftOne : Character left)
    (rightOne : Character right) (same : left ++ right = first :: second :: third :: tail) :
    False := by
  cases left with
  | nil =>
      obtain ⟨_, _, empty, _⟩ := leftOne
      contradiction
  | cons head rest =>
      rw [List.cons_append, List.cons.injEq] at same
      obtain ⟨rfl, same⟩ := same
      obtain rfl := character_ascii firstAscii leftOne
      rw [List.nil_append] at same
      subst same
      have alone := character_ascii secondAscii rightOne
      contradiction

theorem byteSpm_formed {segment : List UInt8} (formed : Formed byteSpm.score Character segment) :
    Character segment := by
  induction formed with
  | given segment character => exact character
  | joined left right value _ _ scored leftOne rightOne =>
      obtain ⟨token, data, named, there, _⟩ := SpmSession.score_eq_some.mp scored
      obtain ⟨found, inside, text⟩ := textToToken_spec named
      rcases byteSpm_tokens (List.mem_of_getElem? inside) with rfl | rfl | rfl | ⟨byte, rfl⟩
      · exact (not_two_characters (by decide) (by decide) leftOne rightOne text.symm).elim
      · exact (not_two_characters (by decide) (by decide) leftOne rightOne text.symm).elim
      · rw [← text]
        exact ⟨0xe2, [0x96, 0x81], rfl, by decide⟩
      · exact (not_two_characters (by decide) (by decide) leftOne rightOne text.symm).elim

theorem byteSpm_sealed : byteSpm.Sealed (controlToken [60, 47, 115, 62]) := by
  refine ⟨fun formed => ?_, fun byte same => ?_, fun byte same => ?_⟩
  · have alone := character_ascii (by decide) (byteSpm_formed formed)
    contradiction
  · simp [controlToken, SpmVocab.byteName] at same
  · simp [controlToken] at same

theorem tokenize_seals_end :
    ∃ middle, [0, 63, 50, 118, 65] = [0] ++ middle ++ [] ∧
      byteSpm.Avoids (controlToken [60, 47, 115, 62]) middle := by
  have found : byteSpm.tokenize SpmSession.popFirst true false [60, 47, 115, 62] =
      some [0, 63, 50, 118, 65] := by decide +kernel
  exact tokenize_seals byteSpm_numeric SpmSession.lawful_popFirst byteSpm_sealed rfl found

end Example

end TextMaster
