import TextMaster.SpmReading

/-!
The buffer of one token more than bytes that `processText` offers to the tokenizer, against what the
SPM tokenizer needs with a start token and a space in front of the text.
-/

namespace TextMaster

open GreedyMerge LazyMerge

variable {vocab : SpmVocab} {data : TokenData} {tokens : List Nat} {prompt : QString} {pop : Pop}

section Visible

theorem unescape_ne_nil {word : List UInt8} (nonempty : word ≠ []) :
    llamaUnescapeWhitespace word ≠ [] := by
  cases word with
  | nil => contradiction
  | cons byte rest =>
      rw [llamaUnescapeWhitespace, List.length_cons, replaceAll]
      split
      · exact List.cons_ne_nil _ _
      · exact List.cons_ne_nil _ _

theorem shown_of_ordinary {token : Nat} (there : vocab.tokens[token]? = some data)
    (normal : data.normal = true) (plain : data.isSpecial = false) :
    vocab.shown token = llamaUnescapeWhitespace data.text := by
  rw [SpmVocab.shown, there, Option.elim_some, control_of_not_special plain, TokenData.piece, plain,
    normal]
  rfl

theorem shown_ne_nil (readable : vocab.Readable) {token : Nat}
    (there : vocab.tokens[token]? = some data) (loose : ¬ vocab.Sealed data) :
    vocab.shown token ≠ [] := by
  have member := List.mem_of_getElem? there
  have ordinary : Formed vocab.score Character data.text → vocab.shown token ≠ [] := by
    intro formed
    obtain ⟨normal, plain⟩ := readable.ordinary data member formed
    rw [shown_of_ordinary there normal plain]
    exact unescape_ne_nil (vocab.nonempty data member)
  by_cases formed : Formed vocab.score Character data.text
  · exact ordinary formed
  · by_cases named : ∃ byte, data.text = SpmVocab.byteName byte
    · obtain ⟨byte, name⟩ := named
      obtain ⟨other, inside, sameName, plain, notNormal, isByte⟩ := readable.bytes byte
      obtain rfl := eq_of_text member inside (name.trans sameName.symm)
      rw [SpmVocab.shown, there, Option.elim_some, control_of_not_special plain, TokenData.piece,
        plain, notNormal, isByte]
      exact List.cons_ne_nil _ _
    · by_cases bare : ∃ byte, data.text = [byte]
      · obtain ⟨byte, text⟩ := bare
        refine ordinary (.given _ ⟨byte, [], text, ?_⟩)
        rw [text]
        exact (SpmSession.unicodeLenUtf8_bounds byte).1
      · exact absurd ⟨formed, fun byte name => named ⟨byte, name⟩,
          fun byte text => bare ⟨byte, text⟩⟩ loose

end Visible

section Length

theorem length_flatMap_shown (visible : ∀ token ∈ tokens, vocab.shown token ≠ []) :
    tokens.length ≤ (tokens.flatMap vocab.shown).length ∧
      (tokens.length = (tokens.flatMap vocab.shown).length ↔
        ∀ token ∈ tokens, (vocab.shown token).length = 1) := by
  induction tokens with
  | nil => simp
  | cons token rest ih =>
      obtain ⟨few, equal⟩ := ih fun other member => visible other (List.mem_cons_of_mem _ member)
      have positive := List.length_pos_iff.mpr (visible token List.mem_cons_self)
      rw [List.flatMap_cons, List.length_append, List.length_cons]
      refine ⟨by omega, ?_⟩
      rw [List.forall_mem_cons, ← equal]
      omega

theorem length_readChar (char : Char) :
    (String.utf8EncodeChar (readChar char)).length ≤ (String.utf8EncodeChar char).length ∧
      ((String.utf8EncodeChar (readChar char)).length = (String.utf8EncodeChar char).length ↔
        ¬ markChar = char) := by
  by_cases marked : char = markChar
  · subst marked
    decide
  · rw [readChar, if_neg marked]
    exact ⟨Nat.le_refl _, fun _ same => marked same.symm, fun _ => rfl⟩

theorem length_map_readChar (text : QString) :
    (toStdString (text.map readChar)).length ≤ (toStdString text).length ∧
      ((toStdString (text.map readChar)).length = (toStdString text).length ↔
        markChar ∉ text) := by
  induction text with
  | nil => simp
  | cons char rest ih =>
      obtain ⟨shorter, same⟩ := length_readChar char
      obtain ⟨few, equal⟩ := ih
      rw [List.map_cons, toStdString_cons, toStdString_cons, List.length_append, List.length_append]
      refine ⟨by omega, ?_⟩
      rw [List.mem_cons, not_or, ← equal, ← same]
      omega

end Length

theorem prompt_middle (numeric : vocab.Numeric) (readable : vocab.Readable) (lawful : Lawful pop)
    (untouched : vocab.Untouched (toStdString prompt)) (nonempty : prompt ≠ []) :
    ∃ middle, vocab.tokenize pop true false (toStdString prompt) =
        some ((if vocab.addBos then [vocab.bos] else []) ++ middle ++
          if vocab.addEos then [vocab.eos] else []) ∧
      (∀ token ∈ middle, token < vocab.tokens.length ∧ vocab.shown token ≠ []) ∧
      middle.flatMap vocab.shown =
        toStdString ((if vocab.addSpacePrefix then ' ' :: prompt else prompt).map readChar) := by
  have filled : toStdString prompt ≠ [] := fun empty => nonempty (toStdString_injective empty)
  obtain ⟨limit, within⟩ := exists_within vocab
  have sound : ∀ fragment ∈ Fragment.ofText (toStdString prompt), fragment.Sound vocab :=
    ofText_sound _
  rw [← partition_untouched untouched] at sound
  obtain ⟨middle, found, counted⟩ :=
    fragmentTokens_counted numeric readable.complete within lawful sound true
  refine ⟨middle, ?_, fun token member => ⟨counted.valid token member, ?_⟩,
    shown_prompt numeric readable lawful untouched nonempty found⟩
  · rw [SpmVocab.tokenize, found]
    rfl
  · have there := List.getElem?_eq_getElem (counted.valid token member)
    apply shown_ne_nil readable there
    intro hidden
    rw [partition_untouched untouched, Fragment.ofText, if_neg filled, SpmVocab.fragmentTokens]
      at found
    obtain ⟨first, session, found⟩ := Option.bind_eq_some_iff.mp found
    obtain ⟨later, rest, rfl⟩ := Option.map_eq_some_iff.mp found
    obtain rfl : [] = later := Option.some.inj rest
    rw [List.append_nil] at member
    have whole := escape_prefixed_ne_nil filled (vocab.addSpacePrefix && true)
    exact avoids_session numeric lawful hidden whole session token member there

theorem promptTokens_of_tokenize {tokens : List Nat}
    (tokenized : vocab.tokenize pop true false (toStdString prompt) = some tokens) :
    (tokens.length ≤ (toStdString prompt).length + 1 → promptTokens (vocab.toVocab pop) prompt =
        some (tokens.map fun (token : Nat) => (token : Token))) ∧
      (promptTokens (vocab.toVocab pop) prompt = none ↔
        (toStdString prompt).length + 1 < tokens.length) := by
  have same : (vocab.toVocab pop).tokenize (toStdString prompt) =
      tokens.map fun (token : Nat) => (token : Token) := by
    simp only [SpmVocab.toVocab, tokenized, Option.getD_some]
  have given : tokens.length ≤ (toStdString prompt).length + 1 →
      promptTokens (vocab.toVocab pop) prompt =
        some (tokens.map fun (token : Nat) => (token : Token)) := by
    intro short
    refine promptTokens_eq_some.mpr ⟨same, ?_⟩
    rw [List.length_map]
    exact short
  refine ⟨given, ?_, ?_⟩
  · intro none
    by_contra short
    rw [given (Nat.not_lt.mp short)] at none
    contradiction
  · intro long
    rw [Option.eq_none_iff_forall_ne_some]
    intro other given
    obtain ⟨rfl, fits⟩ := promptTokens_eq_some.mp given
    rw [same, List.length_map] at fits
    omega

theorem prompt_accepted (numeric : vocab.Numeric) (readable : vocab.Readable)
    (lawful : Lawful pop) (untouched : vocab.Untouched (toStdString prompt)) (nonempty : prompt ≠ [])
    (spaceless : vocab.addSpacePrefix = false) (endless : vocab.addEos = false) :
    ∃ tokens, promptTokens (vocab.toVocab pop) prompt = some tokens ∧ tokens ≠ [] ∧
      (∀ token ∈ tokens, validToken (vocab.toVocab pop).nTokens token = true) ∧
      tokens.length ≤ (toStdString prompt).length + 1 := by
  obtain ⟨middle, tokenized, visible, shown⟩ :=
    prompt_middle numeric readable lawful untouched nonempty
  obtain ⟨few, _⟩ := length_flatMap_shown fun token member => (visible token member).2
  obtain ⟨shorter, _⟩ := length_map_readChar prompt
  rw [spaceless, if_neg Bool.false_ne_true] at shown
  rw [shown] at few
  have length : ((if vocab.addBos then [vocab.bos] else []) ++ middle ++
      if vocab.addEos then [vocab.eos] else []).length ≤ (toStdString prompt).length + 1 := by
    rw [endless, if_neg Bool.false_ne_true, List.append_nil, List.length_append]
    have one : (if vocab.addBos then [vocab.bos] else []).length ≤ 1 := by split <;> simp
    omega
  refine ⟨_, (promptTokens_of_tokenize tokenized).1 length, ?_, ?_, ?_⟩
  · intro empty
    have filled : middle = [] := by
      have none := List.map_eq_nil_iff.mp empty
      simp only [List.append_eq_nil_iff] at none
      exact none.1.2
    rw [filled] at shown
    have blank : [] = prompt.map readChar := toStdString_injective shown
    exact nonempty (List.map_eq_nil_iff.mp blank.symm)
  · intro token member
    obtain ⟨id, inside, rfl⟩ := List.mem_map.mp member
    exact bounded_valid pop (fun token member => (visible token member).1) inside
  · rw [List.length_map]
    exact length

/-- With a start token and a space in front, a prompt is refused exactly if every one of its tokens
shows a single byte; the buffer is then one token short. -/
theorem prompt_refused_iff (numeric : vocab.Numeric) (readable : vocab.Readable)
    (lawful : Lawful pop) (untouched : vocab.Untouched (toStdString prompt)) (nonempty : prompt ≠ [])
    (start : vocab.addBos = true) (spaced : vocab.addSpacePrefix = true)
    (endless : vocab.addEos = false) :
    ∃ middle, vocab.tokenize pop true false (toStdString prompt) = some (vocab.bos :: middle) ∧
      middle.length ≤ (toStdString prompt).length + 1 ∧
      (promptTokens (vocab.toVocab pop) prompt = none ↔
        markChar ∉ prompt ∧ ∀ token ∈ middle, (vocab.shown token).length = 1) := by
  obtain ⟨middle, tokenized, visible, shown⟩ :=
    prompt_middle numeric readable lawful untouched nonempty
  rw [start, endless, if_pos rfl, if_neg Bool.false_ne_true, List.append_nil,
    List.singleton_append] at tokenized
  obtain ⟨few, single⟩ := length_flatMap_shown fun token member => (visible token member).2
  obtain ⟨shorter, unmarked⟩ := length_map_readChar (' ' :: prompt)
  have spaceOne : (toStdString (' ' :: prompt)).length = (toStdString prompt).length + 1 := by
    rw [toStdString_cons, List.length_append, Nat.add_comm]
    rfl
  rw [spaced, if_pos rfl] at shown
  rw [shown] at few single
  rw [spaceOne] at shorter unmarked
  refine ⟨middle, tokenized, by omega, ?_⟩
  have notMark : markChar ∉ ' ' :: prompt ↔ markChar ∉ prompt := by
    rw [List.mem_cons, not_or]
    exact and_iff_right (by decide)
  rw [(promptTokens_of_tokenize tokenized).2, ← notMark, ← unmarked, ← single, List.length_cons]
  omega

def spacedSpm : SpmVocab := { byteSpm with addSpacePrefix := true }

theorem spacedSpm_readable : spacedSpm.Readable :=
  ⟨byteSpm_readable.ordinary, byteSpm_readable.bytes, byteSpm_readable.mark,
    byteSpm_readable.bounds⟩

theorem prompt_refused_letter :
    (∃ middle, spacedSpm.tokenize SpmSession.popFirst true false (toStdString ['a']) =
        some (spacedSpm.bos :: middle) ∧ middle.length ≤ (toStdString ['a']).length + 1 ∧
        (promptTokens (spacedSpm.toVocab SpmSession.popFirst) ['a'] = none ↔
          markChar ∉ ['a'] ∧ ∀ token ∈ middle, (spacedSpm.shown token).length = 1)) ∧
      promptTokens (spacedSpm.toVocab SpmSession.popFirst) ['a'] = none :=
  ⟨prompt_refused_iff byteSpm_numeric spacedSpm_readable SpmSession.lawful_popFirst
    (byteSpm_untouched _) (by decide) rfl rfl rfl, by decide +kernel⟩

end TextMaster
