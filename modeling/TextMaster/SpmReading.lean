import TextMaster.SpmControl

/-!
The way back from tokens to text: for the prompts of the program, which are UTF-8, the pieces of the
tokens spell the prompt again, a space in front of it and a space for every mark that it contains.
-/

namespace TextMaster

open GreedyMerge LazyMerge

def markChar : Char := '▁'

def escapeChar (char : Char) : Char := if char = ' ' then markChar else char

def readChar (char : Char) : Char := if char = markChar then ' ' else char

/-- A vocabulary whose tokens for a text are ordinary ones, or stand for bytes. -/
structure SpmVocab.Readable (vocab : SpmVocab) : Prop where
  ordinary : ∀ data ∈ vocab.tokens, Formed vocab.score Character data.text →
    data.normal = true ∧ data.isSpecial = false
  bytes : ∀ byte, ∃ data ∈ vocab.tokens, data.text = SpmVocab.byteName byte ∧
    data.isSpecial = false ∧ data.normal = false ∧ data.byte = true
  mark : ∃ data ∈ vocab.tokens, data.text = spaceMark
  bounds : ∀ id, id = vocab.bos ∨ id = vocab.eos → ∀ data, vocab.tokens[id]? = some data →
    (data.control || data.unknown) = true

/-- No token of the user's own choice is in the text. -/
def SpmVocab.Untouched (vocab : SpmVocab) (text : List UInt8) : Prop :=
  ∀ data ∈ vocab.tokens, data.isSpecial = true → (data.control || data.unknown) = false →
    findText data.text text = none

/-- What is shown of the tokens when each piece has the room that it needs. -/
def readBack (vocab : Vocab) (tokens : List Token) : List UInt8 :=
  tokens.flatMap fun token => (llamaTokenToPiece vocab token (vocab.piece token).length).2

def SpmVocab.shown (vocab : SpmVocab) (token : Nat) : List UInt8 :=
  vocab.tokens[token]?.elim [] fun data => if data.control || data.unknown then [] else data.piece

section Utf8

theorem unicodeLenUtf8_of_nibble {byte : UInt8} {nibble length : Nat}
    (high : byte.toNat / 16 = nibble)
    (same : [1, 1, 1, 1, 1, 1, 1, 1, 1, 1, 1, 1, 2, 2, 3, 4].getD nibble 1 = length) :
    unicodeLenUtf8 byte = length := by
  rw [unicodeLenUtf8, high, same]

theorem continuation (value : Nat) :
    128 ≤ (UInt8.ofNat (value % 64 + 128)).toNat ∧ (UInt8.ofNat (value % 64 + 128)).toNat < 192 := by
  rw [UInt8.toNat_ofNat']
  omega

theorem utf8EncodeChar_shape (char : Char) :
    ∃ head tail, String.utf8EncodeChar char = head :: tail ∧
      unicodeLenUtf8 head = tail.length + 1 ∧
      ∀ byte ∈ tail, 128 ≤ byte.toNat ∧ byte.toNat < 192 := by
  fun_cases String.utf8EncodeChar char with
  | case1 v small =>
      refine ⟨_, _, rfl, ?_, by simp⟩
      apply unicodeLenUtf8_ascii
      rw [UInt8.lt_iff_toNat_lt, UInt8.toNat_ofNat']
      exact Nat.lt_of_le_of_lt (Nat.mod_le _ _) (Nat.lt_succ_of_le small)
  | case2 v above small =>
      refine ⟨_, _, rfl, ?_, ?_⟩
      · have high : (UInt8.ofNat (v / 64 % 32 + 192)).toNat / 16 = 12 ∨
            (UInt8.ofNat (v / 64 % 32 + 192)).toNat / 16 = 13 := by
          rw [UInt8.toNat_ofNat']
          omega
        rcases high with twelve | thirteen
        · exact unicodeLenUtf8_of_nibble twelve rfl
        · exact unicodeLenUtf8_of_nibble thirteen rfl
      · intro byte member
        rw [List.mem_singleton.mp member]
        exact continuation v
  | case3 v above more small =>
      refine ⟨_, _, rfl, ?_, ?_⟩
      · have high : (UInt8.ofNat (v / 4096 % 16 + 224)).toNat / 16 = 14 := by
          rw [UInt8.toNat_ofNat']
          omega
        exact unicodeLenUtf8_of_nibble high rfl
      · intro byte member
        simp only [List.mem_cons, List.not_mem_nil, or_false] at member
        rcases member with rfl | rfl
        · exact continuation (v / 64)
        · exact continuation v
  | case4 v above more most =>
      refine ⟨_, _, rfl, ?_, ?_⟩
      · have high : (UInt8.ofNat (v / 262144 % 8 + 240)).toNat / 16 = 15 := by
          rw [UInt8.toNat_ofNat']
          omega
        exact unicodeLenUtf8_of_nibble high rfl
      · intro byte member
        simp only [List.mem_cons, List.not_mem_nil, or_false] at member
        rcases member with rfl | rfl | rfl
        · exact continuation (v / 4096)
        · exact continuation (v / 64)
        · exact continuation v

theorem utf8EncodeChar_character (char : Char) : Character (String.utf8EncodeChar char) := by
  obtain ⟨head, tail, same, length, _⟩ := utf8EncodeChar_shape char
  exact ⟨head, tail, same, by rw [same, length, List.length_cons]⟩

theorem utf8EncodeChar_mark : String.utf8EncodeChar markChar = spaceMark := by decide

theorem toStdString_injective {text other : QString} (same : toStdString text = toStdString other) :
    text = other := by
  have bytes : text.utf8Encode = other.utf8Encode := by
    rw [List.utf8Encode, List.utf8Encode]
    exact congrArg List.toByteArray same
  have decoded := congrArg ByteArray.utf8Decode? bytes
  rw [List.utf8Decode?_utf8Encode, List.utf8Decode?_utf8Encode] at decoded
  simpa using decoded

theorem toStdString_singleton (char : Char) : toStdString [char] = String.utf8EncodeChar char :=
  List.append_nil _

theorem utf8EncodeChar_injective {char other : Char}
    (same : String.utf8EncodeChar char = String.utf8EncodeChar other) : char = other := by
  rw [← toStdString_singleton, ← toStdString_singleton] at same
  exact List.singleton_inj.mp (toStdString_injective same)

theorem toStdString_cons (char : Char) (text : QString) :
    toStdString (char :: text) = String.utf8EncodeChar char ++ toStdString text :=
  List.flatMap_cons

theorem toStdString_append (text rest : QString) :
    toStdString (text ++ rest) = toStdString text ++ toStdString rest :=
  List.flatMap_append


theorem splitCharacters_toStdString (text : QString) :
    SpmSession.splitCharacters (toStdString text) = text.map String.utf8EncodeChar := by
  have general : ∀ fuel index, (toStdString text).length ≤ fuel →
      (SpmSession.characters fuel index (toStdString text)).map Prod.snd =
        text.map String.utf8EncodeChar := by
    induction text with
    | nil =>
        intro fuel index _
        rw [toStdString, List.flatMap_nil, SpmSession.characters_nil]
        rfl
    | cons char rest ih =>
        intro fuel index enough
        obtain ⟨head, tail, same, length, _⟩ := utf8EncodeChar_shape char
        rw [toStdString_cons, same, List.cons_append] at enough ⊢
        cases fuel with
        | zero => simp at enough
        | succ fuel =>
            have size : min (unicodeLenUtf8 head) ((tail ++ toStdString rest).length + 1) =
                (head :: tail).length := by
              rw [length, List.length_append, List.length_cons]
              omega
            rw [SpmSession.characters, size, ← List.cons_append, List.take_left' rfl,
              List.drop_left' rfl, List.map_cons, List.map_cons, same]
            rw [List.length_cons, List.length_append] at enough
            rw [ih fuel (index + 1) (by omega)]
  exact general _ 0 (Nat.le_refl _)

theorem escape_char (char : Char) :
    ((String.utf8EncodeChar char).flatMap fun byte => if byte = 32 then spaceMark else [byte]) =
      String.utf8EncodeChar (escapeChar char) := by
  by_cases space : char = ' '
  · subst space
    rfl
  · obtain ⟨head, tail, same, length, later⟩ := utf8EncodeChar_shape char
    have visible : ∀ byte ∈ String.utf8EncodeChar char,
        (if byte = 32 then spaceMark else [byte]) = [byte] := by
      intro byte member
      apply if_neg
      rintro rfl
      rw [same] at member
      rcases List.mem_cons.mp member with rfl | inTail
      · have alone : tail = [] := by
          rw [unicodeLenUtf8_ascii (by decide)] at length
          exact List.length_eq_zero_iff.mp (by omega)
        exact space (utf8EncodeChar_injective (by rw [same, alone]; rfl))
      · exact absurd (later 32 inTail).1 (by decide)
    rw [escapeChar, if_neg space, List.flatMap_def, List.map_congr_left visible,
      ← List.flatMap_def, List.flatMap_singleton']

theorem escape_toStdString (text : QString) :
    llamaEscapeWhitespace (toStdString text) = toStdString (text.map escapeChar) := by
  rw [escape_eq]
  induction text with
  | nil => rfl
  | cons char rest ih =>
      rw [toStdString_cons, List.flatMap_append, escape_char, ih, List.map_cons, toStdString_cons]

theorem replaceAll_copy {tail rest : List UInt8} {fuel : Nat}
    (other : ∀ byte ∈ tail, byte ≠ 0xe2) (enough : tail.length ≤ fuel) :
    replaceAll spaceMark [32] fuel (tail ++ rest) =
      tail ++ replaceAll spaceMark [32] (fuel - tail.length) rest := by
  induction tail generalizing fuel with
  | nil => rfl
  | cons byte tail ih =>
      cases fuel with
      | zero => simp at enough
      | succ fuel =>
          have apart : spaceMark.isPrefixOf (byte :: (tail ++ rest)) = false := by
            simpa [spaceMark, List.isPrefixOf] using
              fun same : 0xe2 = byte => absurd same.symm (other byte List.mem_cons_self)
          rw [List.length_cons] at enough
          rw [List.cons_append, replaceAll, if_neg (by simp [apart]), List.cons_append,
            ih (fun later member => other later (List.mem_cons_of_mem _ member)) (by omega),
            List.length_cons, Nat.succ_sub_succ]

theorem unescape_toStdString (text : QString) :
    llamaUnescapeWhitespace (toStdString text) = toStdString (text.map readChar) := by
  have general : ∀ fuel, (toStdString text).length ≤ fuel →
      replaceAll spaceMark [32] fuel (toStdString text) = toStdString (text.map readChar) := by
    induction text with
    | nil =>
        intro fuel _
        cases fuel <;> rfl
    | cons char rest ih =>
        intro fuel enough
        obtain ⟨head, tail, same, length, later⟩ := utf8EncodeChar_shape char
        rw [toStdString_cons] at enough ⊢
        rw [List.map_cons, toStdString_cons]
        cases fuel with
        | zero => simp [same] at enough
        | succ fuel =>
            by_cases marked : char = markChar
            · subst marked
              rw [utf8EncodeChar_mark, List.length_append, show spaceMark.length = 3 from rfl]
                at enough
              have bytes : String.utf8EncodeChar markChar ++ toStdString rest =
                  0xe2 :: 0x96 :: 0x81 :: toStdString rest := by rw [utf8EncodeChar_mark]; rfl
              have starts : spaceMark.isPrefixOf (0xe2 :: 0x96 :: 0x81 :: toStdString rest) = true := by
                simp [spaceMark, List.isPrefixOf]
              have behind : (0xe2 :: 0x96 :: 0x81 :: toStdString rest).drop spaceMark.length =
                  toStdString rest := rfl
              rw [bytes, replaceAll, if_pos starts, behind, ih fuel (by omega)]
              rfl
            · have inside : ∀ byte ∈ tail, byte ≠ 0xe2 := by
                rintro byte member rfl
                exact absurd (later _ member).2 (by decide)
              have apart : spaceMark.isPrefixOf (head :: (tail ++ toStdString rest)) = false := by
                rw [← Bool.not_eq_true, List.isPrefixOf_iff_prefix]
                intro starts
                rw [spaceMark, List.cons_prefix_cons] at starts
                obtain ⟨rfl, starts⟩ := starts
                have two : tail.length = 2 := Nat.succ.inj length.symm
                have whole : [0x96, 0x81] = tail := by
                  refine (List.prefix_of_prefix_length_le starts (List.prefix_append _ _)
                    (Nat.le_of_eq two.symm)).eq_of_length two.symm
                exact marked (utf8EncodeChar_injective (by rw [same, ← whole]; decide))
              rw [same, List.cons_append, List.length_cons, List.length_append] at enough
              rw [readChar, if_neg marked, same, List.cons_append, replaceAll,
                if_neg (by simp [apart]), replaceAll_copy inside (by omega), ih _ (by omega)]
              rfl
  exact general _ (Nat.le_refl _)

end Utf8

section Pieces

variable {vocab : SpmVocab} {data : TokenData} {tokens : List Nat} {text : QString} {pop : Pop}

theorem control_of_not_special (plain : data.isSpecial = false) :
    (data.control || data.unknown) = false := by
  rw [TokenData.isSpecial, Bool.or_eq_false_iff, Bool.or_eq_false_iff] at plain
  rw [plain.1.1, plain.2]
  rfl

theorem findIdx_of_mem (member : data ∈ vocab.tokens) :
    ∃ token, vocab.textToToken data.text = some token := by
  have found : (vocab.textToToken data.text).isSome = true := by
    rw [SpmVocab.textToToken, List.findIdx?_isSome, List.any_eq_true]
    exact ⟨data, member, beq_self_eq_true _⟩
  exact Option.isSome_iff_exists.mp found

theorem eq_of_text {other : TokenData} (member : data ∈ vocab.tokens) (rival : other ∈ vocab.tokens)
    (same : data.text = other.text) : data = other :=
  List.inj_on_of_nodup_map vocab.distinct member rival same

theorem SpmVocab.Readable.complete (readable : vocab.Readable) : vocab.Complete := by
  intro byte
  obtain ⟨data, member, named, _⟩ := readable.bytes byte
  obtain ⟨token, found⟩ := findIdx_of_mem member
  rw [named] at found
  rw [SpmVocab.byteToToken, found]
  rfl

theorem shown_byte (readable : vocab.Readable) {byte : UInt8} {token : Nat}
    (found : vocab.byteToToken byte = some token) : vocab.shown token = [byte] := by
  obtain ⟨data, member, named, plain, notNormal, isByte⟩ := readable.bytes byte
  obtain ⟨first, here⟩ := findIdx_of_mem member
  rw [named] at here
  rw [SpmVocab.byteToToken, here, Option.some_or, Option.some.injEq] at found
  subst found
  obtain ⟨other, there, text⟩ := textToToken_spec here
  obtain rfl := eq_of_text member (List.mem_of_getElem? there) (named.trans text.symm)
  rw [SpmVocab.shown, there, Option.elim_some, control_of_not_special plain, TokenData.piece, plain,
    notNormal, isByte, TokenData.tokenToByte, named, strtolByte_byteName]
  rfl

theorem shown_bytes (readable : vocab.Readable) {segment : List UInt8}
    (found : segment.mapM vocab.byteToToken = some tokens) :
    tokens.flatMap vocab.shown = segment := by
  induction segment generalizing tokens with
  | nil =>
      obtain rfl : [] = tokens := Option.some.inj found
      rfl
  | cons byte rest ih =>
      simp only [List.mapM_cons, Option.bind_eq_bind, Option.bind_eq_some_iff, Option.pure_def,
        Option.some.injEq] at found
      obtain ⟨token, here, others, later, rfl⟩ := found
      rw [List.flatMap_cons, shown_byte readable here, ih later]
      rfl

theorem merges_groups {segments final : List (List UInt8)} {groups : List QString}
    (merges : Merges vocab.score segments final) (same : segments = groups.map toStdString) :
    ∃ parts : List QString, final = parts.map toStdString ∧ parts.flatten = groups.flatten := by
  induction merges generalizing groups with
  | done => exact ⟨groups, same, rfl⟩
  | step segments before left right after final value best _ ih =>
      have split := same.symm.trans best.mergeable.split
      obtain ⟨early, others, rfl, rfl, fromLeft⟩ := List.map_eq_append_iff.mp split
      obtain ⟨first, more, rfl, rfl, fromRight⟩ := List.map_eq_cons_iff.mp fromLeft
      obtain ⟨second, late, rfl, rfl, rfl⟩ := List.map_eq_cons_iff.mp fromRight
      have joined : early.map toStdString ++
          (toStdString first ++ toStdString second) :: late.map toStdString =
            (early ++ (first ++ second) :: late).map toStdString := by
        simp [toStdString_append]
      obtain ⟨parts, spelled, flat⟩ := ih joined
      exact ⟨parts, spelled, by simp [flat]⟩

def OneChar (segment : List UInt8) : Prop := ∃ char, segment = String.utf8EncodeChar char

theorem shown_group (readable : vocab.Readable) {group : QString}
    (formed : Formed vocab.score OneChar (toStdString group))
    (found : SpmSession.segmentTokens vocab (toStdString group) = some tokens) :
    tokens.flatMap vocab.shown = toStdString (group.map readChar) := by
  rw [SpmSession.segmentTokens] at found
  cases named : vocab.textToToken (toStdString group) with
  | some token =>
      rw [named, Option.some.injEq] at found
      subst found
      obtain ⟨data, there, text⟩ := textToToken_spec named
      have characters : Formed vocab.score Character data.text := by
        rw [text]
        apply formed.mono
        rintro segment ⟨char, rfl⟩
        exact utf8EncodeChar_character char
      obtain ⟨normal, plain⟩ := readable.ordinary data (List.mem_of_getElem? there) characters
      rw [List.flatMap_singleton, SpmVocab.shown, there, Option.elim_some,
        control_of_not_special plain, TokenData.piece, plain, normal, text,
        ← unescape_toStdString]
      rfl
  | none =>
      rw [named] at found
      rw [shown_bytes readable found]
      generalize bytes : toStdString group = segment at formed named
      cases formed with
      | given _ one =>
          obtain ⟨char, rfl⟩ := one
          rw [← toStdString_singleton] at bytes
          obtain rfl := toStdString_injective bytes
          have unmarked : char ≠ markChar := by
            rintro rfl
            obtain ⟨data, member, text⟩ := readable.mark
            obtain ⟨token, there⟩ := findIdx_of_mem member
            rw [text, ← utf8EncodeChar_mark, named] at there
            contradiction
          rw [List.map_singleton, readChar, if_neg unmarked, toStdString_singleton]
      | joined left right value _ _ scored =>
          obtain ⟨token, _, there, _⟩ := SpmSession.score_eq_some.mp scored
          rw [named] at there
          contradiction

theorem shown_groups (readable : vocab.Readable) {groups : List QString}
    (formed : ∀ group ∈ groups, Formed vocab.score OneChar (toStdString group))
    (found : SpmSession.segmentsTokens vocab (groups.map toStdString) = some tokens) :
    tokens.flatMap vocab.shown = toStdString (groups.flatten.map readChar) := by
  induction groups generalizing tokens with
  | nil =>
      obtain rfl : [] = tokens := Option.some.inj found
      rfl
  | cons group rest ih =>
      rw [List.map_cons, SpmSession.segmentsTokens_cons, Option.bind_eq_some_iff] at found
      obtain ⟨first, here, found⟩ := found
      obtain ⟨later, there, same⟩ := Option.bind_eq_some_iff.mp found
      obtain rfl := Option.some.inj same
      have others := ih (fun other member => formed other (List.mem_cons_of_mem _ member)) there
      rw [List.flatMap_append, shown_group readable (formed group List.mem_cons_self) here, others,
        List.flatten_cons, List.map_append, toStdString_append]

theorem readChar_escapeChar (char : Char) : readChar (escapeChar char) = readChar char := by
  by_cases space : char = ' '
  · subst space
    decide
  · rw [escapeChar, if_neg space]

theorem shown_session (numeric : vocab.Numeric) (readable : vocab.Readable) (lawful : Lawful pop)
    (nonempty : text ≠ [])
    (found : SpmSession.tokenize vocab pop (llamaEscapeWhitespace (toStdString text)) =
      some tokens) :
    tokens.flatMap vocab.shown = toStdString (text.map readChar) := by
  rw [escape_toStdString] at found
  have filled : toStdString (text.map escapeChar) ≠ [] := by
    have bytes := length_le_toStdString (text.map escapeChar)
    have positive := List.length_pos_iff.mpr nonempty
    rw [List.length_map] at bytes
    rw [← List.length_pos_iff]
    omega
  obtain ⟨final, merges, session⟩ := SpmSession.tokenize_eq numeric lawful filled
  rw [splitCharacters_toStdString] at merges
  have single : (text.map escapeChar).map String.utf8EncodeChar =
      ((text.map escapeChar).map fun char => [char]).map toStdString := by
    rw [List.map_map, List.map_map, List.map_map]
    exact List.map_congr_left fun char _ => (toStdString_singleton _).symm
  obtain ⟨groups, rfl, flat⟩ := merges_groups merges single
  have formed : ∀ segment ∈ groups.map toStdString, Formed vocab.score OneChar segment :=
    merges.formed fun segment member => by
      obtain ⟨char, _, rfl⟩ := List.mem_map.mp member
      exact .given _ ⟨char, rfl⟩
  rw [session] at found
  have shown := shown_groups readable
    (fun group member => formed _ (List.mem_map_of_mem member)) found
  rw [shown, flat]
  congr 1
  rw [← List.flatMap_def, List.flatMap_singleton', List.map_map]
  exact List.map_congr_left fun char _ => readChar_escapeChar char

end Pieces

section Prompts

variable {vocab : SpmVocab} {tokens : List Nat} {pop : Pop}

theorem partition_untouched {text : List UInt8} (untouched : vocab.Untouched text) :
    vocab.tokenizerStPartition false (Fragment.ofText text) = Fragment.ofText text := by
  have step : ∀ data, data ∈ vocab.tokens → data.isSpecial = true →
      (data.control || data.unknown) = false → ∀ id,
        (Fragment.ofText text).flatMap (data.partitionFragment id) = Fragment.ofText text := by
    intro data member special parsed id
    unfold Fragment.ofText
    by_cases empty : text = []
    · rw [if_pos empty]
      rfl
    · obtain ⟨length, size⟩ := Nat.exists_eq_succ_of_ne_zero
        (Nat.ne_of_gt (List.length_pos_iff.mpr empty))
      rw [if_neg empty, List.flatMap_singleton, TokenData.partitionFragment, size,
        TokenData.partitionText, untouched data member special parsed]
      simp [Fragment.ofText, empty]
  have known : ∀ id ∈ vocab.specialTokens, ∀ data, vocab.tokens[id]? = some data →
      data.isSpecial = true := by
    intro id member data there
    obtain ⟨other, same, special⟩ := (vocab.special id).mp member
    rw [there, Option.some.injEq] at same
    exact same ▸ special
  unfold SpmVocab.tokenizerStPartition
  revert known
  induction vocab.specialTokens with
  | nil => exact fun _ => rfl
  | cons id rest ih =>
      intro known
      rw [List.foldl_cons]
      have others := ih fun other member => known other (List.mem_cons_of_mem _ member)
      cases there : vocab.tokens[id]? with
      | none => exact others
      | some data =>
          simp only [Bool.not_false, Bool.true_and]
          cases parsed : data.control || data.unknown with
          | true => exact others
          | false =>
              have special := known id List.mem_cons_self data there
              rw [if_neg (by simp), step data (List.mem_of_getElem? there) special parsed id]
              exact others

theorem shown_prompt (numeric : vocab.Numeric) (readable : vocab.Readable) (lawful : Lawful pop)
    {prompt : QString} (untouched : vocab.Untouched (toStdString prompt)) (nonempty : prompt ≠ [])
    (found : vocab.fragmentTokens pop true
      (vocab.tokenizerStPartition false (Fragment.ofText (toStdString prompt))) = some tokens) :
    tokens.flatMap vocab.shown =
      toStdString ((if vocab.addSpacePrefix then ' ' :: prompt else prompt).map readChar) := by
  have filled : toStdString prompt ≠ [] := fun empty => nonempty (toStdString_injective empty)
  rw [partition_untouched untouched, Fragment.ofText, if_neg filled, SpmVocab.fragmentTokens,
    Bool.and_true] at found
  obtain ⟨first, session, found⟩ := Option.bind_eq_some_iff.mp found
  obtain ⟨later, rest, rfl⟩ := Option.map_eq_some_iff.mp found
  obtain rfl : [] = later := Option.some.inj rest
  rw [List.append_nil]
  cases prefixed : vocab.addSpacePrefix with
  | true =>
      rw [prefixed] at session
      exact shown_session numeric readable lawful (List.cons_ne_nil ' ' prompt) session
  | false =>
      rw [prefixed] at session
      exact shown_session numeric readable lawful nonempty session

theorem readBack_toVocab (tokens : List Nat) :
    readBack (vocab.toVocab pop) (tokens.map fun (token : Nat) => (token : Token)) =
      tokens.flatMap vocab.shown := by
  rw [readBack, List.flatMap_map]
  congr 1
  funext token
  rcases Option.eq_none_or_eq_some vocab.tokens[token]? with there | ⟨data, there⟩
  · simp [llamaTokenToPiece, SpmVocab.toVocab, SpmVocab.shown, there]
  · simp only [llamaTokenToPiece, SpmVocab.toVocab, SpmVocab.shown, Int.toNat_natCast, there,
      Option.elim_some, Nat.lt_irrefl, if_false]
    split <;> rfl

theorem exists_within (vocab : SpmVocab) : ∃ limit, vocab.Within limit := by
  obtain ⟨limit, longest⟩ : ∃ limit, ∀ data ∈ vocab.tokens, data.text.length ≤ limit := by
    induction vocab.tokens with
    | nil => exact ⟨0, by simp⟩
    | cons data rest ih =>
        obtain ⟨limit, longest⟩ := ih
        refine ⟨max data.text.length limit, fun other member => ?_⟩
        rcases List.mem_cons.mp member with rfl | later
        · exact Nat.le_max_left _ _
        · exact Nat.le_trans (longest other later) (Nat.le_max_right _ _)
  exact ⟨limit + 1, Nat.le_add_left 1 limit,
    fun data member => Nat.le_succ_of_le (longest data member)⟩

theorem shown_bound (readable : vocab.Readable) (added : Bool) {id : Nat}
    (bound : id = vocab.bos ∨ id = vocab.eos) :
    (if added then [id] else []).flatMap vocab.shown = [] := by
  cases added with
  | false => rfl
  | true =>
      rw [if_pos rfl, List.flatMap_singleton, SpmVocab.shown]
      cases there : vocab.tokens[id]? with
      | none => rfl
      | some data => rw [Option.elim_some, if_pos (readable.bounds id bound data there)]

/-- The tokens of a prompt show the prompt: a space may stand in front, and the character that
stands for a space is shown as one. -/
theorem prompt_read (numeric : vocab.Numeric) (readable : vocab.Readable) (lawful : Lawful pop)
    {prompt : QString} (untouched : vocab.Untouched (toStdString prompt)) (nonempty : prompt ≠ [])
    {tokens : List Token} (tokenized : promptTokens (vocab.toVocab pop) prompt = some tokens) :
    readBack (vocab.toVocab pop) tokens =
      toStdString ((if vocab.addSpacePrefix then ' ' :: prompt else prompt).map readChar) := by
  obtain ⟨rfl, _⟩ := promptTokens_eq_some.mp tokenized
  obtain ⟨limit, within⟩ := exists_within vocab
  have sound : ∀ fragment ∈ Fragment.ofText (toStdString prompt), fragment.Sound vocab :=
    ofText_sound _
  rw [← partition_untouched untouched] at sound
  obtain ⟨middle, found, _⟩ :=
    fragmentTokens_counted numeric readable.complete within lawful sound true
  have whole : vocab.tokenize pop true false (toStdString prompt) =
      some ((if vocab.addBos then [vocab.bos] else []) ++ middle ++
        if vocab.addEos then [vocab.eos] else []) := by
    rw [SpmVocab.tokenize, found]
    rfl
  have tokens : (vocab.toVocab pop).tokenize (toStdString prompt) =
      ((if vocab.addBos then [vocab.bos] else []) ++ middle ++
        if vocab.addEos then [vocab.eos] else []).map fun (token : Nat) => (token : Token) := by
    simp only [SpmVocab.toVocab, whole, Option.getD_some]
  rw [tokens, readBack_toVocab, List.flatMap_append, List.flatMap_append,
    shown_bound readable _ (Or.inl rfl), shown_bound readable _ (Or.inr rfl), List.nil_append,
    List.append_nil, shown_prompt numeric readable lawful untouched nonempty found]

theorem byteSpm_readable : byteSpm.Readable := by
  constructor
  · intro data member formed
    have alone := byteSpm_formed formed
    rcases byteSpm_tokens member with rfl | rfl | rfl | ⟨byte, rfl⟩
    · exact absurd (character_ascii (by decide) alone) (by decide)
    · exact absurd (character_ascii (by decide) alone) (by decide)
    · exact ⟨rfl, rfl⟩
    · exact absurd (character_ascii (by decide) alone) (List.cons_ne_nil _ _)
  · exact fun byte => ⟨byteToken byte, byteToken_mem byte, rfl, rfl, rfl, rfl⟩
  · exact ⟨normalToken spaceMark Binary32.one, by simp [byteSpm], rfl⟩
  · rintro id (rfl | rfl) data there
    · obtain rfl : controlToken [60, 115, 62] = data := Option.some.inj there
      rfl
    · obtain rfl : controlToken [60, 47, 115, 62] = data := Option.some.inj there
      rfl

theorem byteSpm_untouched (text : List UInt8) : byteSpm.Untouched text := by
  intro data member special parsed
  rcases byteSpm_tokens member with rfl | rfl | rfl | ⟨byte, rfl⟩ <;> contradiction

theorem prompt_read_letters :
    readBack (byteSpm.toVocab SpmSession.popFirst) [0, 100, 2, 101] =
      toStdString ((if byteSpm.addSpacePrefix then ' ' :: ['a', ' ', 'b']
        else ['a', ' ', 'b']).map readChar) := by
  have tokenized : promptTokens (byteSpm.toVocab SpmSession.popFirst) ['a', ' ', 'b'] =
      some [0, 100, 2, 101] := by decide +kernel
  exact prompt_read byteSpm_numeric byteSpm_readable SpmSession.lawful_popFirst
    (byteSpm_untouched _) (by decide) tokenized

end Prompts

end TextMaster
