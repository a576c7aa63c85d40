import TextMaster.SpmTokens

/-!
The fragments between which the special tokens of a text are recognised: they spell the text, and
none of the raw ones still contains a special token that was looked for.
-/

namespace TextMaster

variable {vocab : SpmVocab} {data : TokenData} {search text part : List UInt8} {parseSpecial : Bool}

def TokenData.Parsed (data : TokenData) (parseSpecial : Bool) : Prop :=
  data.isSpecial = true ∧ (parseSpecial = true ∨ (data.control || data.unknown) = false)

structure Partitioned (vocab : SpmVocab) (parseSpecial : Bool) (text : List UInt8)
    (fragments : List Fragment) : Prop where
  spelled : (fragments.map (Fragment.spelled vocab)).flatten = text
  filled : .rawText [] ∉ fragments
  searched : ∀ part, .rawText part ∈ fragments → ∀ data ∈ vocab.tokens, data.Parsed parseSpecial →
    ¬ data.text <:+: part
  recognised : ∀ id, .token id ∈ fragments → ∃ data, vocab.tokens[id]? = some data ∧
    data.Parsed parseSpecial

section Search

theorem not_infix_of_findText (nonempty : search ≠ []) (absent : findText search text = none) :
    ¬ search <:+: text := by
  induction text with
  | nil => exact fun inside => nonempty (List.infix_nil.mp inside)
  | cons byte rest ih =>
      rw [findText] at absent
      by_cases starts : search.isPrefixOf (byte :: rest) = true
      · rw [if_pos starts] at absent
        contradiction
      · rw [if_neg starts, Option.map_eq_none_iff] at absent
        intro inside
        rcases List.infix_cons_iff.mp inside with here | later
        · exact starts (List.isPrefixOf_iff_prefix.mpr here)
        · exact ih absent later

theorem not_infix_take_of_findText (nonempty : search ≠ []) {found : Nat}
    (there : findText search text = some found) : ¬ search <:+: text.take found := by
  induction text generalizing found with
  | nil => simp [findText] at there
  | cons byte rest ih =>
      rw [findText] at there
      by_cases starts : search.isPrefixOf (byte :: rest) = true
      · rw [if_pos starts, Option.some.injEq] at there
        subst there
        exact fun inside => nonempty (List.infix_nil.mp inside)
      · rw [if_neg starts, Option.map_eq_some_iff] at there
        obtain ⟨earlier, later, rfl⟩ := there
        rw [List.take_succ_cons]
        intro inside
        rcases List.infix_cons_iff.mp inside with here | behind
        · have whole : search <+: byte :: rest :=
            here.trans ((List.prefix_cons_inj byte).mpr (List.take_prefix earlier rest))
          exact starts (List.isPrefixOf_iff_prefix.mpr whole)
        · exact ih later behind

end Search

section Raw

theorem rawText_mem_ofText (member : .rawText part ∈ Fragment.ofText text) :
    part = text ∧ text ≠ [] := by
  unfold Fragment.ofText at member
  split at member
  · simp at member
  · next nonempty =>
      rw [List.mem_singleton, Fragment.rawText.injEq] at member
      exact ⟨member, nonempty⟩

theorem token_mem_ofText {id : Nat} : .token id ∉ Fragment.ofText text := by
  unfold Fragment.ofText
  split
  · simp
  · simp

theorem partitionText_raw (nonempty : data.text ≠ []) {id fuel : Nat} (enough : text.length ≤ fuel)
    (member : .rawText part ∈ data.partitionText id fuel text) :
    part ≠ [] ∧ part <:+: text ∧ ¬ data.text <:+: part := by
  induction fuel generalizing text with
  | zero =>
      have empty := List.length_eq_zero_iff.mp (Nat.eq_zero_of_le_zero enough)
      exact absurd empty (rawText_mem_ofText member).2
  | succ fuel ih =>
      rw [TokenData.partitionText] at member
      cases found : findText data.text text with
      | none =>
          rw [found] at member
          obtain ⟨rfl, filled⟩ := rawText_mem_ofText member
          exact ⟨filled, List.infix_refl part, not_infix_of_findText nonempty found⟩
      | some place =>
          rw [found] at member
          rcases List.mem_append.mp member with left | behind
          · obtain ⟨rfl, filled⟩ := rawText_mem_ofText left
            have before : (if data.lstrip then (text.take place).rdropWhile isSpaceByte
                else text.take place) <+: text.take place := by
              split
              · exact List.rdropWhile_prefix _ _
              · exact List.prefix_refl _
            refine ⟨filled, (before.trans (List.take_prefix place text)).isInfix, ?_⟩
            intro inside
            exact not_infix_take_of_findText nonempty found (inside.trans before.isInfix)
          · rcases List.mem_cons.mp behind with other | right
            · contradiction
            · have after : (if data.rstrip then
                  (text.drop (place + data.text.length)).dropWhile isSpaceByte
                  else text.drop (place + data.text.length)) <:+
                    text.drop (place + data.text.length) := by
                split
                · exact List.dropWhile_suffix _
                · exact List.suffix_refl _
              have shorter : text.length ≤ fuel + 1 := enough
              have token := List.length_pos_iff.mpr nonempty
              have rest := after.length_le
              rw [List.length_drop] at rest
              obtain ⟨filled, inside, without⟩ := ih (by omega) right
              exact ⟨filled, (inside.trans after.isInfix).trans (List.drop_suffix _ _).isInfix,
                without⟩

theorem partitionText_token {id other fuel : Nat}
    (member : .token other ∈ data.partitionText id fuel text) : other = id := by
  induction fuel generalizing text with
  | zero => exact absurd member token_mem_ofText
  | succ fuel ih =>
      rw [TokenData.partitionText] at member
      cases found : findText data.text text with
      | none =>
          rw [found] at member
          exact absurd member token_mem_ofText
      | some place =>
          rw [found] at member
          rcases List.mem_append.mp member with left | behind
          · exact absurd left token_mem_ofText
          · rcases List.mem_cons.mp behind with same | right
            · exact Fragment.token.inj same
            · exact ih right

end Raw

section Fold

def Searched (sought : List UInt8 → Prop) (buffer : List Fragment) : Prop :=
  ∀ part, .rawText part ∈ buffer → part ≠ [] ∧ ∀ text, sought text → ¬ text <:+: part

def Recognised (vocab : SpmVocab) (parseSpecial : Bool) (buffer : List Fragment) : Prop :=
  ∀ id, .token id ∈ buffer → ∃ data, vocab.tokens[id]? = some data ∧ data.Parsed parseSpecial

variable {sought : List UInt8 → Prop} {buffer : List Fragment}

theorem flatMap_searched (nonempty : data.text ≠ []) (id : Nat) (searched : Searched sought buffer) :
    Searched (fun text => sought text ∨ text = data.text)
      (buffer.flatMap (data.partitionFragment id)) := by
  intro part member
  obtain ⟨fragment, inside, partIn⟩ := List.mem_flatMap.mp member
  cases fragment with
  | token other => simp [TokenData.partitionFragment] at partIn
  | rawText whole =>
      obtain ⟨filled, within, without⟩ := partitionText_raw nonempty (Nat.le_refl _) partIn
      refine ⟨filled, ?_⟩
      rintro text (earlier | rfl) found
      · exact (searched whole inside).2 text earlier (found.trans within)
      · exact without found

theorem flatMap_recognised {id : Nat} (there : vocab.tokens[id]? = some data)
    (parsed : data.Parsed parseSpecial) (recognised : Recognised vocab parseSpecial buffer) :
    Recognised vocab parseSpecial (buffer.flatMap (data.partitionFragment id)) := by
  intro other member
  obtain ⟨fragment, inside, partIn⟩ := List.mem_flatMap.mp member
  cases fragment with
  | token same =>
      obtain rfl := Fragment.token.inj (List.mem_singleton.mp partIn)
      exact recognised other inside
  | rawText whole =>
      obtain rfl := partitionText_token partIn
      exact ⟨data, there, parsed⟩

def Target (vocab : SpmVocab) (parseSpecial : Bool) (id : Nat) (text : List UInt8) : Prop :=
  ∃ data, vocab.tokens[id]? = some data ∧ data.Parsed parseSpecial ∧ text = data.text

theorem Searched.mono {wider : List UInt8 → Prop} (searched : Searched sought buffer)
    (weaken : ∀ text, wider text → sought text) : Searched wider buffer :=
  fun part member => ⟨(searched part member).1,
    fun text wanted => (searched part member).2 text (weaken text wanted)⟩

theorem partition_step {id : Nat} (special : id ∈ vocab.specialTokens)
    (searched : Searched sought buffer) (recognised : Recognised vocab parseSpecial buffer) :
    let next := match vocab.tokens[id]? with
      | none => buffer
      | some data =>
        if !parseSpecial && (data.control || data.unknown) then buffer
        else buffer.flatMap (data.partitionFragment id)
    Searched (fun text => sought text ∨ Target vocab parseSpecial id text) next ∧
      Recognised vocab parseSpecial next := by
  obtain ⟨data, there, marked⟩ := (vocab.special id).mp special
  simp only [there]
  by_cases ignored : (!parseSpecial && (data.control || data.unknown)) = true
  · rw [if_pos ignored]
    refine ⟨searched.mono ?_, recognised⟩
    rintro text (earlier | ⟨other, same, ⟨_, looked⟩, _⟩)
    · exact earlier
    · rw [there, Option.some.injEq] at same
      subst same
      simp only [Bool.and_eq_true, Bool.not_eq_true'] at ignored
      rcases looked with parsed | plain
      · rw [ignored.1] at parsed
        contradiction
      · rw [ignored.2] at plain
        contradiction
  · rw [if_neg ignored]
    have parsed : data.Parsed parseSpecial := by
      refine ⟨marked, ?_⟩
      rw [Bool.and_eq_true, Bool.not_eq_true', not_and] at ignored
      cases parseSpecial with
      | true => exact Or.inl rfl
      | false => exact Or.inr (by simpa using ignored rfl)
    have nonempty := vocab.nonempty data (List.mem_of_getElem? there)
    refine ⟨(flatMap_searched nonempty id searched).mono ?_,
      flatMap_recognised there parsed recognised⟩
    rintro text (earlier | ⟨other, same, _, rfl⟩)
    · exact Or.inl earlier
    · rw [there, Option.some.injEq] at same
      exact Or.inr (same ▸ rfl)

theorem tokenizerStPartition_searched (searched : Searched sought buffer)
    (recognised : Recognised vocab parseSpecial buffer) :
    Searched (fun text => sought text ∨ ∃ id ∈ vocab.specialTokens, Target vocab parseSpecial id text)
      (vocab.tokenizerStPartition parseSpecial buffer) ∧
      Recognised vocab parseSpecial (vocab.tokenizerStPartition parseSpecial buffer) := by
  unfold SpmVocab.tokenizerStPartition
  obtain ⟨ids, listed⟩ : ∃ ids, ids = vocab.specialTokens := ⟨_, rfl⟩
  have known : ∀ id ∈ ids, id ∈ vocab.specialTokens := fun id member => listed ▸ member
  rw [← listed]
  clear listed
  induction ids generalizing buffer sought with
  | nil =>
      refine ⟨searched.mono ?_, recognised⟩
      rintro text (earlier | ⟨_, none, _⟩)
      · exact earlier
      · simp at none
  | cons id rest ih =>
      obtain ⟨parts, tokens⟩ := partition_step (known id List.mem_cons_self) searched recognised
      obtain ⟨whole, last⟩ :=
        ih parts tokens fun other member => known other (List.mem_cons_of_mem _ member)
      refine ⟨whole.mono ?_, last⟩
      rintro text (earlier | ⟨other, inside, target⟩)
      · exact Or.inl (Or.inl earlier)
      · rcases List.mem_cons.mp inside with rfl | later
        · exact Or.inl (Or.inr target)
        · exact Or.inr ⟨other, later, target⟩

theorem tokenizerStPartition_correct (unstripped : vocab.Unstripped) (parseSpecial : Bool)
    (text : List UInt8) :
    Partitioned vocab parseSpecial text
      (vocab.tokenizerStPartition parseSpecial (Fragment.ofText text)) := by
  have sound : ∀ fragment ∈ Fragment.ofText text, fragment.Sound vocab := ofText_sound text
  have spelled := (tokenizerStPartition_spelled unstripped parseSpecial sound).1
  have searched : Searched (fun _ => False) (Fragment.ofText text) := by
    intro part member
    obtain ⟨rfl, filled⟩ := rawText_mem_ofText member
    exact ⟨filled, fun _ none => none.elim⟩
  have recognised : Recognised vocab parseSpecial (Fragment.ofText text) :=
    fun id member => absurd member token_mem_ofText
  obtain ⟨parts, tokens⟩ := tokenizerStPartition_searched searched recognised
  refine ⟨spelled.trans (ofText_spelled text), fun member => (parts [] member).1 rfl, ?_, tokens⟩
  intro part member data inside parsed
  apply (parts part member).2
  obtain ⟨id, there⟩ := List.getElem?_of_mem inside
  exact Or.inr ⟨id, (vocab.special id).mpr ⟨data, there, parsed.1⟩, data, there, parsed, rfl⟩

theorem pairSpm_unstripped : pairSpm.Unstripped := by
  intro data member
  simp only [pairSpm, List.mem_cons, List.not_mem_nil, or_false] at member
  rcases member with rfl | rfl | rfl | rfl | rfl | rfl <;> exact ⟨rfl, rfl⟩

theorem tokenizerStPartition_named :
    Partitioned pairSpm true [60, 115, 62, 97, 60, 47, 115, 62]
      (pairSpm.tokenizerStPartition true (Fragment.ofText [60, 115, 62, 97, 60, 47, 115, 62])) ∧
      pairSpm.tokenizerStPartition true (Fragment.ofText [60, 115, 62, 97, 60, 47, 115, 62]) =
        [.token 0, .rawText [97], .token 1] :=
  ⟨tokenizerStPartition_correct pairSpm_unstripped true _, by decide⟩

end Fold

end TextMaster
