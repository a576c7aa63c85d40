import TextMaster.KeyPointsCore

/-!
What the list of key points holds: which candidates reach it, that every candidate is found in
it, and how much of its order depends on the iteration over a set.
-/

namespace TextMaster.NlpProcessor

def EntityPoint (ent : Entity) (point : PyString) : Prop :=
  ent.label ∈ acceptedLabels ∧ cleanText ent.text = point ∧ 1 < (split point).length

def LongSentence (sent : PyString) : Prop := 3 < (split sent).length

instance (sent : PyString) : Decidable (LongSentence sent) := inferInstanceAs (Decidable (_ < _))

theorem Entity.accepted_iff (ent : Entity) : ent.accepted = true ↔ ent.label ∈ acceptedLabels := by
  rw [Entity.accepted, List.contains_iff_mem]

section Points

variable {points base chosen : List PyString} {point sent : PyString}

theorem mem_addPoint : point ∈ addPoint points sent ↔ point ∈ points ∨ point = sent := by
  rw [addPoint]
  split
  · rename_i present
    constructor
    · exact Or.inl
    · rintro (member | rfl)
      · exact member
      · exact present
  · simp

theorem nodup_append_new (distinct : points.Nodup) (new : sent ∉ points) :
    (points ++ [sent]).Nodup := by
  rw [← List.concat_eq_append]
  exact distinct.concat new

theorem addPoint_nodup (distinct : points.Nodup) : (addPoint points sent).Nodup := by
  rw [addPoint]
  split
  · exact distinct
  · rename_i absent
    exact nodup_append_new distinct absent

theorem addEntity_cases (points : List PyString) (ent : Entity) :
    (EntityPoint ent (cleanText ent.text) ∧
        addEntity points ent = addPoint points (cleanText ent.text)) ∨
      ((∀ point, ¬ EntityPoint ent point) ∧ addEntity points ent = points) := by
  rw [addEntity]
  split
  · rename_i accepted
    split
    · rename_i several
      exact Or.inl ⟨⟨ent.accepted_iff.mp accepted, rfl, several⟩, rfl⟩
    · rename_i single
      refine Or.inr ⟨?_, rfl⟩
      rintro point ⟨_, rfl, several⟩
      exact single several
  · rename_i refused
    exact Or.inr ⟨fun point counts => refused (ent.accepted_iff.mpr counts.1), rfl⟩

theorem addEntities_mem (ents : List Entity) (points : List PyString) :
    point ∈ ents.foldl addEntity points ↔
      point ∈ points ∨ ∃ ent ∈ ents, EntityPoint ent point := by
  induction ents generalizing points with
  | nil => simp
  | cons ent rest ih =>
      rw [List.foldl_cons, ih]
      rcases addEntity_cases points ent with ⟨counts, added⟩ | ⟨never, same⟩
      · have only : EntityPoint ent point ↔ point = cleanText ent.text := by
          constructor
          · exact fun other => other.2.1.symm
          · rintro rfl
            exact counts
        rw [added, mem_addPoint, List.exists_mem_cons_iff, only, or_assoc]
      · rw [same, List.exists_mem_cons_iff]
        simp [never point]

theorem addEntities_nodup (ents : List Entity) (distinct : points.Nodup) :
    (ents.foldl addEntity points).Nodup := by
  induction ents generalizing points with
  | nil => exact distinct
  | cons ent rest ih =>
      rw [List.foldl_cons]
      apply ih
      rcases addEntity_cases points ent with ⟨_, added⟩ | ⟨_, same⟩
      · rw [added]
        exact addPoint_nodup distinct
      · rwa [same]

/-- The points stand for the candidates: each point is one, and each candidate is part of a
point. -/
structure Represents (base candidates points : List PyString) : Prop where
  distinct : points.Nodup
  kept : ∀ point ∈ base, point ∈ points
  sound : ∀ point ∈ points, point ∈ candidates
  covered : ∀ candidate ∈ candidates, ∃ point ∈ points, candidate <:+: point

theorem addSentence_short (short : ¬ LongSentence sent) : addSentence points sent = points := by
  rw [addSentence, if_neg fun counts => short counts.2]

theorem addSentence_long (long : LongSentence sent) :
    addSentence points sent =
      if ∃ point ∈ points, sent <:+: point then points else points ++ [sent] := by
  have filled : sent ≠ [] := by
    rintro rfl
    exact absurd long (by decide)
  have asked : points.any (fun point => contains point sent) = true ↔
      ∃ point ∈ points, sent <:+: point := by
    simp [contains_iff]
  rw [addSentence, if_pos ⟨filled, long⟩]
  by_cases found : ∃ point ∈ points, sent <:+: point
  · rw [if_pos (asked.mpr found), if_pos found]
  · have absent : sent ∉ points := fun member => found ⟨sent, member, List.infix_refl sent⟩
    rw [if_neg (mt asked.mp found), if_neg found, addPoint, if_neg absent]

theorem addSentences_filter (chosen points : List PyString) :
    chosen.foldl addSentence points =
      (chosen.filter fun sent => LongSentence sent).foldl addSentence points := by
  induction chosen generalizing points with
  | nil => rfl
  | cons sent rest ih =>
      by_cases long : LongSentence sent
      · rw [List.filter_cons_of_pos (by simpa using long), List.foldl_cons, List.foldl_cons, ih]
      · rw [List.filter_cons_of_neg (by simpa using long), List.foldl_cons,
          addSentence_short long, ih]

theorem represents_base (distinct : base.Nodup) : Represents base base base :=
  ⟨distinct, fun _ => id, fun _ => id, fun point member => ⟨point, member, List.infix_refl point⟩⟩

theorem represents_part_iff {candidates : List PyString} (sent : PyString)
    (represents : Represents base candidates points) :
    (∃ point ∈ points, sent <:+: point) ↔ ∃ candidate ∈ candidates, sent <:+: candidate := by
  constructor
  · rintro ⟨point, member, part⟩
    exact ⟨point, represents.sound point member, part⟩
  · rintro ⟨candidate, member, part⟩
    obtain ⟨point, present, whole⟩ := represents.covered candidate member
    exact ⟨point, present, part.trans whole⟩

theorem addSentence_represents {candidates : List PyString} (long : LongSentence sent)
    (represents : Represents base candidates points) :
    Represents base (candidates ++ [sent]) (addSentence points sent) := by
  rw [addSentence_long long]
  obtain ⟨distinct, kept, sound, covered⟩ := represents
  split
  · rename_i found
    refine ⟨distinct, kept, fun point member => List.mem_append_left _ (sound point member), ?_⟩
    intro candidate member
    rcases List.mem_append.mp member with earlier | last
    · exact covered candidate earlier
    · rwa [List.mem_singleton.mp last]
  · rename_i new
    have absent : sent ∉ points := fun member => new ⟨sent, member, List.infix_refl sent⟩
    refine ⟨nodup_append_new distinct absent,
      fun point member => List.mem_append_left _ (kept point member), ?_, ?_⟩
    · intro point member
      rcases List.mem_append.mp member with earlier | last
      · exact List.mem_append_left _ (sound point earlier)
      · exact List.mem_append_right _ last
    · intro candidate member
      rcases List.mem_append.mp member with earlier | last
      · obtain ⟨point, present, part⟩ := covered candidate earlier
        exact ⟨point, List.mem_append_left _ present, part⟩
      · exact ⟨sent, List.mem_append_right _ List.mem_cons_self,
          List.mem_singleton.mp last ▸ List.infix_refl sent⟩

theorem addSentences_represents (distinct : base.Nodup)
    (long : ∀ sent ∈ chosen, LongSentence sent) :
    Represents base (base ++ chosen) (chosen.foldl addSentence base) := by
  induction chosen using List.reverseRecOn with
  | nil => simpa using represents_base distinct
  | append_singleton earlier last ih =>
      rw [List.foldl_append, ← List.append_assoc]
      exact addSentence_represents (long last (by simp))
        (ih fun sent member => long sent (List.mem_append_left _ member))

def EntersAt (base chosen : List PyString) (point : PyString) : Prop :=
  ∃ before after, chosen = before ++ point :: after ∧
    ∀ earlier ∈ base ++ before, ¬ point <:+: earlier

theorem entersAt_append (base early : List PyString) (last point : PyString) :
    EntersAt base (early ++ [last]) point ↔ EntersAt base early point ∨
      (point = last ∧ ∀ earlier ∈ base ++ early, ¬ point <:+: earlier) := by
  constructor
  · rintro ⟨before, after, same, free⟩
    rcases List.eq_nil_or_concat after with rfl | ⟨middle, final, rfl⟩
    · obtain ⟨rfl, final⟩ := List.append_inj' same rfl
      cases final
      exact Or.inr ⟨rfl, free⟩
    · rw [List.concat_eq_append, ← List.cons_append, ← List.append_assoc] at same
      obtain ⟨rfl, _⟩ := List.append_inj' same rfl
      exact Or.inl ⟨before, middle, rfl, free⟩
  · rintro (⟨before, after, rfl, free⟩ | ⟨rfl, free⟩)
    · exact ⟨before, after ++ [last], by rw [List.append_assoc, List.cons_append], free⟩
    · exact ⟨early, [], rfl, free⟩

theorem mem_addSentences_iff (distinct : base.Nodup)
    (long : ∀ sent ∈ chosen, LongSentence sent) :
    point ∈ chosen.foldl addSentence base ↔ point ∈ base ∨ EntersAt base chosen point := by
  induction chosen using List.reverseRecOn with
  | nil => simp [EntersAt]
  | append_singleton early last ih =>
      have longEarly : ∀ sent ∈ early, LongSentence sent :=
        fun sent member => long sent (List.mem_append_left _ member)
      have parts := represents_part_iff last (addSentences_represents distinct longEarly)
      rw [List.foldl_append, List.foldl_cons, List.foldl_nil,
        addSentence_long (long last (by simp)), entersAt_append, ← or_assoc, ← ih longEarly]
      split
      · rename_i found
        obtain ⟨candidate, member, part⟩ := parts.mp found
        constructor
        · exact Or.inl
        · rintro (present | ⟨rfl, free⟩)
          · exact present
          · exact absurd part (free candidate member)
      · rename_i new
        rw [List.mem_append, List.mem_singleton]
        constructor
        · rintro (present | rfl)
          · exact Or.inl present
          · exact Or.inr ⟨rfl, fun earlier member part => new (parts.mpr ⟨earlier, member, part⟩)⟩
        · rintro (present | ⟨rfl, _⟩)
          · exact Or.inl present
          · exact Or.inr rfl

end Points

section Document

variable (lower : PyString → PyString) (doc : Doc) (topN : Int)

def chosenSentences : List PyString :=
  ((sliceTo topN (sortedSentences lower doc)).map Prod.fst).filter fun sent => LongSentence sent

def candidates : List PyString := entityPoints doc ++ chosenSentences lower doc topN

theorem mem_entityPoints {point : PyString} :
    point ∈ entityPoints doc ↔ ∃ ent ∈ doc.ents, EntityPoint ent point := by
  simp [entityPoints, addEntities_mem]

theorem entityPoints_nodup : (entityPoints doc).Nodup := addEntities_nodup doc.ents List.nodup_nil

theorem chosenSentences_long : ∀ sent ∈ chosenSentences lower doc topN, LongSentence sent := by
  intro sent member
  simpa using (List.mem_filter.mp member).2

theorem collectPoints_eq :
    collectPoints lower doc topN =
      (chosenSentences lower doc topN).foldl addSentence (entityPoints doc) := by
  rw [collectPoints, addSentences_filter, chosenSentences]

theorem collectPoints_represents :
    Represents (entityPoints doc) (candidates lower doc topN) (collectPoints lower doc topN) := by
  rw [collectPoints_eq, candidates]
  exact addSentences_represents (entityPoints_nodup doc) (chosenSentences_long lower doc topN)

theorem extractKeyPoints_perm (order : SetOrder) :
    (extractKeyPoints lower doc order topN).Perm (collectPoints lower doc topN) :=
  (StableSort.ascending_perm _ _).trans (order.perm _)

end Document

section Merit

variable (lower : PyString → PyString) (doc : Doc)

def OpensSection (sent : Sentence) : Prop :=
  (∃ first ∈ doc.sents.head?, first.span = sent.span) ∨
    ∃ before after, sent.text = before ++ ':' :: after ∧ ∀ char ∈ after, isspace char = true

open Classical in
/-- The rule that the scores are meant to follow: one for each accepted entity and for each verb
that is no stop word, two for a medium length, three for the start of a section, and two for a key
term. -/
noncomputable def merit (sent : Sentence) : Nat :=
  sent.ents.countP (fun ent => ent.label ∈ acceptedLabels) +
    sent.tokens.countP (fun token => token.pos = "VERB" ∧ token.isStop = false) +
    (if 10 ≤ sent.tokens.length ∧ sent.tokens.length ≤ 30 then 2 else 0) +
    (if OpensSection doc sent then 3 else 0) +
    (if ∃ term ∈ keyTerms, term <:+: lower sent.text then 2 else 0)

theorem opensSection_iff (sent : Sentence) :
    (doc.sents.head?.map Sentence.span = some sent.span ∨ (strip sent.text).getLast? = some ':') ↔
      OpensSection doc sent := by
  rw [strip_ends_iff (by decide), Option.map_eq_some_iff]
  rfl

open Classical in
theorem score_eq_merit (sent : Sentence) : score lower doc sent = merit lower doc sent := by
  have entities : (sent.ents.filter Entity.accepted).length =
      sent.ents.countP fun ent => ent.label ∈ acceptedLabels := by
    rw [← List.countP_eq_length_filter]
    exact List.countP_congr fun ent _ => by rw [ent.accepted_iff, decide_eq_true_iff]
  have verbs : (sent.tokens.filter fun token => token.pos == "VERB" && !token.isStop).length =
      sent.tokens.countP fun token => token.pos = "VERB" ∧ token.isStop = false := by
    rw [← List.countP_eq_length_filter]
    exact List.countP_congr fun token _ => by simp
  have term : (keyTerms.any fun term => contains (lower sent.text) term) = true ↔
      ∃ term ∈ keyTerms, term <:+: lower sent.text := by
    simp only [List.any_eq_true, contains_iff]
  rw [score, merit, entities, verbs]
  exact congrArg₂ (· + ·) (congrArg (_ + ·) (if_congr (opensSection_iff doc sent) rfl rfl))
    (if_congr term rfl rfl)

end Merit

section Coverage

structure Coverage (doc : Doc) (kept : List Sentence) (result : List PyString) : Prop where
  distinct : result.Nodup
  ordered : result.Pairwise fun first second => first.length ≤ second.length
  sound : ∀ point ∈ result, (∃ ent ∈ doc.ents, EntityPoint ent point) ∨
    ∃ sent ∈ kept, cleanText sent.text = point ∧ LongSentence point
  entities : ∀ ent ∈ doc.ents, ∀ point, EntityPoint ent point → point ∈ result
  sentences : ∀ sent ∈ kept, LongSentence (cleanText sent.text) →
    ∃ point ∈ result, cleanText sent.text <:+: point

theorem sortedSentences_eq (lower : PyString → PyString) (doc : Doc) :
    (sortedSentences lower doc).map Prod.fst =
      (StableSort.descending (merit lower doc) doc.sents).map fun sent => cleanText sent.text := by
  have scored : sortedSentences lower doc =
      (StableSort.descending (merit lower doc) doc.sents).map fun sent =>
        (cleanText sent.text, merit lower doc sent) := by
    rw [sortedSentences, sentenceScores]
    simp only [score_eq_merit]
    exact (StableSort.descending_map Prod.snd _ _).symm
  rw [scored, List.map_map]
  rfl

theorem key_points_cover (lower : PyString → PyString) (doc : Doc) (order : SetOrder)
    (topN : Nat) :
    ∃ kept left, StableSort.Top (merit lower doc) doc.sents kept left topN ∧
      Coverage doc kept (extractKeyPoints lower doc order topN) := by
  refine ⟨_, _, StableSort.descending_top (merit lower doc) doc.sents topN, ?_⟩
  have represents := collectPoints_represents lower doc topN
  have same := extractKeyPoints_perm lower doc topN order
  have chosen : ∀ point, point ∈ chosenSentences lower doc topN ↔
      (∃ sent ∈ (StableSort.descending (merit lower doc) doc.sents).take topN,
        cleanText sent.text = point) ∧ LongSentence point := by
    intro point
    rw [chosenSentences, sliceTo_natCast, List.map_take, sortedSentences_eq, ← List.map_take,
      List.mem_filter, List.mem_map, decide_eq_true_eq]
  constructor
  · exact same.nodup_iff.mpr represents.distinct
  · exact StableSort.ascending_pairwise List.length _
  · intro point member
    rcases List.mem_append.mp (represents.sound point (same.mem_iff.mp member)) with
      entity | sentence
    · exact Or.inl ((mem_entityPoints doc).mp entity)
    · obtain ⟨⟨sent, kept, text⟩, long⟩ := (chosen point).mp sentence
      exact Or.inr ⟨sent, kept, text, long⟩
  · intro ent member point counts
    exact same.mem_iff.mpr
      (represents.kept point ((mem_entityPoints doc).mpr ⟨ent, member, counts⟩))
  · intro sent kept long
    have candidate : cleanText sent.text ∈ candidates lower doc topN :=
      List.mem_append_right _ ((chosen _).mpr ⟨⟨sent, kept, rfl⟩, long⟩)
    obtain ⟨point, present, part⟩ := represents.covered _ candidate
    exact ⟨point, same.mem_iff.mpr present, part⟩

end Coverage

section Fragments

variable (lower : PyString → PyString) (doc : Doc) (topN : Int)

def NoFragments (points : List PyString) : Prop :=
  ∀ part ∈ points, ∀ whole ∈ points, part <:+: whole → part = whole

/-- A candidate inside another one is no entity, and each time it is chosen as a sentence, an
entity or a sentence chosen before contains it. -/
def FragmentsHidden : Prop :=
  ∀ part ∈ candidates lower doc topN, ∀ whole ∈ candidates lower doc topN, part <:+: whole →
    part ≠ whole → part ∉ entityPoints doc ∧
      ∀ before after, chosenSentences lower doc topN = before ++ part :: after →
        ∃ earlier ∈ entityPoints doc ++ before, part <:+: earlier

theorem not_mem_collectPoints_iff {point : PyString} :
    point ∉ collectPoints lower doc topN ↔ point ∉ entityPoints doc ∧
      ∀ before after, chosenSentences lower doc topN = before ++ point :: after →
        ∃ earlier ∈ entityPoints doc ++ before, point <:+: earlier := by
  rw [collectPoints_eq, mem_addSentences_iff (entityPoints_nodup doc)
    (chosenSentences_long lower doc topN), EntersAt]
  push Not
  rfl

theorem no_fragments_iff (order : SetOrder) :
    NoFragments (extractKeyPoints lower doc order topN) ↔ FragmentsHidden lower doc topN := by
  have represents := collectPoints_represents lower doc topN
  have same := extractKeyPoints_perm lower doc topN order
  constructor
  · intro clear part _ whole candidate inside different
    rw [← not_mem_collectPoints_iff]
    intro present
    obtain ⟨point, found, around⟩ := represents.covered whole candidate
    have equal := clear part (same.mem_iff.mpr present) point (same.mem_iff.mpr found)
      (inside.trans around)
    have shorter := around.length_le
    rw [← equal] at shorter
    exact different (inside.eq_of_length_le shorter)
  · intro hidden part partIn whole wholeIn inside
    have present := same.mem_iff.mp partIn
    by_contra different
    exact (not_mem_collectPoints_iff lower doc topN).mpr
      (hidden part (represents.sound part present) whole
        (represents.sound whole (same.mem_iff.mp wholeIn)) inside different) present

def nested : Doc :=
  ⟨[], [⟨(0, 4), "we like the key".toList, [], []⟩,
    ⟨(4, 9), "so we like the key too".toList, [], []⟩]⟩

theorem key_points_hold_fragment :
    ¬ NoFragments (extractKeyPoints id nested ⟨id, List.Perm.refl⟩ 10) := by
  have points : extractKeyPoints id nested ⟨id, List.Perm.refl⟩ 10 =
      ["we like the key".toList, "so we like the key too".toList] := by
    decide
  rw [points]
  intro clear
  have same := clear "we like the key".toList (by simp) "so we like the key too".toList (by simp)
    ⟨"so ".toList, " too".toList, by decide⟩
  exact absurd same (by decide)

end Fragments

section Order

def insertionOrder : SetOrder := ⟨id, List.Perm.refl⟩

def reverseOrder : SetOrder := ⟨List.reverse, List.reverse_perm⟩

theorem key_points_order (lower : PyString → PyString) (doc : Doc) (topN : Int) :
    (∀ first second : SetOrder,
      (extractKeyPoints lower doc first topN).Perm (extractKeyPoints lower doc second topN) ∧
        (extractKeyPoints lower doc first topN).map List.length =
          (extractKeyPoints lower doc second topN).map List.length) ∧
      ((∀ first second : SetOrder,
          extractKeyPoints lower doc first topN = extractKeyPoints lower doc second topN) ↔
        ∀ left ∈ collectPoints lower doc topN, ∀ right ∈ collectPoints lower doc topN,
          left.length = right.length → left = right) := by
  have reordered : ∀ first second : SetOrder,
      (first.iterate (collectPoints lower doc topN)).Perm
        (second.iterate (collectPoints lower doc topN)) :=
    fun first second => (first.perm _).trans (second.perm _).symm
  constructor
  · intro first second
    exact ⟨(extractKeyPoints_perm lower doc topN first).trans
      (extractKeyPoints_perm lower doc topN second).symm,
      StableSort.ascending_keys List.length (reordered first second)⟩
  · constructor
    · intro free
      exact StableSort.distinct_of_ascending_reverse List.length
        (collectPoints_represents lower doc topN).distinct (free insertionOrder reverseOrder)
    · intro distinct first second
      apply StableSort.ascending_eq_of_distinct List.length (reordered first second)
      intro left leftIn right rightIn
      exact distinct left ((first.perm _).mem_iff.mp leftIn) right
        ((first.perm _).mem_iff.mp rightIn)

def twoNames : Doc := ⟨[⟨"ORG", "Red Ink".toList⟩, ⟨"ORG", "Tea Bar".toList⟩], []⟩

theorem key_points_depend_on_order :
    extractKeyPoints id twoNames insertionOrder 10 ≠
      extractKeyPoints id twoNames reverseOrder 10 := by
  decide

end Order

end TextMaster.NlpProcessor
