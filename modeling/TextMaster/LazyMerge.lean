import TextMaster.GreedyMerge

/-!
Greedy merging with a queue of candidates that is never cleaned up: a candidate is offered when two
neighbours meet, and one that has been overtaken by another merge is recognised and skipped.
-/

namespace LazyMerge

open GreedyMerge

variable {Item Score : Type} (score : List Item → Option Score)

structure Candidate (Score : Type) where
  left : Nat
  right : Nat
  score : Score
  size : Nat

/-- The segments that are left, each at the place of its first part. -/
abbrev Chain (Item : Type) := List (Nat × List Item)

def width (chain : Chain Item) (place : Nat) : Nat :=
  ((chain.find? fun entry => entry.1 == place).map fun entry => entry.2.length).getD 0

structure Pair (chain before : Chain Item) (left right : Nat × List Item) (after : Chain Item)
    (candidate : Candidate Score) : Prop where
  split : chain = before ++ left :: right :: after
  leftPlace : candidate.left = left.1
  rightPlace : candidate.right = right.1
  size : candidate.size = left.2.length + right.2.length
  scored : score (left.2 ++ right.2) = some candidate.score

def Current (chain : Chain Item) (candidate : Candidate Score) : Prop :=
  ∃ before left right after, Pair score chain before left right after candidate

def Stale (chain : Chain Item) (candidate : Candidate Score) : Prop :=
  width chain candidate.left = 0 ∨ width chain candidate.right = 0 ∨
    candidate.size < width chain candidate.left + width chain candidate.right

/-- The test for a candidate that has not been overtaken. -/
def UpToDate (chain : Chain Item) (candidate : Candidate Score) : Prop :=
  width chain candidate.left ≠ 0 ∧ width chain candidate.right ≠ 0 ∧
    width chain candidate.left + width chain candidate.right = candidate.size

def Candidate.Less [LT Score] (first second : Candidate Score) : Prop :=
  first.score < second.score ∨ (first.score = second.score ∧ second.left < first.left)

structure Covered (chain : Chain Item) (queue : List (Candidate Score)) : Prop where
  ascending : (chain.map Prod.fst).Pairwise (· < ·)
  filled : ∀ entry ∈ chain, entry.2 ≠ []
  sound : ∀ candidate ∈ queue, Current score chain candidate ∨ Stale chain candidate
  complete : ∀ {before left right after candidate},
    Pair score chain before left right after candidate → candidate ∈ queue

def offer (left right : Nat × List Item) : List (Candidate Score) :=
  match score (left.2 ++ right.2) with
  | none => []
  | some value => [⟨left.1, right.1, value, left.2.length + right.2.length⟩]

def offers (before : Chain Item) (entry : Nat × List Item) (after : Chain Item) :
    List (Candidate Score) :=
  (before.getLast?.elim [] fun left => offer score left entry) ++
    (after.head?.elim [] fun right => offer score entry right)

def firstOffers : Chain Item → List (Candidate Score)
  | [] => []
  | [_] => []
  | left :: right :: rest => offer score left right ++ firstOffers (right :: rest)

variable {score} {chain before after earlier later : Chain Item}
  {left right first second entry : Nat × List Item} {candidate : Candidate Score}
  {queue rest : List (Candidate Score)} {place : Nat}

theorem width_of_mem (ascending : (chain.map Prod.fst).Pairwise (· < ·)) (member : entry ∈ chain) :
    width chain entry.1 = entry.2.length := by
  induction chain with
  | nil => simp at member
  | cons head rest ih =>
      rw [List.map_cons, List.pairwise_cons] at ascending
      rcases List.mem_cons.mp member with rfl | later
      · simp [width]
      · have behind := ascending.1 entry.1 (List.mem_map_of_mem later)
        have other : (head.1 == entry.1) = false := by simpa using Nat.ne_of_lt behind
        have same := ih ascending.2 later
        unfold width at same ⊢
        rw [List.find?_cons_of_neg (by simp [other])]
        exact same

theorem width_of_absent (absent : place ∉ chain.map Prod.fst) : width chain place = 0 := by
  have none : chain.find? (fun entry => entry.1 == place) = none := by
    rw [List.find?_eq_none]
    intro entry member same
    exact absent (List.mem_map.mpr ⟨entry, member, by simpa using same⟩)
  rw [width, none]
  rfl

theorem mem_offer : candidate ∈ offer score left right ↔
    candidate.left = left.1 ∧ candidate.right = right.1 ∧
      candidate.size = left.2.length + right.2.length ∧
      score (left.2 ++ right.2) = some candidate.score := by
  unfold offer
  cases score (left.2 ++ right.2) with
  | none => simp
  | some value =>
      obtain ⟨leftPlace, rightPlace, given, size⟩ := candidate
      simp only [List.mem_singleton, Candidate.mk.injEq, Option.some.injEq]
      constructor
      · rintro ⟨rfl, rfl, rfl, rfl⟩
        exact ⟨rfl, rfl, rfl, rfl⟩
      · rintro ⟨rfl, rfl, rfl, rfl⟩
        exact ⟨rfl, rfl, rfl, rfl⟩

section Covered

variable (covered : Covered score chain queue)

include covered

theorem Covered.upToDate_of_current (current : Current score chain candidate) :
    UpToDate chain candidate := by
  obtain ⟨before, left, right, after, pair⟩ := current
  have leftIn : left ∈ chain := by simp [pair.split]
  have rightIn : right ∈ chain := by simp [pair.split]
  unfold UpToDate
  rw [pair.leftPlace, pair.rightPlace, pair.size, width_of_mem covered.ascending leftIn,
    width_of_mem covered.ascending rightIn]
  simp [covered.filled left leftIn, covered.filled right rightIn]

theorem Covered.current_of_upToDate (member : candidate ∈ queue) (fresh : UpToDate chain candidate) :
    Current score chain candidate := by
  obtain ⟨leftLives, rightLives, size⟩ := fresh
  rcases covered.sound candidate member with current | leftDead | rightDead | grown
  · exact current
  · exact absurd leftDead leftLives
  · exact absurd rightDead rightLives
  · omega

theorem Covered.skip (taken : queue.Perm (candidate :: rest)) (overtaken : ¬ UpToDate chain candidate) :
    Covered score chain rest := by
  refine ⟨covered.ascending, covered.filled, ?_, ?_⟩
  · intro other member
    exact covered.sound other (taken.mem_iff.mpr (List.mem_cons_of_mem _ member))
  · intro before left right after other pair
    rcases List.mem_cons.mp (taken.mem_iff.mp (covered.complete pair)) with rfl | member
    · exact absurd (covered.upToDate_of_current ⟨_, _, _, _, pair⟩) overtaken
    · exact member

end Covered

theorem one_split {merged : Nat × List Item}
    (same : before ++ merged :: after = earlier ++ entry :: later) :
    (∃ between, before = earlier ++ entry :: between ∧ later = between ++ merged :: after) ∨
      (before = earlier ∧ merged = entry ∧ after = later) ∨
      ∃ between, earlier = before ++ merged :: between ∧ after = between ++ entry :: later := by
  rcases List.append_eq_append_iff.mp same with ⟨between, longer, rest⟩ | ⟨between, longer, rest⟩
  · cases between with
    | nil =>
        rw [List.nil_append, List.cons.injEq] at rest
        exact Or.inr (Or.inl ⟨by simpa using longer.symm, rest.1, rest.2⟩)
    | cons head tail =>
        rw [List.cons_append, List.cons.injEq] at rest
        obtain ⟨rfl, rest⟩ := rest
        exact Or.inr (Or.inr ⟨tail, longer, rest⟩)
  · cases between with
    | nil =>
        rw [List.nil_append, List.cons.injEq] at rest
        exact Or.inr (Or.inl ⟨by simpa using longer, rest.1.symm, rest.2.symm⟩)
    | cons head tail =>
        rw [List.cons_append, List.cons.injEq] at rest
        obtain ⟨rfl, rest⟩ := rest
        exact Or.inl ⟨tail, longer, rest⟩

theorem split_cases {merged : Nat × List Item}
    (same : before ++ merged :: after = earlier ++ first :: second :: later) :
    (∃ between, before = earlier ++ first :: second :: between ∧
        later = between ++ merged :: after) ∨
      (before = earlier ++ [first] ∧ merged = second ∧ after = later) ∨
      (before = earlier ∧ merged = first ∧ after = second :: later) ∨
      ∃ between, earlier = before ++ merged :: between ∧
        after = between ++ first :: second :: later := by
  rcases one_split same with ⟨between, rfl, rest⟩ | here | behind
  · cases between with
    | nil =>
        rw [List.nil_append, List.cons.injEq] at rest
        exact Or.inr (Or.inl ⟨rfl, rest.1.symm, rest.2.symm⟩)
    | cons next tail =>
        rw [List.cons_append, List.cons.injEq] at rest
        obtain ⟨rfl, rest⟩ := rest
        exact Or.inl ⟨tail, rfl, rest⟩
  · exact Or.inr (Or.inr (Or.inl here))
  · exact Or.inr (Or.inr (Or.inr behind))

section Merge

def joined (before : Chain Item) (left right : Nat × List Item) (after : Chain Item) :
    Chain Item :=
  before ++ (left.1, left.2 ++ right.2) :: after

theorem joined_ascending
    (ascending : ((before ++ left :: right :: after).map Prod.fst).Pairwise (· < ·)) :
    ((joined before left right after).map Prod.fst).Pairwise (· < ·) := by
  refine List.Pairwise.sublist ?_ ascending
  simp only [joined, List.map_append, List.map_cons]
  exact (List.Sublist.refl _).append ((List.sublist_cons_self _ _).cons_cons _)

theorem width_joined (ascending : ((before ++ left :: right :: after).map Prod.fst).Pairwise (· < ·))
    (filled : ∀ entry ∈ before ++ left :: right :: after, entry.2 ≠ []) (place : Nat) :
    width (joined before left right after) place = 0 ∨
      (width (before ++ left :: right :: after) place ≠ 0 ∧
        width (before ++ left :: right :: after) place ≤
          width (joined before left right after) place) := by
  by_cases present : place ∈ (joined before left right after).map Prod.fst
  · obtain ⟨entry, member, rfl⟩ := List.mem_map.mp present
    rw [width_of_mem (joined_ascending ascending) member]
    have kept : entry = (left.1, left.2 ++ right.2) ∨ entry ∈ before ++ left :: right :: after := by
      simp only [joined, List.mem_append, List.mem_cons] at member ⊢
      rcases member with early | same | late
      · exact Or.inr (Or.inl early)
      · exact Or.inl same
      · exact Or.inr (Or.inr (Or.inr (Or.inr late)))
    rcases kept with rfl | kept
    · have leftIn : left ∈ before ++ left :: right :: after := by simp
      have same := width_of_mem ascending leftIn
      simp only at same ⊢
      rw [same, List.length_append]
      exact Or.inr ⟨by simpa using filled left leftIn, Nat.le_add_right _ _⟩
    · rw [width_of_mem ascending kept]
      exact Or.inr ⟨by simpa using filled entry kept, Nat.le_refl _⟩
  · exact Or.inl (width_of_absent present)

theorem right_absent
    (ascending : ((before ++ left :: right :: after).map Prod.fst).Pairwise (· < ·)) :
    right.1 ∉ (joined before left right after).map Prod.fst := by
  have distinct : ((before ++ left :: right :: after).map Prod.fst).Nodup :=
    List.Pairwise.imp Nat.ne_of_lt ascending
  simp only [joined, List.map_append, List.map_cons, List.nodup_append, List.nodup_cons,
    List.mem_append, List.mem_cons] at distinct ⊢
  obtain ⟨_, ⟨leftNew, rightNew, _⟩, apart⟩ := distinct
  rintro (early | same | late)
  · exact apart _ early _ (Or.inr (Or.inl rfl)) rfl
  · exact leftNew (Or.inl same.symm)
  · exact rightNew late

theorem stale_joined (ascending : ((before ++ left :: right :: after).map Prod.fst).Pairwise (· < ·))
    (filled : ∀ entry ∈ before ++ left :: right :: after, entry.2 ≠ [])
    (stale : Stale (before ++ left :: right :: after) candidate) :
    Stale (joined before left right after) candidate := by
  have leftGrows := width_joined ascending filled candidate.left
  have rightGrows := width_joined ascending filled candidate.right
  unfold Stale at stale ⊢
  omega

theorem sound_joined (ascending : ((before ++ left :: right :: after).map Prod.fst).Pairwise (· < ·))
    (filled : ∀ entry ∈ before ++ left :: right :: after, entry.2 ≠ [])
    (sound : Current score (before ++ left :: right :: after) candidate ∨
      Stale (before ++ left :: right :: after) candidate) :
    Current score (joined before left right after) candidate ∨
      Stale (joined before left right after) candidate := by
  rcases sound with ⟨earlier, first, second, later, split, leftPlace, rightPlace, size, scored⟩ | stale
  · have rightDead := width_of_absent (right_absent ascending)
    rcases split_cases split with ⟨between, rfl, rfl⟩ | ⟨rfl, rfl, rfl⟩ | ⟨rfl, rfl, same⟩ |
      ⟨between, rfl, same⟩
    · exact Or.inl ⟨earlier, first, second, between ++ (left.1, left.2 ++ right.2) :: after,
        by simp [joined], leftPlace, rightPlace, size, scored⟩
    · right
      have firstIn : first ∈ joined (earlier ++ [first]) left right after := by simp [joined]
      have mergedIn : (left.1, left.2 ++ right.2) ∈ joined (earlier ++ [first]) left right after := by
        simp [joined]
      have rightFilled := filled right (by simp)
      have positive := List.length_pos_iff.mpr rightFilled
      have firstWidth := width_of_mem (joined_ascending ascending) firstIn
      have mergedWidth := width_of_mem (joined_ascending ascending) mergedIn
      unfold Stale
      simp only [List.length_append] at mergedWidth
      rw [leftPlace, rightPlace, size, firstWidth, mergedWidth]
      omega
    · simp only [List.cons.injEq] at same
      right
      unfold Stale
      rw [rightPlace, ← same.1]
      exact Or.inr (Or.inl rightDead)
    · cases between with
      | nil =>
          simp only [List.nil_append, List.cons.injEq] at same
          right
          unfold Stale
          rw [leftPlace, ← same.1]
          exact Or.inl rightDead
      | cons head tail =>
          simp only [List.cons_append, List.cons.injEq] at same
          obtain ⟨rfl, rfl⟩ := same
          exact Or.inl ⟨before ++ (left.1, left.2 ++ right.2) :: tail, first, second, later,
            by simp [joined], leftPlace, rightPlace, size, scored⟩
  · exact Or.inr (stale_joined ascending filled stale)

theorem offers_current (member : candidate ∈ offers score before entry after) :
    Current score (before ++ entry :: after) candidate := by
  rcases List.mem_append.mp member with early | late
  · rcases List.eq_nil_or_concat before with rfl | ⟨earlier, last, rfl⟩
    · simp at early
    · rw [List.concat_eq_append, List.getLast?_concat, Option.elim_some, mem_offer] at early
      obtain ⟨leftPlace, rightPlace, size, scored⟩ := early
      exact ⟨earlier, last, entry, after, by simp, leftPlace, rightPlace, size, scored⟩
  · cases after with
    | nil => simp at late
    | cons next later =>
        rw [List.head?_cons, Option.elim_some, mem_offer] at late
        obtain ⟨leftPlace, rightPlace, size, scored⟩ := late
        exact ⟨before, entry, next, later, rfl, leftPlace, rightPlace, size, scored⟩

theorem place_of_split
    (ascending : ((before ++ left :: after).map Prod.fst).Pairwise (· < ·)) :
    (∀ other ∈ before, other.1 < left.1) ∧ ∀ other ∈ after, left.1 < other.1 := by
  rw [List.map_append, List.map_cons, List.pairwise_append, List.pairwise_cons] at ascending
  obtain ⟨_, ⟨behind, _⟩, across⟩ := ascending
  exact ⟨fun other member => across _ (List.mem_map_of_mem member) _ List.mem_cons_self,
    fun other member => behind _ (List.mem_map_of_mem member)⟩

theorem Covered.merge (covered : Covered score chain queue)
    (taken : queue.Perm (candidate :: rest))
    (pair : Pair score chain before left right after candidate) :
    Covered score (joined before left right after)
      (rest ++ offers score before (left.1, left.2 ++ right.2) after) := by
  have ascending := covered.ascending
  have filled := covered.filled
  rw [pair.split] at ascending filled
  obtain ⟨before_lt, lt_after⟩ := place_of_split ascending
  refine ⟨joined_ascending ascending, ?_, ?_, ?_⟩
  · intro entry member
    simp only [joined, List.mem_append, List.mem_cons] at member
    rcases member with early | rfl | late
    · exact filled entry (by simp [early])
    · have leftFilled := filled left (by simp)
      simp [leftFilled]
    · exact filled entry (by simp [late])
  · intro other member
    rcases List.mem_append.mp member with old | new
    · have sound := covered.sound other (taken.mem_iff.mpr (List.mem_cons_of_mem _ old))
      rw [pair.split] at sound
      exact sound_joined ascending filled sound
    · exact Or.inl (offers_current new)
  · intro earlier first second later other found
    have fromQueue : ∀ earlier later, Pair score chain earlier first second later other →
        first.1 ≠ left.1 → other ∈ rest := by
      intro earlier later found apart
      rcases List.mem_cons.mp (taken.mem_iff.mp (covered.complete found)) with rfl | member
      · exact absurd (found.leftPlace.symm.trans pair.leftPlace) apart
      · exact member
    rcases split_cases found.split with ⟨between, rfl, rfl⟩ | ⟨rfl, rfl, rfl⟩ | ⟨rfl, rfl, rfl⟩ |
      ⟨between, rfl, rfl⟩
    · refine List.mem_append_left _ (fromQueue earlier (between ++ left :: right :: after)
        ⟨by simp [pair.split], found.leftPlace, found.rightPlace, found.size, found.scored⟩ ?_)
      exact Nat.ne_of_lt (before_lt first (by simp))
    · refine List.mem_append_right _ (List.mem_append_left _ ?_)
      rw [List.getLast?_concat, Option.elim_some, mem_offer]
      exact ⟨found.leftPlace, found.rightPlace, found.size, found.scored⟩
    · refine List.mem_append_right _ (List.mem_append_right _ ?_)
      rw [List.head?_cons, Option.elim_some, mem_offer]
      exact ⟨found.leftPlace, found.rightPlace, found.size, found.scored⟩
    · refine List.mem_append_left _ (fromQueue (before ++ left :: right :: between) later
        ⟨by simp [pair.split], found.leftPlace, found.rightPlace, found.size, found.scored⟩ ?_)
      exact (Nat.ne_of_lt (lt_after first (by simp))).symm

theorem mem_firstOffers : candidate ∈ firstOffers score chain ↔ Current score chain candidate := by
  induction chain using firstOffers.induct with
  | case1 =>
      simp only [firstOffers, List.not_mem_nil, false_iff]
      rintro ⟨before, left, right, after, pair⟩
      simpa using pair.split
  | case2 entry =>
      simp only [firstOffers, List.not_mem_nil, false_iff]
      rintro ⟨before, left, right, after, pair⟩
      have lengths := congrArg List.length pair.split
      simp only [List.length_cons, List.length_nil, List.length_append] at lengths
      omega
  | case3 first second rest ih =>
      rw [firstOffers, List.mem_append, mem_offer, ih]
      constructor
      · rintro (⟨leftPlace, rightPlace, size, scored⟩ | ⟨before, left, right, after, pair⟩)
        · exact ⟨[], first, second, rest, rfl, leftPlace, rightPlace, size, scored⟩
        · exact ⟨first :: before, left, right, after, by rw [pair.split]; rfl, pair.leftPlace,
            pair.rightPlace, pair.size, pair.scored⟩
      · rintro ⟨before, left, right, after, pair⟩
        have split := pair.split
        cases before with
        | nil =>
            simp only [List.nil_append, List.cons.injEq] at split
            obtain ⟨rfl, rfl, rfl⟩ := split
            exact Or.inl ⟨pair.leftPlace, pair.rightPlace, pair.size, pair.scored⟩
        | cons head before =>
            simp only [List.cons_append, List.cons.injEq] at split
            exact Or.inr ⟨before, left, right, after, split.2, pair.leftPlace, pair.rightPlace,
              pair.size, pair.scored⟩

theorem covered_firstOffers (ascending : (chain.map Prod.fst).Pairwise (· < ·))
    (filled : ∀ entry ∈ chain, entry.2 ≠ []) : Covered score chain (firstOffers score chain) :=
  ⟨ascending, filled, fun _ member => Or.inl (mem_firstOffers.mp member),
    fun pair => mem_firstOffers.mpr ⟨_, _, _, _, pair⟩⟩

section Best

variable [LinearOrder Score]

theorem Covered.best (covered : Covered score chain queue)
    (taken : queue.Perm (candidate :: rest)) (top : ∀ other ∈ rest, ¬ candidate.Less other)
    (pair : Pair score chain before left right after candidate) :
    Best score (chain.map Prod.snd) (before.map Prod.snd) left.2 right.2 (after.map Prod.snd)
      candidate.score := by
  have rival : ∀ {earlier first second later value},
      Mergeable score (chain.map Prod.snd) earlier first second later value →
      ∃ start left right tail, ∃ other ∈ queue, start.length = earlier.length ∧
        Pair score chain start left right tail other ∧ other.score = value := by
    rintro earlier first second later value ⟨split, scored⟩
    obtain ⟨start, middle, rfl, rfl, fromLeft⟩ := List.map_eq_append_iff.mp split
    obtain ⟨left, others, rfl, rfl, fromRight⟩ := List.map_eq_cons_iff.mp fromLeft
    obtain ⟨right, tail, rfl, rfl, rfl⟩ := List.map_eq_cons_iff.mp fromRight
    have found : Pair score (start ++ left :: right :: tail) start left right tail
        ⟨left.1, right.1, value, left.2.length + right.2.length⟩ := ⟨rfl, rfl, rfl, rfl, scored⟩
    exact ⟨start, left, right, tail, _, covered.complete found, by simp, found, rfl⟩
  refine ⟨⟨by simp [pair.split], pair.scored⟩, ?_, ?_⟩
  · intro earlier first second later value mergeable
    obtain ⟨_, _, _, _, other, member, _, _, rfl⟩ := rival mergeable
    rcases List.mem_cons.mp (taken.mem_iff.mp member) with rfl | behind
    · exact le_refl _
    · exact not_lt.mp fun less => top other behind (Or.inl less)
  · intro earlier first second later mergeable
    obtain ⟨start, nearer, _, tail, other, member, sameLength, found, sameScore⟩ := rival mergeable
    have ordered : candidate.left ≤ other.left := by
      rcases List.mem_cons.mp (taken.mem_iff.mp member) with rfl | behind
      · exact Nat.le_refl _
      · exact Nat.le_of_not_lt fun less => top other behind (Or.inr ⟨sameScore.symm, less⟩)
    rw [pair.leftPlace, found.leftPlace] at ordered
    rw [List.length_map, ← sameLength]
    by_contra shorter
    have early : nearer ∈ before := by
      have split := pair.split.symm.trans found.split
      rcases List.append_eq_append_iff.mp split with ⟨between, rfl, _⟩ | ⟨between, rfl, rest⟩
      · simp at shorter
      · cases between with
        | nil => simp at shorter
        | cons head between =>
            rw [List.cons_append, List.cons.injEq] at rest
            simp [rest.1]
    have ascending := covered.ascending
    rw [pair.split] at ascending
    have less := (place_of_split ascending).1 nearer early
    omega

end Best

end Merge

end LazyMerge
