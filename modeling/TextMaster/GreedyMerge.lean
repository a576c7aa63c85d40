import Mathlib.Order.Lattice

/-!
Merging neighbours in a row of segments, the best scored pair first and the leftmost of equals,
until no two neighbours can be merged.
-/

namespace GreedyMerge

variable {Item Score : Type} [LinearOrder Score] (score : List Item → Option Score)

structure Mergeable (segments before : List (List Item)) (left right : List Item)
    (after : List (List Item)) (value : Score) : Prop where
  split : segments = before ++ left :: right :: after
  scored : score (left ++ right) = some value

structure Best (segments before : List (List Item)) (left right : List Item)
    (after : List (List Item)) (value : Score) : Prop where
  mergeable : Mergeable score segments before left right after value
  most : ∀ {earlier first second later other},
    Mergeable score segments earlier first second later other → other ≤ value
  leftmost : ∀ {earlier first second later},
    Mergeable score segments earlier first second later value → before.length ≤ earlier.length

def Exhausted (segments : List (List Item)) : Prop :=
  ∀ before left right after value, ¬ Mergeable score segments before left right after value

inductive Merges : List (List Item) → List (List Item) → Prop where
  | done (segments : List (List Item)) : Exhausted score segments → Merges segments segments
  | step (segments before : List (List Item)) (left right : List Item)
      (after final : List (List Item)) (value : Score) :
      Best score segments before left right after value →
      Merges (before ++ (left ++ right) :: after) final → Merges segments final

/-- What can be merged of given segments, in any order. -/
inductive Formed (given : List Item → Prop) : List Item → Prop where
  | given (segment : List Item) : given segment → Formed given segment
  | joined (left right : List Item) (value : Score) :
      Formed given left → Formed given right → score (left ++ right) = some value →
      Formed given (left ++ right)

variable {score} {segments before earlier after later final other : List (List Item)}
  {left right first second : List Item} {value lower : Score}

theorem Best.unique (best : Best score segments before left right after value)
    (rival : Best score segments earlier first second later lower) :
    before ++ (left ++ right) :: after = earlier ++ (first ++ second) :: later := by
  have sameValue : value = lower :=
    le_antisymm (rival.most best.mergeable) (best.most rival.mergeable)
  subst sameValue
  have sameLength : before.length = earlier.length :=
    Nat.le_antisymm (best.leftmost rival.mergeable) (rival.leftmost best.mergeable)
  have split := best.mergeable.split.symm.trans rival.mergeable.split
  obtain ⟨rfl, rest⟩ := List.append_inj split sameLength
  simp only [List.cons.injEq] at rest
  obtain ⟨rfl, rfl, rfl⟩ := rest
  rfl

theorem Merges.unique (merges : Merges score segments final) (rival : Merges score segments other) :
    final = other := by
  induction merges with
  | done segments exhausted =>
      cases rival with
      | done => rfl
      | step _ _ _ _ _ _ _ best => exact absurd best.mergeable (exhausted _ _ _ _ _)
  | step segments before left right after final value best _ ih =>
      cases rival with
      | done _ exhausted => exact absurd best.mergeable (exhausted _ _ _ _ _)
      | step _ _ _ _ _ _ _ rivalBest later =>
          apply ih
          rw [best.unique rivalBest]
          exact later

theorem Merges.flatten (merges : Merges score segments final) :
    final.flatten = segments.flatten := by
  induction merges with
  | done => rfl
  | step segments before left right after final value best _ ih =>
      rw [ih, best.mergeable.split]
      simp

omit [LinearOrder Score] in
theorem Formed.mono {given wider : List Item → Prop} {segment : List Item}
    (formed : Formed score given segment) (weaken : ∀ segment, given segment → wider segment) :
    Formed score wider segment := by
  induction formed with
  | given segment here => exact .given segment (weaken segment here)
  | joined left right value _ _ scored leftFormed rightFormed =>
      exact .joined left right value leftFormed rightFormed scored

theorem Merges.formed {given : List Item → Prop} (merges : Merges score segments final)
    (every : ∀ segment ∈ segments, Formed score given segment) :
    ∀ segment ∈ final, Formed score given segment := by
  induction merges with
  | done => exact every
  | step segments before left right after final value best _ ih =>
      have split := best.mergeable.split
      apply ih
      intro segment member
      rcases List.mem_append.mp member with early | late
      · exact every segment (split ▸ List.mem_append_left _ early)
      · rcases List.mem_cons.mp late with rfl | behind
        · have leftFormed := every left (by simp [split])
          have rightFormed := every right (by simp [split])
          exact .joined left right value leftFormed rightFormed best.mergeable.scored
        · exact every segment (by simp [split, behind])

end GreedyMerge
