import Mathlib.Order.Basic

/-!
Runs of consecutive free places in an array, and the one that a search finds which starts in the
middle and goes on at the front.
-/

namespace SlotSearch

variable (free : Nat → Prop) (size count : Nat)

structure Window (slot : Nat) : Prop where
  inside : slot + count ≤ size
  free : ∀ i < count, free (slot + i)

/-- The first window from `start` on, and where there is none, the first of all. -/
structure NextFit (start slot : Nat) : Prop where
  window : Window free size count slot
  first : (start ≤ slot ∧ ∀ other, start ≤ other → other < slot →
      ¬ Window free size count other) ∨
    ((∀ other, start ≤ other → ¬ Window free size count other) ∧
      ∀ other < slot, ¬ Window free size count other)

variable {free size count} {start slot other head : Nat}

theorem NextFit.unique (here : NextFit free size count start slot)
    (there : NextFit free size count start other) : slot = other := by
  rcases here.first with ⟨behind, none⟩ | ⟨none, least⟩
  · rcases there.first with ⟨laterBehind, laterNone⟩ | ⟨laterNone, _⟩
    · rcases Nat.lt_trichotomy slot other with before | same | after
      · exact absurd here.window (laterNone slot behind before)
      · exact same
      · exact absurd there.window (none other laterBehind after)
    · exact absurd here.window (laterNone slot behind)
  · rcases there.first with ⟨laterBehind, _⟩ | ⟨_, laterLeast⟩
    · exact absurd there.window (none other laterBehind)
    · rcases Nat.lt_trichotomy slot other with before | same | after
      · exact absurd here.window (laterLeast slot before)
      · exact same
      · exact absurd there.window (least other after)

theorem Window.beyond {i : Nat} (window : Window free size count other) (within : i < count)
    (used : ¬ free (head + i)) (behind : head ≤ other) : head + i < other := by
  by_contra covered
  apply used
  have inside := window.free (head + i - other) (by omega)
  rwa [Nat.add_sub_cancel' (by omega)] at inside

theorem Window.before_end (window : Window free size count other) (overhangs : size < head + count) :
    other < head := by
  have inside := window.inside
  omega

theorem nextFit_of_front {used : Nat} (front : ∀ index < size, free index ↔ used ≤ index)
    (among : start ≤ used) (room : used + count ≤ size) (positive : 0 < count) :
    NextFit free size count start used := by
  constructor
  · exact ⟨room, fun i within => (front (used + i) (by omega)).mpr (by omega)⟩
  · refine Or.inl ⟨among, ?_⟩
    intro other _ early window
    have here := window.free 0 positive
    have inside := window.inside
    rw [Nat.add_zero, front other (by omega)] at here
    omega

theorem no_window_of_front {used : Nat} (front : ∀ index < size, free index ↔ used ≤ index)
    (full : size < used + count) (positive : 0 < count) : ¬ Window free size count slot := by
  intro window
  have here := window.free 0 positive
  have inside := window.inside
  rw [Nat.add_zero, front slot (by omega)] at here
  omega

end SlotSearch
