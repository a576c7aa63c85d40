import TextMaster.KvCacheCore
import TextMaster.SlotSearch

/-!
The search for a slot in any cache, however its cells are spread: it ends, it finds a slot exactly
when there is one, and which one it finds.
-/

namespace TextMaster.KvCache

open SlotSearch

section Search

variable {cells : List KvCell} {size count start head tested fuel : Nat}

/-- What the search can end with. A search that fails has stopped behind a cell in use. -/
inductive Searched (cells : List KvCell) (size count start : Nat) : Bool × Nat → Prop where
  | found (slot : Nat) : NextFit (cellFree cells · = true) size count start slot →
      Searched cells size count start (true, slot)
  | missed (last : Nat) : (∀ slot, ¬ Window (cellFree cells · = true) size count slot) →
      last < size → cellFree cells last = false → Searched cells size count start (false, last + 1)

theorem window_of_firstUsed_none (fits : head + count ≤ size)
    (none : firstUsed cells head count = none) :
    Window (cellFree cells · = true) size count head := by
  constructor
  · exact fits
  · intro i within
    simpa using List.find?_eq_none.mp none i (List.mem_range.mpr within)

theorem used_of_firstUsed_some {i : Nat} (found : firstUsed cells head count = some i) :
    i < count ∧ cellFree cells (head + i) = false := by
  have within := List.mem_of_find?_eq_some found
  have used := List.find?_some found
  exact ⟨List.mem_range.mp within, by simpa using used⟩

theorem searchSlot_exhausted (fits : count ≤ size)
    (none : ∀ slot, ¬ Window (cellFree cells · = true) size count slot) (done : size ≤ tested) :
    ∃ result, searchSlot cells size count (fuel + 2) head tested = some result ∧
      Searched cells size count start result := by
  have last : ∀ (fuel head : Nat), head + count ≤ size → ∀ tested, size ≤ tested →
      ∃ result, searchSlot cells size count (fuel + 1) head tested = some result ∧
        Searched cells size count start result := by
    intro fuel head inside tested done
    rw [searchSlot, if_neg (by omega)]
    cases first : firstUsed cells head count with
    | none => exact absurd (window_of_firstUsed_none inside first) (none head)
    | some i =>
        obtain ⟨within, used⟩ := used_of_firstUsed_some first
        exact ⟨_, if_pos (by omega), .missed (head + i) none (by omega) used⟩
  by_cases inside : head + count ≤ size
  · exact last (fuel + 1) head inside tested done
  · rw [searchSlot, if_pos (by omega)]
    exact last fuel 0 (by omega) _ (by omega)

theorem searchSlot_wrapped (fits : count ≤ size) (among : start ≤ size)
    (late : ∀ slot, start ≤ slot → ¬ Window (cellFree cells · = true) size count slot)
    (early : ∀ slot < head, ¬ Window (cellFree cells · = true) size count slot)
    (inside : head ≤ size) (counted : tested = size - start + head)
    (enough : size - head + 3 ≤ fuel) :
    ∃ result, searchSlot cells size count fuel head tested = some result ∧
      Searched cells size count start result := by
  induction fuel generalizing head tested with
  | zero => omega
  | succ fuel ih =>
      by_cases overhangs : size < head + count
      · have none : ∀ slot, ¬ Window (cellFree cells · = true) size count slot :=
          fun slot window => early slot (window.before_end overhangs) window
        obtain ⟨fuel, rfl⟩ := Nat.exists_eq_add_of_le' (show 2 ≤ fuel by omega)
        rw [searchSlot, if_pos overhangs]
        exact searchSlot_exhausted fits none (by omega)
      · rw [searchSlot, if_neg overhangs]
        cases first : firstUsed cells head count with
        | none =>
            have window : Window (cellFree cells · = true) size count head :=
              window_of_firstUsed_none (by omega) first
            exact ⟨_, rfl, .found head ⟨window, Or.inr ⟨late, early⟩⟩⟩
        | some i =>
            obtain ⟨within, used⟩ := used_of_firstUsed_some first
            have passed : ∀ slot < head + (i + 1),
                ¬ Window (cellFree cells · = true) size count slot := by
              intro slot before window
              by_cases behind : head ≤ slot
              · have beyond := window.beyond within (by simp [used]) behind
                omega
              · exact early slot (by omega) window
            by_cases done : size ≤ tested + (i + 1)
            · refine ⟨_, if_pos done, .missed (head + i) ?_ (by omega) used⟩
              intro slot window
              by_cases before : slot < head + (i + 1)
              · exact passed slot before window
              · exact late slot (by omega) window
            · simp only [if_neg done]
              exact ih passed (by omega) (by omega) (by omega)

theorem searchSlot_ahead (fits : count ≤ size) (positive : 0 < count)
    (early : ∀ slot, start ≤ slot → slot < head →
      ¬ Window (cellFree cells · = true) size count slot)
    (among : start ≤ head) (inside : head ≤ size) (counted : tested = head - start)
    (enough : size - head + size + 4 ≤ fuel) :
    ∃ result, searchSlot cells size count fuel head tested = some result ∧
      Searched cells size count start result := by
  induction fuel generalizing head tested with
  | zero => omega
  | succ fuel ih =>
      by_cases overhangs : size < head + count
      · rw [searchSlot, if_pos overhangs]
        apply searchSlot_wrapped fits (by omega)
        · exact fun slot after window => early slot after (window.before_end overhangs) window
        · intro slot impossible
          omega
        · exact Nat.zero_le size
        · omega
        · omega
      · rw [searchSlot, if_neg overhangs]
        cases first : firstUsed cells head count with
        | none =>
            have window : Window (cellFree cells · = true) size count head :=
              window_of_firstUsed_none (by omega) first
            exact ⟨_, rfl, .found head ⟨window, Or.inl ⟨among, early⟩⟩⟩
        | some i =>
            obtain ⟨within, used⟩ := used_of_firstUsed_some first
            have passed : ∀ slot, start ≤ slot → slot < head + (i + 1) →
                ¬ Window (cellFree cells · = true) size count slot := by
              intro slot after before window
              by_cases behind : head ≤ slot
              · have beyond := window.beyond within (by simp [used]) behind
                omega
              · exact early slot after (by omega) window
            by_cases done : size ≤ tested + (i + 1)
            · refine ⟨_, if_pos done, .missed (head + i) ?_ (by omega) used⟩
              intro slot window
              have room := window.inside
              exact passed slot (by omega) (by omega) window
            · simp only [if_neg done]
              exact ih passed (by omega) (by omega) (by omega) (by omega)

theorem searchSlot_ends (cells : List KvCell) (fits : count ≤ size) (positive : 0 < count)
    (inside : start ≤ size) :
    ∃ result, searchSlot cells size count (searchFuel size) start 0 = some result ∧
      Searched cells size count start result := by
  apply searchSlot_ahead fits positive
  · intro slot after before
    omega
  · exact Nat.le_refl start
  · exact inside
  · omega
  · rw [searchFuel]
    omega

end Search

end TextMaster.KvCache
