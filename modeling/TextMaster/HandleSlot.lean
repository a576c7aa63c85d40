import Mathlib.Data.List.Basic

/-!
A slot that stores at most one handle of a resource freed by hand, with the number of times
that each handle created through it has been freed.
-/

structure HandleSlot where
  stored : Option Nat
  frees : List Nat
  deriving DecidableEq, Repr

namespace HandleSlot

def empty : HandleSlot := ⟨none, []⟩

def create (slot : HandleSlot) : HandleSlot := ⟨some slot.frees.length, slot.frees ++ [0]⟩

def clear (slot : HandleSlot) : HandleSlot := { slot with stored := none }

/-- Frees the stored handle and leaves it stored. -/
def free (slot : HandleSlot) : HandleSlot :=
  match slot.stored with
  | none => slot
  | some handle => { slot with frees := slot.frees.modify handle (· + 1) }

def release (slot : HandleSlot) : HandleSlot := slot.free.clear

@[simp] theorem clear_free (slot : HandleSlot) : slot.clear.free = slot.clear := rfl

@[simp] theorem clear_clear (slot : HandleSlot) : slot.clear.clear = slot.clear := rfl

structure Sound (slot : HandleSlot) : Prop where
  live : ∀ handle, slot.stored = some handle → slot.frees[handle]? = some 0
  freed : ∀ handle count, slot.frees[handle]? = some count → slot.stored ≠ some handle → count = 1

def AllFreed (slot : HandleSlot) : Prop := ∀ count ∈ slot.frees, count = 1

theorem empty_sound : empty.Sound := by
  constructor
  · intro handle stored
    cases stored
  · intro handle count found
    simp [empty] at found

theorem sound_of_allFreed {slot : HandleSlot} (nothing : slot.stored = none)
    (freed : slot.AllFreed) : slot.Sound := by
  constructor
  · intro handle stored
    rw [nothing] at stored
    cases stored
  · intro handle count found _
    exact freed count (List.mem_of_getElem? found)

theorem Sound.allFreed_iff {slot : HandleSlot} (sound : slot.Sound) :
    slot.AllFreed ↔ slot.stored = none := by
  constructor
  · intro freed
    by_contra stored
    obtain ⟨handle, stored⟩ := Option.ne_none_iff_exists'.mp stored
    have once := freed 0 (List.mem_of_getElem? (sound.live handle stored))
    omega
  · intro nothing count member
    obtain ⟨handle, found⟩ := List.mem_iff_getElem?.mp member
    exact sound.freed handle count found (by simp [nothing])

theorem clear_sound_iff (slot : HandleSlot) : slot.clear.Sound ↔ slot.AllFreed := by
  constructor
  · intro sound
    exact sound.allFreed_iff.mpr rfl
  · intro freed
    exact sound_of_allFreed rfl freed

theorem create_sound_iff (slot : HandleSlot) : slot.create.Sound ↔ slot.AllFreed := by
  constructor
  · intro sound count member
    obtain ⟨handle, found⟩ := List.mem_iff_getElem?.mp member
    obtain ⟨bound, _⟩ := List.getElem?_eq_some_iff.mp found
    refine sound.freed handle count ?_ ?_
    · rw [create, List.getElem?_append_left bound, found]
    · simp only [create, ne_eq, Option.some.injEq]
      omega
  · intro freed
    constructor
    · rintro handle ⟨⟩
      simp [create]
    · intro handle count found other
      have inside : count ∈ slot.frees ++ [0] := List.mem_of_getElem? found
      rcases List.mem_append.mp inside with old | new
      · exact freed count old
      · obtain ⟨bound, _⟩ := List.getElem?_eq_some_iff.mp found
        have notLast : handle ≠ slot.frees.length := by
          rintro rfl
          exact other rfl
        simp only [create, List.length_append, List.length_singleton] at bound
        rw [create, List.getElem?_append_left (by omega)] at found
        exact freed count (List.mem_of_getElem? found)

theorem Sound.free_allFreed {slot : HandleSlot} (sound : slot.Sound) : slot.free.AllFreed := by
  cases stored : slot.stored with
  | none => simpa only [free, stored] using sound.allFreed_iff.mpr stored
  | some handle =>
      intro count member
      simp only [free, stored] at member
      obtain ⟨index, found⟩ := List.mem_iff_getElem?.mp member
      by_cases same : handle = index
      · subst index
        rw [List.getElem?_modify_eq, sound.live handle stored] at found
        simpa using found.symm
      · rw [List.getElem?_modify_ne _ _ same] at found
        exact sound.freed index count found (by simpa [stored] using same)

theorem release_sound {slot : HandleSlot} (sound : slot.Sound) : slot.release.Sound :=
  (clear_sound_iff _).mpr sound.free_allFreed

theorem modify_last (counts : List Nat) (count : Nat) :
    (counts ++ [count]).modify counts.length (· + 1) = counts ++ [count + 1] := by
  induction counts with
  | nil => rfl
  | cons first rest ih => simpa using ih

theorem release_of_none {slot : HandleSlot} (nothing : slot.stored = none) :
    slot.free.clear = slot := by
  cases slot
  cases nothing
  rfl

theorem create_free_frees (slot : HandleSlot) : slot.create.free.frees = slot.frees ++ [1] := by
  simp only [create, free, modify_last]

theorem create_free_free_frees (slot : HandleSlot) :
    slot.create.free.free.frees = slot.frees ++ [2] := by
  simp only [create, free, modify_last]

theorem create_free_allFreed_iff (slot : HandleSlot) :
    slot.create.free.AllFreed ↔ slot.AllFreed := by
  simp [AllFreed, create_free_frees, or_imp]

theorem create_free_free_not_allFreed (slot : HandleSlot) :
    ¬ slot.create.free.free.AllFreed := by
  simp [AllFreed, create_free_free_frees]

end HandleSlot
