import TextMaster.KvCacheSlots
import TextMaster.Transition

/-!
What the cache keeps over any order of its operations: the counter of the cells in use, where a
batch is placed, and that `restore` undoes everything since the last `commit`.
-/

namespace TextMaster

open SlotSearch

def KvCell.inUse (cell : KvCell) : Bool := 0 ≤ cell.pos

def KvCell.ofToken (entry : BatchToken) : KvCell := ⟨entry.pos, {(entry.seqId : Int)}, entry.token⟩

@[simp] theorem KvCell.inUse_fill (cell : KvCell) (entry : BatchToken) :
    (cell.fill entry).inUse = true := by
  simp [inUse, fill]

@[simp] theorem KvCell.inUse_empty : KvCell.empty.inUse = false := rfl

theorem KvCell.fill_empty (entry : BatchToken) : KvCell.empty.fill entry = .ofToken entry := by
  simp [fill, empty, ofToken]

namespace KvCache

def Pending (cache : KvCache) (index : Nat) : Prop :=
  ∃ range ∈ cache.pending, range.1 ≤ index ∧ index < range.2

structure Sound (cache : KvCache) : Prop where
  sized : cache.cells.length = cache.size
  inside : cache.head ≤ cache.size
  counted : cache.used = cache.cells.countP KvCell.inUse
  cleared : ∀ cell ∈ cache.cells, cell.inUse = false → cell = .empty
  tagged : ∀ cell ∈ cache.cells, cell.inUse = true → cell.seqId ≠ ∅

/-- The cache has changed from these cells only where it holds a pending range, and there they
were free. -/
structure Since (base : List KvCell) (cache : KvCache) : Prop where
  kept : ∀ index, ¬ cache.Pending index → cache.cells[index]? = base[index]?
  fresh : ∀ index, cache.Pending index → base[index]? = some .empty

theorem cellFree_eq_true {cells : List KvCell} {index : Nat} :
    cellFree cells index = true ↔ ∃ cell, cells[index]? = some cell ∧ cell.inUse = false := by
  unfold cellFree KvCell.inUse
  cases cells[index]? with
  | none => simp
  | some cell => simp

section Fill

variable {cells : List KvCell} {slot index : Nat} {entries : List BatchToken}

@[simp] theorem length_fillCells (cells : List KvCell) (slot : Nat) (entries : List BatchToken) :
    (fillCells cells slot entries).length = cells.length := by
  induction entries generalizing cells slot with
  | nil => rfl
  | cons entry rest ih => rw [fillCells, ih, List.length_modify]

theorem getElem?_fillCells_outside (outside : index < slot ∨ slot + entries.length ≤ index) :
    (fillCells cells slot entries)[index]? = cells[index]? := by
  induction entries generalizing cells slot with
  | nil => rfl
  | cons entry rest ih =>
      rw [List.length_cons] at outside
      rw [fillCells, ih (by omega), List.getElem?_modify_ne _ _ (by omega)]

theorem getElem?_fillCells_inside {i : Nat} {entry : BatchToken} (there : entries[i]? = some entry) :
    (fillCells cells slot entries)[slot + i]? = cells[slot + i]?.map (·.fill entry) := by
  induction entries generalizing cells slot i with
  | nil => simp at there
  | cons first rest ih =>
      cases i with
      | zero =>
          rw [fillCells, getElem?_fillCells_outside (by omega)]
          rw [List.getElem?_cons_zero, Option.some.injEq] at there
          subst there
          exact List.getElem?_modify_eq _ _ _
      | succ i =>
          rw [List.getElem?_cons_succ] at there
          rw [fillCells, show slot + (i + 1) = slot + 1 + i by omega, ih there,
            List.getElem?_modify_ne _ _ (by omega)]

theorem countP_modify_free {entry : BatchToken} (free : cellFree cells slot = true) :
    (cells.modify slot (·.fill entry)).countP KvCell.inUse = cells.countP KvCell.inUse + 1 := by
  obtain ⟨cell, here, unused⟩ := cellFree_eq_true.mp free
  obtain ⟨inside, same⟩ := List.getElem?_eq_some_iff.mp here
  have whole : cells = cells.take slot ++ cells[slot] :: cells.drop (slot + 1) := by simp
  rw [List.modify_eq_take_cons_drop inside]
  conv_rhs => rw [whole]
  simp only [List.countP_append, List.countP_cons, same, unused, KvCell.inUse_fill]
  simp
  omega

theorem countP_fillCells (free : ∀ i < entries.length, cellFree cells (slot + i) = true) :
    (fillCells cells slot entries).countP KvCell.inUse =
      cells.countP KvCell.inUse + entries.length := by
  induction entries generalizing cells slot with
  | nil => rfl
  | cons entry rest ih =>
      have here : cellFree cells slot = true := free 0 (by simp)
      have later : ∀ i < rest.length,
          cellFree (cells.modify slot (·.fill entry)) (slot + 1 + i) = true := by
        intro i within
        have next := free (i + 1) (by simpa using within)
        rw [show slot + (i + 1) = slot + 1 + i by omega] at next
        rwa [cellFree, List.getElem?_modify_ne _ _ (by omega)]
      rw [fillCells, ih later, countP_modify_free here, List.length_cons]
      omega

theorem mem_fillCells {cell : KvCell} (member : cell ∈ fillCells cells slot entries) :
    cell ∈ cells ∨ ∃ before ∈ cells, ∃ entry ∈ entries, cell = before.fill entry := by
  obtain ⟨index, there⟩ := List.mem_iff_getElem?.mp member
  by_cases inside : slot ≤ index ∧ index < slot + entries.length
  · have there := there
    rw [show index = slot + (index - slot) by omega,
      getElem?_fillCells_inside (List.getElem?_eq_getElem (by omega)),
      Option.map_eq_some_iff] at there
    obtain ⟨before, present, same⟩ := there
    exact Or.inr ⟨before, List.mem_of_getElem? present, _, List.getElem_mem _, same.symm⟩
  · rw [getElem?_fillCells_outside (by omega)] at there
    exact Or.inl (List.mem_of_getElem? there)

end Fill

def searchStart (cache : KvCache) (count : Nat) : Nat :=
  if cache.used + 2 * count < cache.head then 0 else cache.head

inductive FindSlotStep (cache : KvCache) (ubatch : List BatchToken) : Bool × KvCache → Prop where
  | missed (head : Nat) :
      (∀ slot, ¬ Window (cellFree cache.cells · = true) cache.size ubatch.length slot) →
      (head = cache.searchStart ubatch.length ∨
        ∃ last < cache.size, head = last + 1 ∧ cellFree cache.cells last = false) →
      FindSlotStep cache ubatch (false, { cache with head := head })
  | placed (slot : Nat) :
      NextFit (cellFree cache.cells · = true) cache.size ubatch.length
        (cache.searchStart ubatch.length) slot →
      FindSlotStep cache ubatch (true, { cache with
        head := slot
        used := cache.used + ubatch.length
        n := min cache.size (max cache.padding
          (pad (cellMax (fillCells cache.cells slot ubatch) cache.size) cache.padding))
        cells := fillCells cache.cells slot ubatch
        pending := cache.pending ++ [(slot, slot + ubatch.length)] })

theorem searchStart_inside {cache : KvCache} (sound : cache.Sound) (count : Nat) :
    cache.searchStart count ≤ cache.size := by
  have inside := sound.inside
  unfold searchStart
  split <;> omega

theorem findSlot_step {cache : KvCache} {ubatch : List BatchToken} (sound : cache.Sound)
    (nonempty : ubatch ≠ []) : FindSlotStep cache ubatch (cache.findSlot ubatch) := by
  have positive := List.length_pos_iff.mpr nonempty
  simp only [findSlot]
  split
  · rename_i large
    apply FindSlotStep.missed
    · intro slot window
      have room := window.inside
      omega
    · exact Or.inl rfl
  · rename_i fits
    obtain ⟨result, ends, searched⟩ := searchSlot_ends cache.cells
      (Nat.le_of_not_lt fits) positive (searchStart_inside sound ubatch.length)
    unfold searchStart at ends searched
    rw [ends]
    cases searched with
    | found slot next => exact .placed slot next
    | missed last none inside used => exact .missed _ none (Or.inr ⟨last, inside, rfl, used⟩)

theorem empty_of_free {cache : KvCache} {index : Nat} (sound : cache.Sound)
    (free : cellFree cache.cells index = true) : cache.cells[index]? = some .empty := by
  obtain ⟨cell, here, unused⟩ := cellFree_eq_true.mp free
  rw [here, sound.cleared cell (List.mem_of_getElem? here) unused]

theorem fillCells_window {cache : KvCache} {ubatch : List BatchToken} {slot : Nat}
    (sound : cache.Sound)
    (window : Window (cellFree cache.cells · = true) cache.size ubatch.length slot) :
    fillCells cache.cells slot ubatch = cache.cells.take slot ++ ubatch.map KvCell.ofToken ++
      cache.cells.drop (slot + ubatch.length) := by
  have inside := window.inside
  have sized := sound.sized
  apply List.ext_getElem?
  intro index
  by_cases before : index < slot
  · rw [getElem?_fillCells_outside (Or.inl before), List.append_assoc,
      List.getElem?_append_left (by simp; omega), List.getElem?_take_of_lt before]
  · by_cases behind : slot + ubatch.length ≤ index
    · rw [getElem?_fillCells_outside (Or.inr behind), List.getElem?_append_right (by simp; omega),
        List.getElem?_drop]
      congr 1
      simp
      omega
    · obtain ⟨i, rfl⟩ := Nat.exists_eq_add_of_le (Nat.le_of_not_lt before)
      have there := List.getElem?_eq_getElem (l := ubatch) (i := i) (by omega)
      rw [getElem?_fillCells_inside there, empty_of_free sound (window.free i (by omega)),
        List.append_assoc, List.getElem?_append_right (by simp),
        List.getElem?_append_left (by simp; omega), List.getElem?_map]
      simp [KvCell.fill_empty, Nat.min_eq_left (show slot ≤ cache.cells.length by omega), there]

theorem findSlot_sound {cache : KvCache} {ubatch : List BatchToken} (sound : cache.Sound)
    (nonempty : ubatch ≠ []) : (cache.findSlot ubatch).2.Sound := by
  have step := findSlot_step sound nonempty
  generalize cache.findSlot ubatch = result at step ⊢
  cases step with
  | missed head none left =>
      refine ⟨sound.sized, ?_, sound.counted, sound.cleared, sound.tagged⟩
      rcases left with rfl | ⟨last, inside, rfl, _⟩
      · exact searchStart_inside sound _
      · exact inside
  | placed slot next =>
      refine ⟨?_, ?_, ?_, ?_, ?_⟩
      · rw [length_fillCells, sound.sized]
      · have inside := next.window.inside
        simp only
        omega
      · rw [countP_fillCells next.window.free, sound.counted]
      · intro cell member unused
        rcases mem_fillCells member with before | ⟨before, _, entry, _, rfl⟩
        · exact sound.cleared cell before unused
        · simp at unused
      · intro cell member used
        rcases mem_fillCells member with before | ⟨before, _, entry, _, rfl⟩
        · exact sound.tagged cell before used
        · exact Finset.insert_ne_empty _ _

theorem findSlot_size {cache : KvCache} (ubatch : List BatchToken) :
    (cache.findSlot ubatch).2.size = cache.size := by
  simp only [findSlot]
  split
  · rfl
  · cases searchSlot cache.cells cache.size ubatch.length (searchFuel cache.size)
        (if cache.used + 2 * ubatch.length < cache.head then 0 else cache.head) 0 with
    | none => rfl
    | some result =>
        obtain ⟨found, head⟩ := result
        cases found <;> rfl

section Release

variable {cache : KvCache} {base : List KvCell} {index : Nat}

@[simp] theorem releaseCell_cells (cache : KvCache) (index : Nat) :
    (cache.releaseCell index).cells = cache.cells.set index .empty := by
  unfold releaseCell
  cases here : cache.cells[index]? with
  | none => exact (List.set_eq_of_length_le (List.getElem?_eq_none_iff.mp here)).symm
  | some cell => rfl

theorem releaseCell_frame (cache : KvCache) (index : Nat) :
    (cache.releaseCell index).size = cache.size ∧ (cache.releaseCell index).head = cache.head ∧
      (cache.releaseCell index).pending = cache.pending ∧
      (cache.releaseCell index).padding = cache.padding := by
  unfold releaseCell
  cases cache.cells[index]? <;> exact ⟨rfl, rfl, rfl, rfl⟩

theorem releaseCell_counted (counted : cache.used = cache.cells.countP KvCell.inUse) (index : Nat) :
    (cache.releaseCell index).used = (cache.releaseCell index).cells.countP KvCell.inUse := by
  rw [releaseCell_cells]
  unfold releaseCell
  cases here : cache.cells[index]? with
  | none => rw [List.set_eq_of_length_le (List.getElem?_eq_none_iff.mp here), counted]
  | some cell =>
      obtain ⟨inside, same⟩ := List.getElem?_eq_some_iff.mp here
      rw [List.countP_set inside, same, counted]
      by_cases used : 0 ≤ cell.pos
      · simp [used, KvCell.inUse, KvCell.empty]
      · simp [used, KvCell.inUse, KvCell.empty]

theorem releaseCell_sound (sound : cache.Sound) (index : Nat) :
    (cache.releaseCell index).Sound := by
  obtain ⟨sameSize, sameHead, _, _⟩ := releaseCell_frame cache index
  have members : ∀ cell ∈ (cache.releaseCell index).cells, cell ∈ cache.cells ∨ cell = .empty := by
    intro cell member
    rw [releaseCell_cells] at member
    exact List.mem_or_eq_of_mem_set member
  constructor
  · rw [releaseCell_cells, List.length_set, sameSize, sound.sized]
  · rw [sameSize, sameHead]
    exact sound.inside
  · exact releaseCell_counted sound.counted index
  · intro cell member unused
    rcases members cell member with before | rfl
    · exact sound.cleared cell before unused
    · rfl
  · intro cell member used
    rcases members cell member with before | rfl
    · exact sound.tagged cell before used
    · simp at used

def covered (cache : KvCache) : List Nat :=
  cache.pending.flatMap fun range => List.range' range.1 (range.2 - range.1)

theorem mem_covered : index ∈ cache.covered ↔ cache.Pending index := by
  unfold covered Pending
  simp only [List.mem_flatMap, List.mem_range'_1]
  constructor
  · rintro ⟨range, member, after, before⟩
    exact ⟨range, member, after, by omega⟩
  · rintro ⟨range, member, after, before⟩
    exact ⟨range, member, after, by omega⟩

theorem released_eq (cache : KvCache) :
    cache.pending.foldl releaseRange cache = cache.covered.foldl releaseCell cache := by
  rw [covered, List.foldl_flatMap]
  rfl

theorem released_frame (cache : KvCache) (indices : List Nat) :
    (indices.foldl releaseCell cache).size = cache.size ∧
      (indices.foldl releaseCell cache).head = cache.head ∧
      (indices.foldl releaseCell cache).pending = cache.pending ∧
      (indices.foldl releaseCell cache).padding = cache.padding := by
  induction indices generalizing cache with
  | nil => exact ⟨rfl, rfl, rfl, rfl⟩
  | cons index rest ih =>
      obtain ⟨size, head, pending, padding⟩ := releaseCell_frame cache index
      obtain ⟨laterSize, laterHead, laterPending, laterPadding⟩ := ih (cache.releaseCell index)
      exact ⟨laterSize.trans size, laterHead.trans head, laterPending.trans pending,
        laterPadding.trans padding⟩

theorem released_sound (sound : cache.Sound) (indices : List Nat) :
    (indices.foldl releaseCell cache).Sound := by
  induction indices generalizing cache with
  | nil => exact sound
  | cons index rest ih => exact ih (releaseCell_sound sound index)

theorem released_kept {indices : List Nat} (spared : index ∉ indices) :
    (indices.foldl releaseCell cache).cells[index]? = cache.cells[index]? := by
  induction indices generalizing cache with
  | nil => rfl
  | cons first rest ih =>
      rw [List.mem_cons, not_or] at spared
      rw [List.foldl_cons, ih spared.2, releaseCell_cells,
        List.getElem?_set_ne (fun same => spared.1 same.symm)]

theorem released_empty {indices : List Nat} (inside : index < cache.cells.length)
    (hit : index ∈ indices) :
    (indices.foldl releaseCell cache).cells[index]? = some .empty := by
  induction indices generalizing cache with
  | nil => simp at hit
  | cons first rest ih =>
      by_cases again : index ∈ rest
      · exact ih (by simpa using inside) again
      · rw [List.mem_cons] at hit
        obtain rfl : index = first := hit.resolve_right again
        rw [List.foldl_cons, released_kept again, releaseCell_cells,
          List.getElem?_set_self inside]

theorem restore_fields (cache : KvCache) :
    cache.restore.cells = (cache.covered.foldl releaseCell cache).cells ∧
      cache.restore.used = (cache.covered.foldl releaseCell cache).used ∧
      cache.restore.size = cache.size ∧ cache.restore.pending = cache.pending ∧
      cache.restore.head ≤ cache.head ∧ cache.restore.padding = cache.padding := by
  obtain ⟨size, head, pending, padding⟩ := released_frame cache cache.covered
  simp only [restore, released_eq]
  split
  · rename_i earlier
    exact ⟨rfl, rfl, size, pending, Nat.le_of_lt earlier.2, padding⟩
  · exact ⟨rfl, rfl, size, pending, Nat.le_of_eq head, padding⟩

theorem restore_sound (sound : cache.Sound) : cache.restore.Sound := by
  obtain ⟨cells, used, size, _, head, _⟩ := restore_fields cache
  have released := released_sound sound cache.covered
  obtain ⟨sameSize, _, _⟩ := released_frame cache cache.covered
  constructor
  · rw [cells, size, released.sized, sameSize]
  · have inside := sound.inside
    omega
  · rw [cells, used, released.counted]
  · rw [cells]
    exact released.cleared
  · rw [cells]
    exact released.tagged

theorem commit_sound (sound : cache.Sound) : cache.commit.Sound :=
  ⟨sound.sized, sound.inside, sound.counted, sound.cleared, sound.tagged⟩

end Release

section Transaction

variable {cache : KvCache} {base : List KvCell} {ubatch : List BatchToken}

theorem Since.findSlot (since : Since base cache) (sound : cache.Sound) (nonempty : ubatch ≠ []) :
    Since base (cache.findSlot ubatch).2 := by
  have step := findSlot_step sound nonempty
  generalize cache.findSlot ubatch = result at step ⊢
  cases step with
  | missed => exact ⟨since.kept, since.fresh⟩
  | placed slot next =>
      constructor
      · intro index spared
        have outside : index < slot ∨ slot + ubatch.length ≤ index := by
          by_contra inside
          exact spared ⟨(slot, slot + ubatch.length), by simp, by simp only; omega,
            by simp only; omega⟩
        have before : ¬ cache.Pending index := by
          rintro ⟨range, member, covers⟩
          exact spared ⟨range, by simp [member], covers⟩
        rw [getElem?_fillCells_outside outside]
        exact since.kept index before
      · rintro index ⟨range, member, after, early⟩
        by_cases before : cache.Pending index
        · exact since.fresh index before
        · rw [← since.kept index before]
          apply empty_of_free sound
          rcases List.mem_append.mp member with old | new
          · exact absurd ⟨range, old, after, early⟩ before
          · rw [List.mem_singleton] at new
            subst new
            simp only at after early
            have free := next.window.free (index - slot) (by omega)
            rwa [Nat.add_sub_cancel' after] at free

theorem Since.restore_cells (since : Since base cache)
    (sameLength : cache.cells.length = base.length) : cache.restore.cells = base := by
  obtain ⟨cells, _⟩ := restore_fields cache
  rw [cells]
  apply List.ext_getElem?
  intro index
  by_cases pending : cache.Pending index
  · have empty := since.fresh index pending
    have inside : index < base.length := (List.getElem?_eq_some_iff.mp empty).1
    rw [released_empty (by omega) (mem_covered.mpr pending), empty]
  · rw [released_kept (fun member => pending (mem_covered.mp member)), since.kept index pending]

theorem Since.restore (since : Since base cache) (sameLength : cache.cells.length = base.length) :
    Since base cache.restore := by
  obtain ⟨_, _, _, pending, _, _⟩ := restore_fields cache
  constructor
  · intro index _
    rw [since.restore_cells sameLength]
  · rintro index ⟨range, member, covers⟩
    rw [pending] at member
    exact since.fresh index ⟨range, member, covers⟩

theorem Since.commit (cache : KvCache) : Since cache.cells cache.commit := by
  constructor
  · intro index _
    rfl
  · rintro index ⟨range, member, _⟩
    simp [KvCache.commit] at member

theorem place_length (sound : cache.Sound) (ubatches : List (List BatchToken))
    (nonempty : ∀ ubatch ∈ ubatches, ubatch ≠ []) :
    (ubatches.foldl (fun cache ubatch => (cache.findSlot ubatch).2) cache).cells.length =
      cache.cells.length := by
  induction ubatches generalizing cache with
  | nil => rfl
  | cons ubatch rest ih =>
      have next := findSlot_sound sound (nonempty ubatch List.mem_cons_self)
      rw [List.foldl_cons,
        ih next (fun later member => nonempty later (List.mem_cons_of_mem _ member)), next.sized,
        findSlot_size, sound.sized]

theorem Since.place (since : Since base cache) (sound : cache.Sound)
    (ubatches : List (List BatchToken)) (nonempty : ∀ ubatch ∈ ubatches, ubatch ≠ []) :
    (ubatches.foldl (fun cache ubatch => (cache.findSlot ubatch).2) cache).Sound ∧
      Since base (ubatches.foldl (fun cache ubatch => (cache.findSlot ubatch).2) cache) := by
  induction ubatches generalizing cache with
  | nil => exact ⟨sound, since⟩
  | cons ubatch rest ih =>
      have here := nonempty ubatch List.mem_cons_self
      exact ih (since.findSlot sound here) (findSlot_sound sound here)
        (fun later member => nonempty later (List.mem_cons_of_mem _ member))

end Transaction

inductive CacheOp where
  | place (ubatch : List BatchToken)
  | restore
  | commit
  deriving DecidableEq, Repr

/-- The operations in any order; a batch without a token is never placed. -/
def opStep (cache : KvCache) : CacheOp → Option KvCache
  | .place ubatch => if ubatch = [] then none else some (cache.findSlot ubatch).2
  | .restore => some cache.restore
  | .commit => some cache.commit

theorem opStep_sound {cache next : KvCache} {op : CacheOp} (sound : cache.Sound)
    (taken : opStep cache op = some next) : next.Sound := by
  cases op with
  | place ubatch =>
      rw [opStep, Option.ite_none_left_eq_some, Option.some.injEq] at taken
      exact taken.2 ▸ findSlot_sound sound taken.1
  | restore =>
      cases taken
      exact restore_sound sound
  | commit =>
      cases taken
      exact commit_sound sound

theorem construct_sound (size padding : Nat) : (construct size padding).Sound := by
  constructor
  · simp [construct]
  · exact Nat.zero_le size
  · simp [construct, List.countP_replicate]
  · intro cell member _
    exact List.eq_of_mem_replicate member
  · intro cell member used
    rw [List.eq_of_mem_replicate member] at used
    simp at used

structure Tracked (cache : KvCache) : Prop where
  sound : cache.Sound
  since : ∃ base, Since base cache ∧ cache.cells.length = base.length

theorem opStep_tracked {cache next : KvCache} {op : CacheOp} (tracked : cache.Tracked)
    (taken : opStep cache op = some next) : next.Tracked := by
  have nextSound := opStep_sound tracked.sound taken
  obtain ⟨base, since, sameLength⟩ := tracked.since
  refine ⟨nextSound, ?_⟩
  cases op with
  | place ubatch =>
      rw [opStep, Option.ite_none_left_eq_some, Option.some.injEq] at taken
      obtain ⟨nonempty, rfl⟩ := taken
      refine ⟨base, since.findSlot tracked.sound nonempty, ?_⟩
      rw [nextSound.sized, ← sameLength, tracked.sound.sized, findSlot_size]
  | restore =>
      cases taken
      exact ⟨base, since.restore sameLength, congrArg List.length (since.restore_cells sameLength)⟩
  | commit =>
      cases taken
      exact ⟨cache.cells, Since.commit cache, rfl⟩

theorem construct_since (size padding : Nat) :
    Since (construct size padding).cells (construct size padding) := by
  constructor
  · intro index _
    rfl
  · rintro index ⟨range, member, _⟩
    simp [construct] at member

theorem reached_tracked {size padding : Nat} {ops : List CacheOp} {cache : KvCache}
    (reached : Transition.run opStep (construct size padding) ops = some cache) :
    cache.Tracked :=
  Transition.run_preserves (fun _ _ _ tracked taken => opStep_tracked tracked taken)
    ⟨construct_sound size padding, _, construct_since size padding, rfl⟩ reached

theorem settled_since {size padding : Nat} {ops : List CacheOp} {cache : KvCache}
    (reached : Transition.run opStep (construct size padding) ops = some cache)
    (settled : ∀ ubatch, ops.getLast? ≠ some (.place ubatch)) : Since cache.cells cache := by
  rcases List.eq_nil_or_concat ops with rfl | ⟨earlier, last, rfl⟩
  · rw [Transition.run_nil, Option.some.injEq] at reached
    exact reached ▸ construct_since size padding
  · rw [List.concat_eq_append] at reached settled
    obtain ⟨before, first, taken⟩ := (Transition.run_append _ _ _ _ _).mp reached
    rw [Transition.run_single] at taken
    obtain ⟨base, since, sameLength⟩ := (reached_tracked first).since
    cases last with
    | place ubatch => exact absurd (by simp) (settled ubatch)
    | restore =>
        cases taken
        rw [since.restore_cells sameLength]
        exact since.restore sameLength
    | commit =>
        cases taken
        exact Since.commit before

theorem reached_sound {size padding : Nat} {ops : List CacheOp} {cache : KvCache}
    (reached : Transition.run opStep (construct size padding) ops = some cache) : cache.Sound :=
  (reached_tracked reached).sound

/-- In every reachable cache the search of `find_slot` ends; it fails exactly when no row of free
cells is long enough, then changing no cell, and otherwise fills the next one that fits and only
that. -/
theorem findSlot_correct {size padding : Nat} {ops : List CacheOp} {cache : KvCache}
    {ubatch : List BatchToken}
    (reached : Transition.run opStep (construct size padding) ops = some cache)
    (nonempty : ubatch ≠ []) :
    (ubatch.length ≤ cache.size → ∃ result, searchSlot cache.cells cache.size ubatch.length
      (searchFuel cache.size) (cache.searchStart ubatch.length) 0 = some result) ∧
    ((cache.findSlot ubatch).1 = true ↔
      ∃ slot, Window (cellFree cache.cells · = true) cache.size ubatch.length slot) ∧
    ((cache.findSlot ubatch).1 = false → (cache.findSlot ubatch).2.cells = cache.cells) ∧
    ((cache.findSlot ubatch).1 = true → ∃ slot,
      NextFit (cellFree cache.cells · = true) cache.size ubatch.length
        (cache.searchStart ubatch.length) slot ∧
      (cache.findSlot ubatch).2.cells = cache.cells.take slot ++ ubatch.map KvCell.ofToken ++
        cache.cells.drop (slot + ubatch.length)) ∧
    (cache.findSlot ubatch).2.used = (cache.findSlot ubatch).2.cells.countP KvCell.inUse := by
  have sound := reached_sound reached
  have counted := (findSlot_sound sound nonempty).counted
  have step := findSlot_step sound nonempty
  have positive := List.length_pos_iff.mpr nonempty
  have ends : ubatch.length ≤ cache.size → ∃ result, searchSlot cache.cells cache.size ubatch.length
      (searchFuel cache.size) (cache.searchStart ubatch.length) 0 = some result := by
    intro fits
    obtain ⟨result, found, _⟩ := searchSlot_ends cache.cells fits positive
      (searchStart_inside sound ubatch.length)
    exact ⟨result, found⟩
  refine ⟨ends, ?_⟩
  generalize cache.findSlot ubatch = result at step counted ⊢
  cases step with
  | missed head none => exact ⟨by simpa using none, fun _ => rfl, by simp, counted⟩
  | placed slot next =>
      exact ⟨by simpa using ⟨slot, next.window⟩, by simp,
        fun _ => ⟨slot, next, fillCells_window sound next.window⟩, counted⟩

theorem findSlot_correct_second :
    let cache := ((construct 4 2).findSlot [⟨7, 0, 0, false⟩]).2
    (cache.findSlot [⟨8, 1, 0, true⟩, ⟨9, 2, 0, true⟩]).1 = true ↔
      ∃ slot, Window (cellFree cache.cells · = true) 4 2 slot :=
  (findSlot_correct (show Transition.run opStep (construct 4 2) [.place [⟨7, 0, 0, false⟩]] =
    some ((construct 4 2).findSlot [⟨7, 0, 0, false⟩]).2 by simp [Transition.run, opStep])
    (by simp)).2.1

/-- From a state that was just committed or restored, whatever is placed is taken back whole. -/
theorem restore_undoes {size padding : Nat} {ops : List CacheOp} {cache : KvCache}
    (reached : Transition.run opStep (construct size padding) ops = some cache)
    (settled : ∀ ubatch, ops.getLast? ≠ some (.place ubatch)) (ubatches : List (List BatchToken))
    (nonempty : ∀ ubatch ∈ ubatches, ubatch ≠ []) :
    let restored := (ubatches.foldl (fun cache ubatch => (cache.findSlot ubatch).2) cache).restore
    restored.cells = cache.cells ∧ restored.used = cache.used := by
  have sound := reached_sound reached
  obtain ⟨placedSound, since⟩ :=
    (settled_since reached settled).place sound ubatches nonempty
  have sameLength := place_length sound ubatches nonempty
  have same := since.restore_cells sameLength
  refine ⟨same, ?_⟩
  rw [(restore_sound placedSound).counted, same, sound.counted]

theorem restore_undoes_two :
    let cache := ((construct 4 2).findSlot [⟨7, 0, 0, false⟩]).2.commit
    let restored := ((cache.findSlot [⟨8, 1, 0, true⟩]).2.findSlot [⟨9, 2, 0, true⟩]).2.restore
    restored.cells = cache.cells ∧ restored.used = cache.used :=
  restore_undoes
    (show Transition.run opStep (construct 4 2) [.place [⟨7, 0, 0, false⟩], .commit] =
      some ((construct 4 2).findSlot [⟨7, 0, 0, false⟩]).2.commit by simp [Transition.run, opStep])
    (by simp) [[⟨8, 1, 0, true⟩], [⟨9, 2, 0, true⟩]] (by simp)

end KvCache

end TextMaster
