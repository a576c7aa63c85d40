import TextMaster.TidyText

/-!
The list markers of a text of several lines. The substitutions on the markers run line by line,
but only after the one on whitespace has made a single line of the text.
-/

namespace TextMaster.NlpProcessor

/-- The lines that `^` tells apart under MULTILINE. -/
def lines (text : PyString) : List PyString := text.splitOn '\n'

def Blank (line : PyString) : Prop := ∀ char ∈ line, isspace char = true

instance (line : PyString) : Decidable (Blank line) :=
  List.decidableBAll _ line

/-- The line starts, behind optional whitespace, with a marker that should come out as `mark`. -/
def Marked (line mark : PyString) : Prop :=
  ∃ blank word after, Blank blank ∧ Mark word mark ∧ line = blank ++ word ++ after

def StartsAs (mark line : PyString) : Prop :=
  ∃ rest, line = mark ++ rest ∧ ∀ char, rest.head? = some char → isspace char = false

/-- Each marked line of the text comes out as a line of its own that starts with its mark. -/
structure MarksKept (text : PyString) (place : Nat → Nat) : Prop where
  turned : ∀ (i : Nat) line mark, (lines text)[i]? = some line → Marked line mark →
    ∃ out, (lines (cleanText text))[place i]? = some out ∧ StartsAs mark out ∧
      bulleted (content line) <+: content out
  apart : ∀ (i j : Nat) first second, (lines text)[i]? = some first →
    (lines text)[j]? = some second → (∃ mark, Marked first mark) → (∃ mark, Marked second mark) →
    place i = place j → i = j

def MarksLead (text : PyString) : Prop :=
  ∀ (i j : Nat) earlier line, i < j → (lines text)[i]? = some earlier →
    (lines text)[j]? = some line → (∃ mark, Marked line mark) → Blank earlier

section Words

variable {word body tail text : PyString}

theorem word_collapseFrom (visible : ∀ char ∈ word, isspace char = false) :
    word <+: collapseFrom false text ↔ word <+: text := by
  induction word generalizing text with
  | nil => simp
  | cons head rest ih =>
      have seen := visible head List.mem_cons_self
      cases text with
      | nil => simp [collapseFrom]
      | cons char late =>
          rw [collapseFrom]
          split
          · rename_i space
            rw [if_neg (by simp), List.cons_prefix_cons, List.cons_prefix_cons]
            constructor
            · rintro ⟨rfl, _⟩
              exact absurd seen (by decide)
            · rintro ⟨rfl, _⟩
              rw [seen] at space
              contradiction
          · rw [List.cons_prefix_cons, List.cons_prefix_cons,
              ih fun other member => visible other (List.mem_cons_of_mem _ member)]

theorem word_rdropWhile (visible : ∀ char ∈ word, isspace char = false) :
    word <+: text.rdropWhile isspace ↔ word <+: text := by
  constructor
  · exact fun starts => starts.trans (List.rdropWhile_prefix isspace text)
  · rintro ⟨late, rfl⟩
    induction late using List.reverseRecOn with
    | nil =>
        have same : word.rdropWhile isspace = word := by
          rw [List.rdropWhile_eq_self_iff]
          intro nonempty
          simp [visible _ (List.getLast_mem nonempty)]
        rw [List.append_nil, same]
    | append_singleton early last ih =>
        rw [← List.append_assoc, List.rdropWhile_concat]
        split
        · exact ih
        · exact ⟨early ++ [last], by rw [List.append_assoc]⟩

theorem word_append (visible : ∀ char ∈ word, isspace char = false)
    (apart : ∀ char, tail.head? = some char → isspace char = true) :
    word <+: body ++ tail ↔ word <+: body := by
  constructor
  · intro starts
    rcases List.prefix_or_prefix_of_prefix starts (List.prefix_append body tail) with
      inside | ⟨beyond, rfl⟩
    · exact inside
    · rw [List.prefix_append_right_inj] at starts
      cases beyond with
      | nil => simp
      | cons head rest =>
          obtain ⟨late, rfl⟩ := starts
          have space := apart head rfl
          rw [visible head (by simp)] at space
          contradiction
  · exact fun starts => starts.trans (List.prefix_append body tail)

theorem word_tidied (visible : ∀ char ∈ word, isspace char = false) :
    word <+: tidied text ↔ word <+: text.dropWhile isspace := by
  rw [tidied, word_collapseFrom visible, strip_eq, word_rdropWhile visible]

theorem marked_iff {line mark : PyString} :
    Marked line mark ↔ ∃ word, Mark word mark ∧ word <+: line.dropWhile isspace := by
  constructor
  · rintro ⟨blank, word, after, spaces, counts, rfl⟩
    refine ⟨word, counts, after, ?_⟩
    rw [List.append_assoc, List.dropWhile_append_of_pos spaces,
      dropWhile_visible (head_visible counts.visible counts.ne_nil after)]
  · rintro ⟨word, counts, after, starts⟩
    refine ⟨line.takeWhile isspace, word, after, fun char => List.mem_takeWhile_imp, counts, ?_⟩
    rw [List.append_assoc, starts, List.takeWhile_append_dropWhile]

theorem not_blank_of_marked {line mark : PyString} (marked : Marked line mark) : ¬ Blank line := by
  obtain ⟨blank, word, after, _, counts, rfl⟩ := marked
  intro spaces
  obtain ⟨char, member⟩ := List.exists_mem_of_ne_nil word counts.ne_nil
  have space := spaces char (by simp [member])
  rw [counts.visible char member] at space
  contradiction

end Words

section Lead

variable {text first : PyString} {before after : List PyString}

structure Lead (all before : List PyString) (first : PyString) (after : List PyString) : Prop where
  split : all = before ++ first :: after
  blank : ∀ line ∈ before, Blank line
  filled : ¬ Blank first

theorem Lead.exists {all : List PyString} {i : Nat} {line : PyString} (found : all[i]? = some line)
    (filled : ¬ Blank line) : ∃ before first after, Lead all before first after ∧
      all[before.length]? = some first ∧ before.length ≤ i := by
  induction all generalizing i with
  | nil => simp at found
  | cons head rest ih =>
      by_cases blank : Blank head
      · cases i with
        | zero =>
            obtain rfl : head = line := by simpa using found
            exact absurd blank filled
        | succ i =>
            rw [List.getElem?_cons_succ] at found
            obtain ⟨before, first, after, lead, there, early⟩ := ih found
            refine ⟨head :: before, first, after, ⟨?_, ?_, lead.filled⟩, there, by simpa using early⟩
            · rw [lead.split, List.cons_append]
            · intro other member
              rcases List.mem_cons.mp member with rfl | later
              · exact blank
              · exact lead.blank other later
      · exact ⟨[], head, rest, ⟨rfl, by simp, blank⟩, rfl, Nat.zero_le i⟩

theorem intercalate_lines (first : PyString) (after : List PyString) :
    ['\n'].intercalate (first :: after) = first ++ after.flatMap ('\n' :: ·) := by
  induction after generalizing first with
  | nil => simp
  | cons next rest ih =>
      rw [List.intercalate_cons_cons, ih, List.flatMap_cons, List.append_assoc,
        List.singleton_append, List.cons_append]

theorem intercalate_dropWhile (blank : ∀ line ∈ before, Blank line) (filled : ¬ Blank first) :
    (['\n'].intercalate (before ++ first :: after)).dropWhile isspace =
      first.dropWhile isspace ++ after.flatMap ('\n' :: ·) := by
  induction before with
  | nil =>
      rw [List.nil_append, intercalate_lines, List.dropWhile_append, if_neg]
      simpa [Blank] using filled
  | cons line rest ih =>
      rw [List.cons_append, List.intercalate_cons_of_ne_nil (by simp), List.append_assoc,
        List.dropWhile_append_of_pos (blank line List.mem_cons_self), List.singleton_append,
        List.dropWhile_cons_of_pos (by decide)]
      exact ih fun other member => blank other (List.mem_cons_of_mem _ member)

theorem Lead.dropWhile (lead : Lead (lines text) before first after) :
    text.dropWhile isspace = first.dropWhile isspace ++ after.flatMap ('\n' :: ·) := by
  rw [← intercalate_dropWhile lead.blank lead.filled, ← lead.split, lines,
    List.intercalate_splitOn]

theorem Lead.word_iff (lead : Lead (lines text) before first after) {word : PyString}
    (visible : ∀ char ∈ word, isspace char = false) :
    word <+: tidied text ↔ word <+: first.dropWhile isspace := by
  rw [word_tidied visible, lead.dropWhile, word_append visible]
  intro char found
  cases after with
  | nil => simp at found
  | cons next rest =>
      obtain rfl : '\n' = char := by simpa using found
      decide

theorem Lead.content (lead : Lead (lines text) before first after) :
    content text = content first ++ content (after.flatMap ('\n' :: ·)) := by
  rw [← content_dropWhile text, lead.dropWhile, content_append, content_dropWhile]

theorem content_ne_nil {line : PyString} (filled : ¬ Blank line) : content line ≠ [] := by
  intro empty
  apply filled
  simpa [content, List.filter_eq_nil_iff, Blank] using empty

theorem bulleted_append {early : PyString} (nonempty : early ≠ []) (late : PyString) :
    bulleted (early ++ late) = bulleted early ++ late := by
  cases early with
  | nil => exact absurd rfl nonempty
  | cons head rest =>
      by_cases dash : head = '-'
      · rw [dash]
        rfl
      · simp [bulleted, dash]

end Lead

section Lines

variable {text word out line mark : PyString}

theorem lines_cleanText (text : PyString) : lines (cleanText text) = [cleanText text] :=
  List.splitOn_eq_singleton (cleanText_singleSpaced text).one_line

theorem startsAs_cleanText (counts : Mark word mark) (starts : word <+: tidied text) :
    StartsAs mark (cleanText text) := by
  obtain ⟨after, starts⟩ := starts
  exact ⟨_, cleanText_of_mark counts starts.symm, fun char found => dropWhile_first found⟩

theorem mark_of_startsAs (counts : Mark word mark) (starts : StartsAs mark (cleanText text)) :
    ∃ other mark, Mark other mark ∧ other <+: tidied text := by
  rcases cleanText_cases text with ⟨other, mark, _, after, other_counts, _, _, _, whole, _⟩ |
    ⟨_, same⟩
  · exact ⟨other, mark, other_counts, after, whole.symm⟩
  · obtain ⟨spelled, rfl, again, _⟩ := counts.again
    obtain ⟨rest, whole, _⟩ := starts
    refine ⟨spelled, _, again, ' ' :: rest, ?_⟩
    rw [← same, whole, List.append_assoc, List.singleton_append]

theorem MarksKept.single {place : Nat → Nat} (kept : MarksKept text place) {k : Nat}
    (found : (lines text)[k]? = some line) (marked : Marked line mark) :
    place k = 0 ∧ StartsAs mark (cleanText text) := by
  obtain ⟨out, found_out, starts, _⟩ := kept.turned k line mark found marked
  rw [lines_cleanText, List.getElem?_singleton] at found_out
  split at found_out
  · rename_i first
    obtain rfl : cleanText text = out := by simpa using found_out
    exact ⟨first, starts⟩
  · contradiction

theorem lead_of_kept {place : Nat → Nat} (kept : MarksKept text place) : MarksLead text := by
  rintro i j earlier line behind found_earlier found ⟨mark, marked⟩
  by_contra filled
  obtain ⟨before, first, after, lead, found_first, early⟩ := Lead.exists found_earlier filled
  obtain ⟨_, counts, _⟩ := marked_iff.mp marked
  obtain ⟨word, other, lead_counts, starts⟩ := mark_of_startsAs counts (kept.single found marked).2
  rw [lead.word_iff lead_counts.visible] at starts
  have marked_first : Marked first other := marked_iff.mpr ⟨word, lead_counts, starts⟩
  have same : before.length = j := by
    apply kept.apart _ _ first line found_first found ⟨other, marked_first⟩ ⟨mark, marked⟩
    rw [(kept.single found_first marked_first).1, (kept.single found marked).1]
  omega

theorem kept_of_lead (leads : MarksLead text) : MarksKept text fun _ => 0 := by
  constructor
  · intro i line mark found marked
    have filled := not_blank_of_marked marked
    obtain ⟨before, first, after, lead, found_first, early⟩ := Lead.exists found filled
    have same : before.length = i := by
      by_contra differ
      exact lead.filled (leads _ i first line (by omega) found_first found ⟨mark, marked⟩)
    obtain rfl : first = line := by
      rw [same, found] at found_first
      exact (Option.some.inj found_first).symm
    obtain ⟨word, counts, starts⟩ := marked_iff.mp marked
    rw [← lead.word_iff counts.visible] at starts
    refine ⟨cleanText text, by rw [lines_cleanText]; rfl, startsAs_cleanText counts starts, ?_⟩
    rw [cleanText_content, lead.content, bulleted_append (content_ne_nil filled)]
    exact List.prefix_append _ _
  · intro i j first second found_first found_second marked_first marked_second _
    rcases lt_trichotomy i j with before | same | after
    · have blank := leads i j first second before found_first found_second marked_second
      exact absurd blank (not_blank_of_marked marked_first.choose_spec)
    · exact same
    · have blank := leads j i second first after found_second found_first marked_first
      exact absurd blank (not_blank_of_marked marked_second.choose_spec)

theorem normalises_lines_iff (text : PyString) :
    (∃ place, MarksKept text place) ↔ MarksLead text := by
  constructor
  · rintro ⟨place, kept⟩
    exact lead_of_kept kept
  · exact fun lead => ⟨_, kept_of_lead lead⟩

theorem second_marker_lost : ¬ ∃ place, MarksKept "- a\n1. b".toList place := by
  rintro ⟨place, kept⟩
  have one : isdecimal '1' = true := by decide
  have marked : Marked "1. b".toList "1. ".toList :=
    ⟨[], "1.".toList, " b".toList, by simp [Blank],
      .number ['1'] (by simp) (by simp [one]), rfl⟩
  have blank := lead_of_kept kept 0 1 "- a".toList "1. b".toList (by omega) rfl rfl ⟨_, marked⟩
  exact absurd (blank '-' (by simp)) (by decide)

end Lines

end TextMaster.NlpProcessor
