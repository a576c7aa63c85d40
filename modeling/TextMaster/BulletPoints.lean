import TextMaster.KeyPoints
import TextMaster.ListMarkers

/-!
`format_bullet_points`: one line for each point, from which the key points can be read back.
-/

namespace TextMaster.NlpProcessor

def bulletPrefix (indent : PyString) : PyString := indent ++ ['•', ' ']

def formatBulletPoints (points : List PyString) (indent : PyString) : PyString :=
  if points = [] then []
  else ['\n'].intercalate (points.map fun point => bulletPrefix indent ++ cleanText point)

def readPoints (indent text : PyString) : List PyString :=
  if text = [] then [] else (lines text).map fun line => line.drop (bulletPrefix indent).length

section Lines

variable {points : List PyString} {indent : PyString}

theorem lines_formatBulletPoints (nonempty : points ≠ []) (oneLine : '\n' ∉ indent) :
    lines (formatBulletPoints points indent) =
      points.map fun point => bulletPrefix indent ++ cleanText point := by
  rw [formatBulletPoints, if_neg nonempty, lines]
  refine List.splitOn_intercalate '\n' ?_ (by simpa using nonempty)
  intro line member
  obtain ⟨point, _, rfl⟩ := List.mem_map.mp member
  have within := (cleanText_singleSpaced point).one_line
  simp [bulletPrefix, oneLine, within]

theorem formatBulletPoints_ne_nil (nonempty : points ≠ []) (oneLine : '\n' ∉ indent) :
    formatBulletPoints points indent ≠ [] := by
  intro empty
  have lines := lines_formatBulletPoints nonempty oneLine
  rw [empty] at lines
  have blank : [[]] = points.map fun point => bulletPrefix indent ++ cleanText point := lines
  cases points with
  | nil => contradiction
  | cons point rest => simp [bulletPrefix] at blank

theorem readPoints_formatBulletPoints (points : List PyString) (oneLine : '\n' ∉ indent) :
    readPoints indent (formatBulletPoints points indent) = points.map cleanText := by
  by_cases empty : points = []
  · subst empty
    rfl
  · rw [readPoints, if_neg (formatBulletPoints_ne_nil empty oneLine),
      lines_formatBulletPoints empty oneLine, List.map_map]
    exact List.map_congr_left fun point _ => List.drop_left

end Lines

section KeyPoints

variable {lower : PyString → PyString} {doc : Doc} {order : SetOrder} {topN : Int}
  {point indent : PyString}

theorem mem_addSentences {chosen points : List PyString}
    (member : point ∈ chosen.foldl addSentence points) : point ∈ points ∨ point ∈ chosen := by
  induction chosen generalizing points with
  | nil => exact Or.inl member
  | cons sent rest ih =>
      rcases ih member with added | later
      · unfold addSentence at added
        split at added
        · split at added
          · exact Or.inl added
          · rcases mem_addPoint.mp added with old | rfl
            · exact Or.inl old
            · exact Or.inr List.mem_cons_self
        · exact Or.inl added
      · exact Or.inr (List.mem_cons_of_mem _ later)

theorem cleanText_keyPoint (member : point ∈ extractKeyPoints lower doc order topN) :
    cleanText point = point := by
  have collected := (extractKeyPoints_perm lower doc topN order).mem_iff.mp member
  have cleaned : ∃ text, point = cleanText text := by
    rcases mem_addSentences collected with entity | sentence
    · obtain ⟨ent, _, _, same, _⟩ := (mem_entityPoints doc).mp entity
      exact ⟨ent.text, same.symm⟩
    · obtain ⟨scored, chosen, rfl⟩ := List.mem_map.mp sentence
      have sorted : scored ∈ sortedSentences lower doc := by
        unfold sliceTo at chosen
        split at chosen <;> exact List.mem_of_mem_take chosen
      have inDocument := (StableSort.descending_perm Prod.snd _).mem_iff.mp sorted
      obtain ⟨sent, _, rfl⟩ := List.mem_map.mp inDocument
      exact ⟨sent.text, rfl⟩
  obtain ⟨text, rfl⟩ := cleaned
  exact cleanText_idempotent text

/-- The bullet list of the key points has a line for each of them, and they are read back as they
were extracted. -/
theorem key_points_read_back (lower : PyString → PyString) (doc : Doc) (order : SetOrder)
    (topN : Int) (oneLine : '\n' ∉ indent) :
    readPoints indent (formatBulletPoints (extractKeyPoints lower doc order topN) indent) =
        extractKeyPoints lower doc order topN ∧
      (extractKeyPoints lower doc order topN ≠ [] →
        lines (formatBulletPoints (extractKeyPoints lower doc order topN) indent) =
          (extractKeyPoints lower doc order topN).map fun point => bulletPrefix indent ++ point) := by
  have clean : ∀ point ∈ extractKeyPoints lower doc order topN, cleanText point = point :=
    fun _ => cleanText_keyPoint
  constructor
  · rw [readPoints_formatBulletPoints _ oneLine, List.map_congr_left clean, List.map_id']
  · intro nonempty
    rw [lines_formatBulletPoints nonempty oneLine]
    exact List.map_congr_left fun point member => by rw [clean point member]

theorem key_points_read_back_nested :
    readPoints [' '] (formatBulletPoints (extractKeyPoints id nested insertionOrder 10) [' ']) =
        extractKeyPoints id nested insertionOrder 10 ∧
      (extractKeyPoints id nested insertionOrder 10 ≠ [] →
        lines (formatBulletPoints (extractKeyPoints id nested insertionOrder 10) [' ']) =
          (extractKeyPoints id nested insertionOrder 10).map
            fun point => bulletPrefix [' '] ++ point) :=
  key_points_read_back id nested insertionOrder 10 (by decide)

end KeyPoints

end TextMaster.NlpProcessor
