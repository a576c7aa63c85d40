import TextMaster.PythonText

/-!
`clean_text`: one substitution over the whole text and two that a pattern anchors at the start
of a line.
-/

namespace TextMaster.NlpProcessor

/-- A match of an anchored pattern: its replacement, the matched text, and what follows. -/
structure LineMatch where
  replacement : PyString
  matched : PyString
  rest : PyString

/-- `re.sub` with a pattern that begins with `^` under MULTILINE, which holds at the start of the
text and behind every line feed. A match is never empty, so the length of the text is fuel
enough. -/
def subLines (pattern : PyString → Option LineMatch) : Nat → Bool → PyString → PyString
  | 0, _, text => text
  | _ + 1, _, [] => []
  | fuel + 1, lineStart, char :: rest =>
    match if lineStart then pattern (char :: rest) else none with
    | some found =>
      found.replacement ++ subLines pattern fuel (found.matched.getLast? == some '\n') found.rest
    | none => char :: subLines pattern fuel (char == '\n') rest

def sub (pattern : PyString → Option LineMatch) (text : PyString) : PyString :=
  subLines pattern text.length true text

/-- `re.sub(r'\s+', ' ', text)`, behind a character that belongs to the match or not. -/
def collapseFrom : Bool → PyString → PyString
  | _, [] => []
  | inMatch, char :: rest =>
    if isspace char then
      if inMatch then collapseFrom true rest else ' ' :: collapseFrom true rest
    else char :: collapseFrom false rest

def isMarker (char : Char) : Bool := char == '-' || char == '•'

/-- The pattern `^\s*[-•]\s*` with its replacement. -/
def bulletLine (text : PyString) : Option LineMatch :=
  match text.dropWhile isspace with
  | [] => none
  | marker :: after =>
    if isMarker marker then
      some ⟨['•', ' '], text.takeWhile isspace ++ marker :: after.takeWhile isspace,
        after.dropWhile isspace⟩
    else none

/-- The pattern `^\s*(\d+)\.\s*` with its replacement. -/
def numberLine (text : PyString) : Option LineMatch :=
  let digits := (text.dropWhile isspace).takeWhile isdecimal
  match (text.dropWhile isspace).dropWhile isdecimal with
  | '.' :: after =>
    if digits = [] then none
    else
      some ⟨digits ++ ['.', ' '],
        text.takeWhile isspace ++ digits ++ '.' :: after.takeWhile isspace,
        after.dropWhile isspace⟩
  | _ => none

def cleanText (text : PyString) : PyString :=
  sub numberLine (sub bulletLine (collapseFrom false (strip text)))

end TextMaster.NlpProcessor
