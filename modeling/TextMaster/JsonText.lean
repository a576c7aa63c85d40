import Mathlib.Data.List.Basic

/-!
Indented JSON text for arrays of flat objects with string members, as bytes, and its reader.
Reading what was written gives the rows back.
-/

namespace JsonText

abbrev Row := List (List Char × List Char)

inductive Lexeme where
  | openBracket
  | closeBracket
  | openBrace
  | closeBrace
  | comma
  | colon
  | text (chars : List Char)
  deriving DecidableEq, Repr

section Strings

def escapes : List (Char × Char) :=
  [('"', '"'), ('\\', '\\'), ('\x08', 'b'), ('\x0c', 'f'), ('\n', 'n'), ('\r', 'r'), ('\t', 't')]

def letterOf (char : Char) : Option Char := (escapes.find? fun pair => pair.1 = char).map Prod.snd

def ofLetter (letter : Char) : Option Char :=
  (escapes.find? fun pair => pair.2 = letter).map Prod.fst

def hexDigit (value : Nat) : Char := Char.ofNat (if value < 10 then 48 + value else 87 + value)

def hexValue (digit : Char) : Nat :=
  if digit.toNat < 58 then digit.toNat - 48 else digit.toNat - 87

def hexChar (digits : List Char) : Char :=
  Char.ofNat (digits.foldl (fun value digit => 16 * value + hexValue digit) 0)

def escapeChar (char : Char) : List Char :=
  match letterOf char with
  | some letter => ['\\', letter]
  | none =>
    if char.toNat < 32 then
      ['\\', 'u', '0', '0', hexDigit (char.toNat / 16), hexDigit (char.toNat % 16)]
    else [char]

theorem ofLetter_of_letterOf {char letter : Char} (named : letterOf char = some letter) :
    letter ≠ 'u' ∧ ofLetter letter = some char := by
  simp only [letterOf, Option.map_eq_some_iff] at named
  obtain ⟨pair, found, rfl⟩ := named
  have same : pair.1 = char := by simpa using List.find?_some found
  have member := List.mem_of_find?_eq_some found
  have all : ∀ entry ∈ escapes, entry.2 ≠ 'u' ∧ ofLetter entry.2 = some entry.1 := by decide
  rw [← same]
  exact all pair member

theorem letterOf_none {char : Char} (unnamed : letterOf char = none) :
    char ≠ '"' ∧ char ≠ '\\' := by
  constructor
  · rintro rfl
    exact absurd unnamed (by decide)
  · rintro rfl
    exact absurd unnamed (by decide)

theorem hexValue_hexDigit {value : Nat} (bound : value < 16) :
    hexValue (hexDigit value) = value := by
  have all : ∀ small : Fin 16, hexValue (hexDigit small) = small := by decide
  exact all ⟨value, bound⟩

theorem hexChar_control {char : Char} (control : char.toNat < 32) :
    hexChar ['0', '0', hexDigit (char.toNat / 16), hexDigit (char.toNat % 16)] = char := by
  have zero : hexValue '0' = 0 := by decide
  simp only [hexChar, List.foldl_cons, List.foldl_nil, zero,
    hexValue_hexDigit (show char.toNat / 16 < 16 by omega),
    hexValue_hexDigit (show char.toNat % 16 < 16 by omega)]
  have value : 16 * (16 * (16 * (16 * 0 + 0) + 0) + char.toNat / 16) + char.toNat % 16 =
      char.toNat := by omega
  rw [value, Char.ofNat_toNat]

end Strings

section Lexer

inductive Mode where
  | outside
  | inside (done : List Char)
  | escaped (done : List Char)
  | hex (done digits : List Char)

def isBlank (char : Char) : Bool :=
  char = ' ' || char = '\n' || char = '\t' || char = '\r'

def mark (char : Char) : Option Lexeme :=
  if char = '[' then some .openBracket
  else if char = ']' then some .closeBracket
  else if char = '\x7b' then some .openBrace
  else if char = '\x7d' then some .closeBrace
  else if char = ',' then some .comma
  else if char = ':' then some .colon
  else none

def lex : Mode → List Char → Option (List Lexeme)
  | .outside, [] => some []
  | _, [] => none
  | .outside, char :: rest =>
    if char = '"' then lex (.inside []) rest
    else if isBlank char then lex .outside rest
    else (mark char).bind fun found => (lex .outside rest).map (found :: ·)
  | .inside done, char :: rest =>
    if char = '"' then (lex .outside rest).map (.text done :: ·)
    else if char = '\\' then lex (.escaped done) rest
    else lex (.inside (done ++ [char])) rest
  | .escaped done, char :: rest =>
    if char = 'u' then lex (.hex done []) rest
    else (ofLetter char).bind fun original => lex (.inside (done ++ [original])) rest
  | .hex done digits, char :: rest =>
    if digits.length < 3 then lex (.hex done (digits ++ [char])) rest
    else lex (.inside (done ++ [hexChar (digits ++ [char])])) rest

def spell : Lexeme → List Char
  | .openBracket => ['[']
  | .closeBracket => [']']
  | .openBrace => ['\x7b']
  | .closeBrace => ['\x7d']
  | .comma => [',']
  | .colon => [':']
  | .text chars => '"' :: (chars.flatMap escapeChar ++ ['"'])

theorem lex_escapeChar (done rest : List Char) (char : Char) :
    lex (.inside done) (escapeChar char ++ rest) = lex (.inside (done ++ [char])) rest := by
  simp only [escapeChar]
  split
  · rename_i letter named
    obtain ⟨notHex, original⟩ := ofLetter_of_letterOf named
    simp [lex, notHex, original]
  · rename_i unnamed
    obtain ⟨notQuote, notEscape⟩ := letterOf_none unnamed
    split
    · rename_i control
      have decoded := hexChar_control control
      simp [lex, decoded]
    · simp [lex, notQuote, notEscape]

theorem lex_inside (done chars rest : List Char) :
    lex (.inside done) (chars.flatMap escapeChar ++ '"' :: rest) =
      (lex .outside rest).map (.text (done ++ chars) :: ·) := by
  induction chars generalizing done with
  | nil => simp [lex]
  | cons char later ih =>
      rw [List.flatMap_cons, List.append_assoc, lex_escapeChar, ih, List.append_assoc,
        List.singleton_append]

theorem lex_spell (lexeme : Lexeme) (rest : List Char) :
    lex .outside (spell lexeme ++ rest) = (lex .outside rest).map (lexeme :: ·) := by
  cases lexeme with
  | text chars =>
      have opened := lex_inside [] chars rest
      rw [List.nil_append] at opened
      simpa [spell, lex] using opened
  | _ => simp [spell, lex, isBlank, mark]

theorem lex_blank {blank : List Char} (allBlank : ∀ char ∈ blank, isBlank char = true)
    (rest : List Char) : lex .outside (blank ++ rest) = lex .outside rest := by
  induction blank with
  | nil => rfl
  | cons char later ih =>
      have here := allBlank char (by simp)
      have notQuote : char ≠ '"' := by
        rintro rfl
        exact absurd here (by decide)
      rw [List.cons_append, lex, if_neg notQuote, if_pos here,
        ih fun other member => allBlank other (by simp [member])]

end Lexer

section Parser

def parseMembers : List Lexeme → Option (Row × List Lexeme)
  | .text key :: .colon :: .text value :: .comma :: rest =>
    (parseMembers rest).map fun parsed => ((key, value) :: parsed.1, parsed.2)
  | .text key :: .colon :: .text value :: .closeBrace :: rest => some ([(key, value)], rest)
  | _ => none

def parseRow : List Lexeme → Option (Row × List Lexeme)
  | .openBrace :: .closeBrace :: rest => some ([], rest)
  | .openBrace :: rest => parseMembers rest
  | _ => none

def parseRows : Nat → List Lexeme → Option (List Row)
  | 0, _ => none
  | fuel + 1, lexemes =>
    match parseRow lexemes with
    | some (row, [.closeBracket]) => some [row]
    | some (row, .comma :: rest) => (parseRows fuel rest).map (row :: ·)
    | _ => none

def parse : List Lexeme → Option (List Row)
  | [.openBracket, .closeBracket] => some []
  | .openBracket :: rest => parseRows rest.length rest
  | _ => none

abbrev Piece := List Char × Lexeme

def separated {Item : Type} (pieces : Item → List Piece) : List Item → List Piece
  | [] => []
  | [item] => pieces item
  | item :: next :: rest => pieces item ++ ([], .comma) :: separated pieces (next :: rest)

def memberPieces (member : List Char × List Char) : List Piece :=
  [('\n' :: List.replicate 8 ' ', .text member.1), ([], .colon), ([' '], .text member.2)]

def rowPieces (row : Row) : List Piece :=
  ('\n' :: List.replicate 4 ' ', .openBrace) ::
    (separated memberPieces row ++ [('\n' :: List.replicate 4 ' ', .closeBrace)])

def arrayPieces (rows : List Row) : List Piece :=
  ([], .openBracket) :: (separated rowPieces rows ++ [(['\n'], .closeBracket)])

def writeText (rows : List Row) : List Char :=
  (arrayPieces rows).flatMap (fun piece => piece.1 ++ spell piece.2) ++ ['\n']

theorem parseMembers_pieces (first : List Char × List Char) (row : Row) (rest : List Lexeme) :
    parseMembers ((separated memberPieces (first :: row)).map Prod.snd ++ .closeBrace :: rest) =
      some (first :: row, rest) := by
  induction row generalizing first with
  | nil => simp [separated, memberPieces, parseMembers]
  | cons second later ih =>
      have tail := ih second
      simp only [separated, memberPieces, List.map_cons, List.cons_append, List.nil_append,
        parseMembers]
      rw [tail]
      rfl

theorem parseRow_pieces (row : Row) (rest : List Lexeme) :
    parseRow ((rowPieces row).map Prod.snd ++ rest) = some (row, rest) := by
  cases row with
  | nil => simp [rowPieces, separated, parseRow]
  | cons first later =>
      have members := parseMembers_pieces first later rest
      simp only [rowPieces, List.map_cons, List.map_append, List.map_nil, List.cons_append,
        List.append_assoc, List.nil_append]
      rw [← members]
      cases later <;> simp [separated, memberPieces, parseRow]

theorem parseRows_pieces (fuel : Nat) (first : Row) (rows : List Row)
    (enough : rows.length < fuel) :
    parseRows fuel ((separated rowPieces (first :: rows)).map Prod.snd ++ [.closeBracket]) =
      some (first :: rows) := by
  induction rows generalizing fuel first with
  | nil =>
      cases fuel with
      | zero => omega
      | succ fuel => simp only [separated, parseRows, parseRow_pieces]
  | cons second later ih =>
      cases fuel with
      | zero => omega
      | succ fuel =>
          rw [List.length_cons] at enough
          have tail := ih fuel second (by omega)
          simp only [separated, List.map_append, List.map_cons, List.append_assoc,
            List.cons_append, parseRows, parseRow_pieces]
          rw [tail]
          rfl

theorem length_le_separated {Item : Type} {pieces : Item → List Piece}
    (positive : ∀ item, 0 < (pieces item).length) (items : List Item) :
    items.length ≤ (separated pieces items).length := by
  induction items with
  | nil => simp
  | cons first rest ih =>
      have here := positive first
      cases rest with
      | nil => exact here
      | cons second later =>
          simp only [separated, List.length_append, List.length_cons] at ih ⊢
          omega

theorem parse_pieces (rows : List Row) : parse ((arrayPieces rows).map Prod.snd) = some rows := by
  cases rows with
  | nil => simp [arrayPieces, separated, parse]
  | cons first later =>
      have positive : ∀ row, 0 < (rowPieces row).length := fun row => Nat.succ_pos _
      have size := length_le_separated positive (first :: later)
      have parsed := parseRows_pieces
        ((separated rowPieces (first :: later)).map Prod.snd ++ [Lexeme.closeBracket]).length first later
        (by simp only [List.length_append, List.length_map, List.length_cons] at size ⊢; omega)
      simp only [arrayPieces, List.map_cons, List.map_append, List.map_nil]
      rw [← parsed]
      cases later <;> simp [separated, rowPieces, parse]

theorem separated_blank {Item : Type} {pieces : Item → List Piece}
    (allBlank : ∀ item, ∀ piece ∈ pieces item, ∀ char ∈ piece.1, isBlank char = true)
    (items : List Item) :
    ∀ piece ∈ separated pieces items, ∀ char ∈ piece.1, isBlank char = true := by
  induction items with
  | nil => simp [separated]
  | cons first rest ih =>
      cases rest with
      | nil => exact allBlank first
      | cons second later =>
          intro piece member
          rcases List.mem_append.mp member with here | later
          · exact allBlank first piece here
          · rcases List.mem_cons.mp later with rfl | later
            · simp
            · exact ih piece later

theorem indent_blank (count : Nat) :
    ∀ char ∈ '\n' :: List.replicate count ' ', isBlank char = true := by
  intro char member
  rcases List.mem_cons.mp member with rfl | space
  · rfl
  · rw [List.eq_of_mem_replicate space]
    rfl

theorem memberPieces_blank (member : List Char × List Char) :
    ∀ piece ∈ memberPieces member, ∀ char ∈ piece.1, isBlank char = true := by
  simp only [memberPieces, List.forall_mem_cons]
  exact ⟨List.forall_mem_cons.mp (indent_blank 8), by simp, by simp [isBlank], by simp⟩

theorem rowPieces_blank (row : Row) :
    ∀ piece ∈ rowPieces row, ∀ char ∈ piece.1, isBlank char = true := by
  simp only [rowPieces, List.forall_mem_cons, List.forall_mem_append]
  exact ⟨List.forall_mem_cons.mp (indent_blank 4), separated_blank memberPieces_blank row,
    List.forall_mem_cons.mp (indent_blank 4), by simp⟩

theorem lex_pieces (pieces : List Piece)
    (allBlank : ∀ piece ∈ pieces, ∀ char ∈ piece.1, isBlank char = true) (rest : List Char) :
    lex .outside (pieces.flatMap (fun piece => piece.1 ++ spell piece.2) ++ rest) =
      (lex .outside rest).map (pieces.map Prod.snd ++ ·) := by
  induction pieces with
  | nil => simp
  | cons piece later ih =>
      rw [List.flatMap_cons, List.append_assoc, List.append_assoc,
        lex_blank (allBlank piece (by simp)), lex_spell,
        ih fun other member => allBlank other (by simp [member])]
      simp [Function.comp_def]

theorem lex_writeText (rows : List Row) :
    lex .outside (writeText rows) = some ((arrayPieces rows).map Prod.snd) := by
  have allBlank : ∀ piece ∈ arrayPieces rows, ∀ char ∈ piece.1, isBlank char = true := by
    simp only [arrayPieces, List.forall_mem_cons, List.forall_mem_append]
    exact ⟨by simp, separated_blank rowPieces_blank rows, by simp [isBlank], by simp⟩
  rw [writeText, lex_pieces _ allBlank]
  simp [lex, isBlank]

end Parser

section Bytes

def toUtf8 (text : List Char) : List UInt8 := text.flatMap String.utf8EncodeChar

def fromUtf8 (bytes : List UInt8) : Option (List Char) :=
  bytes.toByteArray.utf8Decode?.map Array.toList

def write (rows : List Row) : List UInt8 := toUtf8 (writeText rows)

def read (bytes : List UInt8) : Option (List Row) :=
  ((fromUtf8 bytes).bind (lex .outside)).bind parse

theorem fromUtf8_toUtf8 (text : List Char) : fromUtf8 (toUtf8 text) = some text := by
  have decoded := List.utf8Decode?_utf8Encode (l := text)
  rw [List.utf8Encode] at decoded
  rw [fromUtf8, toUtf8, decoded]
  simp

theorem read_write (rows : List Row) : read (write rows) = some rows := by
  rw [read, write, fromUtf8_toUtf8, Option.bind_some, lex_writeText, Option.bind_some,
    parse_pieces]

end Bytes

end JsonText
