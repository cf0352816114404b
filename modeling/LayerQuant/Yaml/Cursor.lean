/-!
# Places in a YAML text

A cursor is what is left of a text and where that begins. Lines and columns count from zero. A line
ends with a line feed, a line separator or a paragraph separator; other line ends are turned into
line feeds first. A byte order mark may begin a line, where it takes up the first column.
-/

namespace LayerQuant.Yaml

/-- A line and a column. -/
structure Place where
  line : Nat := 0
  column : Nat := 0
deriving DecidableEq, Repr

namespace Place

/-- The place some columns on. -/
def right (place : Place) (count : Nat) : Place := { place with column := place.column + count }

/-- The start of the next line. -/
def below (place : Place) : Place := ⟨place.line + 1, 0⟩

end Place

/-- What is left of a text, and its place. -/
structure Cursor where
  rest : List Char
  place : Place := {}
deriving DecidableEq, Repr

/-- Whether a character divides words within a line. -/
def isSpace (c : Char) : Bool := c == ' ' || c == '\t'

/-- Whether a character ends a line, once line ends are normal. -/
def isBreak (c : Char) : Bool := c == '\n' || c == '\u2028' || c == '\u2029'

/-- Whether a text begins with a space, a line end, or nothing. -/
def atGap : List Char → Bool
  | [] => true
  | c :: _ => isSpace c || isBreak c

/-- Whether an indicator stands alone at the start of a text. -/
def atIndicator (indicator : Char) : List Char → Bool
  | c :: rest => c == indicator && atGap rest
  | [] => false

/-- Turns every kind of line end into a line feed. The separators of lines and of paragraphs are
kept, since a scalar shows them. -/
def normalizeLines : List Char → List Char
  | '\r' :: '\n' :: rest => '\n' :: normalizeLines rest
  | '\r' :: rest => '\n' :: normalizeLines rest
  | '\u0085' :: rest => '\n' :: normalizeLines rest
  | c :: rest => c :: normalizeLines rest
  | [] => []

/-- Whether a character may stand in a document. -/
def isAllowed (c : Char) : Bool :=
  let n := c.toNat
  n == 0x09 || n == 0x0A || n == 0x0D || (0x20 ≤ n && n ≤ 0x7E) || n == 0x85 ||
    (0xA0 ≤ n && n ≤ 0xFFFD) || 0x10000 ≤ n

/-- Skips spaces, line ends, comments, and byte order marks that begin a line. Tabs are skipped
where `tabs` says so, which outside of brackets ends with the line; `comment` says that a comment
has begun. -/
def skipFrom (flow : Bool) : Bool → Bool → List Char → Place → Cursor
  | _, _, [], place => ⟨[], place⟩
  | tabs, comment, c :: rest, place =>
    if isBreak c then skipFrom flow flow false rest place.below
    else if comment || c == ' ' || (c == '\t' && tabs) || (c == '\uFEFF' && place.column == 0) then
      skipFrom flow tabs comment rest (place.right 1)
    else if c == '#' then skipFrom flow tabs true rest (place.right 1)
    else ⟨c :: rest, place⟩

namespace Cursor

/-- Whether nothing is left. -/
def atEnd (cursor : Cursor) : Bool := cursor.rest.isEmpty

/-- The cursor after some characters of its line. -/
def drop (cursor : Cursor) (count : Nat) : Cursor :=
  ⟨cursor.rest.drop count, cursor.place.right count⟩

/-- Skips to the next token within brackets. -/
def skipFlow (cursor : Cursor) : Cursor := skipFrom true true false cursor.rest cursor.place

/-- Skips to the next token outside of brackets. -/
def skipBlock (cursor : Cursor) (tabs : Bool) : Cursor :=
  skipFrom false tabs false cursor.rest cursor.place

end Cursor

end LayerQuant.Yaml
