import LayerQuant.Json.Reader
import LayerQuant.Yaml.Cursor

/-!
# Scalars of a YAML text

A scalar is written plainly or in quotes. Within a scalar one line feed counts as a space. Of
several line ends in a row the first is dropped if it is a line feed, and the others are kept, as
separators of lines and of paragraphs always are. Spaces around line ends are dropped.
-/

namespace LayerQuant.Yaml

/-- What stands between two words of a scalar. -/
inductive Gap where
  | none
  /-- Spaces, the last one first. -/
  | spaces (blanks : List Char)
  /-- A line end and those after it, the last one first. -/
  | breaks (leading : Char) (trailing : List Char)
  /-- The line ends after one that was escaped, the last one first. -/
  | joined (trailing : List Char)

namespace Gap

/-- The gap with a space after it. -/
def space (c : Char) : Gap → Gap
  | none => spaces [c]
  | spaces blanks => spaces (c :: blanks)
  | gap => gap

/-- The gap with a line end after it. -/
def lineEnd (c : Char) : Gap → Gap
  | none | spaces _ => breaks c []
  | breaks leading trailing => breaks leading (c :: trailing)
  | joined trailing => joined (c :: trailing)

/-- What the gap contributes to the scalar. -/
def text : Gap → List Char
  | none => []
  | spaces blanks => blanks.reverse
  | breaks '\n' [] => [' ']
  | breaks '\n' trailing => trailing.reverse
  | breaks leading trailing => leading :: trailing.reverse
  | joined trailing => trailing.reverse

/-- Whether the gap holds a line end. -/
def isBroken : Gap → Bool
  | none | spaces _ => false
  | breaks _ _ | joined _ => true

/-- Whether there is no gap. -/
def isNone : Gap → Bool
  | none => true
  | _ => false

end Gap

/-- A scalar as it was read: its text, what follows it, and the line it ends on. -/
structure Scanned where
  text : List Char
  after : Cursor
  lastLine : Nat

namespace Scanned

/-- Puts text in front of a scalar. -/
def cons (front : List Char) (scanned : Scanned) : Scanned :=
  { scanned with text := front ++ scanned.text }

end Scanned

/-- Whether a character ends a plain scalar within brackets. -/
def isFlowIndicator (c : Char) : Bool :=
  c == ',' || c == '[' || c == ']' || c == '\x7b' || c == '\x7d'

/-- Whether a plain scalar ends before this text. -/
def endsPlain (flow : Bool) (text : List Char) : Bool :=
  atIndicator ':' text || (flow && (text.head?.any isFlowIndicator))

/-- Whether a colon stands within brackets before a character that it may not touch there. -/
def isMisplacedColon (flow : Bool) : List Char → Bool
  | ':' :: c :: _ => flow && (isFlowIndicator c || c == '?')
  | _ => false

/-- Whether a plain scalar can begin with this text. -/
def canStartPlain (flow : Bool) : List Char → Bool
  | [] => false
  | c :: rest =>
    if c == '-' then !atGap rest
    else if c == '?' || c == ':' then !flow && !atGap rest
    else
      !(isSpace c || isBreak c || isFlowIndicator c || c == '#' || c == '&' || c == '*' ||
        c == '!' || c == '|' || c == '>' || c == '\x27' || c == '"' || c == '%' || c == '@' ||
        c == '\x60')

/-- Reads a plain scalar. Outside of brackets its further lines are indented by more than `indent`
columns; a tab in that indentation is refused everywhere. -/
def scanPlain (flow : Bool) (indent : Int) (gap : Gap) (lastLine : Nat) (place : Place) :
    List Char → Option Scanned
  | [] => some ⟨[], ⟨[], place⟩, lastLine⟩
  | c :: rest =>
    if isBreak c then scanPlain flow indent (gap.lineEnd c) lastLine place.below rest
    else if isSpace c then
      if c == '\t' && gap.isBroken && decide (place.column ≤ indent) then none
      else scanPlain flow indent (gap.space c) lastLine (place.right 1) rest
    else if !gap.isNone && c == '#' then some ⟨[], ⟨c :: rest, place⟩, lastLine⟩
    else if gap.isBroken && !flow && decide (place.column ≤ indent) then
      some ⟨[], ⟨c :: rest, place⟩, lastLine⟩
    else if isMisplacedColon flow (c :: rest) then none
    else if endsPlain flow (c :: rest) then some ⟨[], ⟨c :: rest, place⟩, lastLine⟩
    else
      (scanPlain flow indent .none place.line (place.right 1) rest).map
        (.cons (gap.text ++ [c]))

/-- Reads a scalar in single quotes after its opening quote. A quote in it is written twice. -/
def scanSingle (gap : Gap) (place : Place) : List Char → Option Scanned
  | [] => none
  | '\x27' :: '\x27' :: rest =>
    (scanSingle .none (place.right 2) rest).map (.cons (gap.text ++ ['\x27']))
  | '\x27' :: rest => some ⟨gap.text, ⟨rest, place.right 1⟩, place.line⟩
  | c :: rest =>
    if isBreak c then scanSingle (gap.lineEnd c) place.below rest
    else if isSpace c then scanSingle (gap.space c) (place.right 1) rest
    else (scanSingle .none (place.right 1) rest).map (.cons (gap.text ++ [c]))

/-- The character that a letter after a backslash stands for. -/
def unescape? (c : Char) : Option Char :=
  match c with
  | '0' => some '\x00'
  | 'a' => some '\x07'
  | 'b' => some '\x08'
  | 't' | '\t' => some '\t'
  | 'n' => some '\n'
  | 'v' => some '\x0b'
  | 'f' => some '\x0c'
  | 'r' => some '\r'
  | 'e' => some '\x1b'
  | ' ' | '"' | '/' | '\\' => some c
  | 'N' => some '\u0085'
  | '_' => some '\u00a0'
  | 'L' => some '\u2028'
  | 'P' => some '\u2029'
  | _ => none

/-- The number of hexadecimal digits after a letter after a backslash. -/
def hexLength? : Char → Option Nat
  | 'x' => some 2
  | 'u' => some 4
  | 'U' => some 8
  | _ => none

/-- The character with the given code point, if it is one. -/
def charOf? (code : Nat) : Option Char :=
  if code < 0xD800 ∨ (0xDFFF < code ∧ code < 0x110000) then some (Char.ofNat code) else none

/-- Reads a scalar in double quotes after its opening quote. `pending` is an escaped code point that
is being read: how many of its digits are left, and its value so far. -/
def scanDouble (gap : Gap) (pending : Option (Nat × Nat)) (place : Place) :
    List Char → Option Scanned
  | [] => none
  | c :: rest =>
    match pending with
    | some (left, code) => do
      let code := code * 16 + (← Json.hexValue? c)
      if left ≤ 1 then
        let c ← charOf? code
        (scanDouble .none none (place.right 1) rest).map (.cons [c])
      else scanDouble .none (some (left - 1, code)) (place.right 1) rest
    | none =>
      if c == '"' then some ⟨gap.text, ⟨rest, place.right 1⟩, place.line⟩
      else if isBreak c then scanDouble (gap.lineEnd c) none place.below rest
      else if isSpace c then scanDouble (gap.space c) none (place.right 1) rest
      else if c == '\\' then
        match rest with
        | [] => none
        | letter :: rest =>
          if isBreak letter then
            (scanDouble (.joined []) none place.below rest).map (.cons gap.text)
          else
            match hexLength? letter with
            | some count =>
              (scanDouble .none (some (count, 0)) (place.right 2) rest).map (.cons gap.text)
            | none => do
              let c ← unescape? letter
              (scanDouble .none none (place.right 2) rest).map (.cons (gap.text ++ [c]))
      else (scanDouble .none none (place.right 1) rest).map (.cons (gap.text ++ [c]))

end LayerQuant.Yaml
