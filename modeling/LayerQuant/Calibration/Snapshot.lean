import LayerQuant.Calibration.Store
import LayerQuant.Decimal.Fixed
import LayerQuant.Text.Field
import LayerQuant.Text.Lines
import LayerQuant.Text.Quoted
import LayerQuant.File

/-!
# Snapshots

A snapshot is the text form of a store: a header with the number of layers, then one line per layer
and role in the order of `Store.rows`. A line holds the layer, the letter of the role with a colon,
the sample count, the four numbers with five decimal places, and the name, divided by single blanks.

Reading takes exactly the lines that the header announces and ignores any line after them. The first
line that does not fit its place rejects the whole snapshot.
-/

namespace LayerQuant

/-- Why a snapshot was not read or written. -/
inductive SnapshotError where
  | file (fault : FileFault)
  | missingHeader
  | invalidHeader (text : String)
  | truncated (expected found : Nat)
  | layerIndexMismatch (line expected : Nat) (found : String)
  | invalidRole (line : Nat) (expected : Role) (found : String)
  | invalidField (line : Nat) (field value : String)
deriving DecidableEq, Repr

/-- The wording of a snapshot error. -/
def SnapshotError.message : SnapshotError → String
  | file fault => "IO error: " ++ fault.message
  | missingHeader => "Snapshot is empty"
  | invalidHeader text => "Invalid snapshot header: " ++ Text.quote text
  | truncated expected found =>
    s!"Snapshot truncated: expected {expected} data lines, found {found}"
  | layerIndexMismatch line expected found =>
    s!"Line {line}: expected layer index {expected}, found " ++ Text.quote found
  | invalidRole line expected found =>
    s!"Line {line}: expected role tag '" ++ expected.tag.toString ++ ":', found " ++
      Text.quote found
  | invalidField line field value =>
    s!"Line {line}: malformed {field} field " ++ Text.quote value

namespace Snapshot

/-- The word that opens a snapshot. -/
def magic : String := "OV_GNA_PLUGIN_STATS"

/-- Decimal places of the numbers in a snapshot. -/
def places : Nat := 5

/-- The line of one record. -/
def line (layer : Nat) (role : Role) (record : Record) : String :=
  toString layer ++ " " ++ role.tag.toString ++ ": " ++ toString record.count.toNat ++ " " ++
    record.minimum.toFixed places ++ " " ++ record.maximum.toFixed places ++ " " ++
    record.sum.toFixed places ++ " " ++ record.sumSquares.toFixed places ++ " " ++ record.name

/-- The text of a store, each line ended by a line feed. -/
def write (store : Store) : String :=
  magic ++ " " ++ toString store.size ++ "\n" ++
    String.join (store.rows.map fun (layer, role, record) => line layer role record ++ "\n")

/-- The number of layers that a header announces. Four times the number must fit 64 bits. -/
def layerCount (header : String) : Except SnapshotError Nat :=
  let opening := (magic ++ " ").toList
  let text := header.toList
  if opening.isPrefixOf text then
    match Text.natural? (Text.trimBy Text.isBlank (text.drop opening.length)) with
    | some count =>
      if 0 < count ∧ Role.all.length * count < Nat.pow 2 64 then .ok count
      else .error (.invalidHeader header)
    | none => .error (.invalidHeader header)
  else .error (.invalidHeader header)

/-- Reads one field of a line. -/
def readField {α : Type} (line : Nat) (field : String) (read : List Char → Option α)
    (value : List Char) : Except SnapshotError α :=
  match read value with
  | some result => .ok result
  | none => .error (.invalidField line field (String.ofList value))

/-- Reads the record at its place in the snapshot. Missing fields read as empty ones. -/
def readRecord (line layer : Nat) (role : Role) (text : String) : Except SnapshotError Record := do
  let body := (text.toList.reverse.dropWhile fun c => c == '\r' || c == '\n').reverse
  let fields := Text.fields 8 body
  let field (i : Nat) : List Char := fields.getD i []
  if Text.natural? (field 0) ≠ some layer then
    throw (.layerIndexMismatch line layer (String.ofList (field 0)))
  if field 1 ≠ [role.tag, ':'] then
    throw (.invalidRole line role (String.ofList (field 1)))
  let count ← readField line "sample_count" Text.natural? (field 2)
  let minimum ← readField line "min" (Binary.ofChars? .single) (field 3)
  let maximum ← readField line "max" (Binary.ofChars? .single) (field 4)
  let sum ← readField line "sum" (Binary.ofChars? .double) (field 5)
  let sumSquares ← readField line "sum_sq" (Binary.ofChars? .double) (field 6)
  let name := trimName (String.ofList (field 7))
  pure { minimum, maximum, sum, sumSquares, count := UInt64.ofNat count, name }

/-- A line as text. -/
def decoded : Option String → Except SnapshotError String
  | some text => .ok text
  | none => .error (.file .notUtf8)

/-- Reads the records from `position` up to `expected`. The header is line 1. -/
def readRecords (expected : Nat) :
    Nat → List (Option String) → Except SnapshotError (List Record)
  | position, lines =>
    if expected ≤ position then .ok []
    else
      match lines with
      | [] => .error (.truncated expected position)
      | line :: rest => do
        let text ← decoded line
        let role := Role.all.getD (position % Role.all.length) .input
        let record ← readRecord (position + 2) (position / Role.all.length) role text
        let later ← readRecords expected (position + 1) rest
        pure (record :: later)

/-- Groups records in the order of a snapshot by layer. -/
def group : List Record → List LayerStatistics
  | input :: output :: weight :: bias :: rest => ⟨input, output, weight, bias⟩ :: group rest
  | _ => []

/-- Reads a store from the lines of a snapshot. -/
def ofLines : List (Option String) → Except SnapshotError Store
  | [] => .error .missingHeader
  | header :: rest => do
    let count ← layerCount (← decoded header)
    let records ← readRecords (Role.all.length * count) 0 rest
    pure ⟨(group records).toArray⟩

/-- Reads a store from the bytes of a snapshot. -/
def read (bytes : ByteArray) : Except SnapshotError Store := ofLines (Text.lines bytes)

/-- Reads a store from a file. -/
def load (content : FileContent) : Except SnapshotError Store :=
  match content with
  | .ok bytes => read bytes
  | .error fault => .error (.file fault)

/-- Writes a store to a file. -/
def save (store : Store) (folder : Folder) (path : String) : Except SnapshotError Folder :=
  match folder.write path (write store).toUTF8 with
  | .ok folder => .ok folder
  | .error fault => .error (.file fault)

end Snapshot

end LayerQuant
