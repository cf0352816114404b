/-!
# Lines of a text file

A line ends at a line feed or at the end of the file, and a carriage return directly before a line
feed belongs to the line end. Each line is decoded on its own, so a line that is not valid UTF-8
spoils no other line.
-/

namespace LayerQuant.Text

/-- Cuts bytes into lines. A file that ends with a line feed has no line after it. -/
def byteLines : List UInt8 → List (List UInt8)
  | [] => []
  | 13 :: 10 :: rest => [] :: byteLines rest
  | 10 :: rest => [] :: byteLines rest
  | byte :: rest =>
    match byteLines rest with
    | [] => [[byte]]
    | line :: later => (byte :: line) :: later

/-- The lines of a file, `none` standing for a line that is not valid UTF-8. -/
def lines (bytes : ByteArray) : List (Option String) :=
  (byteLines bytes.data.toList).map fun line => String.fromUTF8? (ByteArray.mk line.toArray)

end LayerQuant.Text
