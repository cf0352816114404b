import LayerQuant.Text.Printable

/-!
# Quoted text in messages

Messages quote foreign text between double quotes. The quote and the backslash are escaped, NUL, tab
and the line ends have letters, and a character without a shape of its own is written by its number
in hexadecimal between braces.
-/

namespace LayerQuant.Text

/-- The characters that stand for one character in quoted text. -/
def quoteChar (c : Char) : List Char :=
  match c with
  | '\x00' => ['\\', '0']
  | '\t' => ['\\', 't']
  | '\r' => ['\\', 'r']
  | '\n' => ['\\', 'n']
  | '"' => ['\\', '"']
  | '\\' => ['\\', '\\']
  | c =>
    if isPrintable c then [c]
    else ['\\', 'u', '\x7b'] ++ Nat.toDigits 16 c.toNat ++ ['\x7d']

/-- The text between double quotes with its special characters escaped. -/
def quote (text : String) : String :=
  String.ofList ('"' :: text.toList.flatMap quoteChar ++ ['"'])

end LayerQuant.Text
