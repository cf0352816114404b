/-!
# Files by name

Commands and sessions read and write files by relative names. A folder is the content of the
directory they work in; it holds plain files only. Reading and writing fail with the faults that a
file system reports, in its words.
-/

namespace LayerQuant

/-- Why a file was not read or written. -/
inductive FileFault where
  | notFound
  | notDirectory
  | isDirectory
  | nameTooLong
  | nulInName
  /-- The file was read as text but is not valid UTF-8. -/
  | notUtf8
  /-- Any other fault of the file system, in its words. -/
  | other (text : String)
deriving DecidableEq, Repr

/-- The wording of a file fault. -/
def FileFault.message : FileFault → String
  | notFound => "No such file or directory (os error 2)"
  | notDirectory => "Not a directory (os error 20)"
  | isDirectory => "Is a directory (os error 21)"
  | nameTooLong => "File name too long (os error 36)"
  | nulInName => "file name contained an unexpected NUL byte"
  | notUtf8 => "stream did not contain valid UTF-8"
  | other text => text

/-- What a file holds, or why it cannot be read. -/
abbrev FileContent := Except FileFault ByteArray

/-- The text of a file. -/
def FileContent.text (content : FileContent) : Except FileFault String :=
  content.bind fun bytes =>
    match String.fromUTF8? bytes with
    | some text => .ok text
    | none => .error .notUtf8

/-- A directory of plain files. -/
structure Folder where
  files : List (String × ByteArray) := []

namespace Folder

/-- The content of the file with the given plain name. -/
def find? (folder : Folder) (name : String) : Option ByteArray := folder.files.lookup name

/-- What a relative path leads to. -/
inductive Target where
  /-- A place for a file in this folder; `closed` when the path goes on after the name. -/
  | file (name : String) (closed : Bool)
  /-- This folder or one above it. -/
  | directory
deriving DecidableEq, Repr

/-- Follows the parts of a path. Nothing is known of the folders above this one but that they
exist. -/
def follow (folder : Folder) : List String → Except FileFault Target
  | [] => .ok .directory
  | part :: rest =>
    if part = "" ∨ part = "." then folder.follow rest
    else if part = ".." then
      if rest.all (["", ".", ".."].contains ·) then .ok .directory else .error .notFound
    else if 255 < part.utf8ByteSize then .error .nameTooLong
    else if rest.all (· == "") then .ok (.file part !rest.isEmpty)
    else if (folder.find? part).isSome then .error .notDirectory
    else .error .notFound

/-- Finds the place that a path names. -/
def target (folder : Folder) (path : String) : Except FileFault Target :=
  if path.contains '\x00' then .error .nulInName
  else if path.isEmpty then .error .notFound
  else if 4095 < path.utf8ByteSize then .error .nameTooLong
  else if path.startsWith "/" then
    if path.all (· == '/') then .ok .directory else .error .notFound
  else folder.follow (path.splitOn "/")

/-- Reads a file. -/
def read (folder : Folder) (path : String) : FileContent :=
  match folder.target path with
  | .error fault => .error fault
  | .ok .directory => .error .isDirectory
  | .ok (.file name closed) =>
    match folder.find? name with
    | none => .error .notFound
    | some bytes => if closed then .error .notDirectory else .ok bytes

/-- Writes a file in place of what it held. -/
def write (folder : Folder) (path : String) (bytes : ByteArray) : Except FileFault Folder :=
  match folder.target path with
  | .error fault => .error fault
  | .ok .directory => .error .isDirectory
  | .ok (.file name closed) =>
    if closed then .error .isDirectory
    else .ok ⟨(name, bytes) :: folder.files.filter (·.1 != name)⟩

end Folder

end LayerQuant
