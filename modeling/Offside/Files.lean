/-!
# Files

Templates and settings are read through a reader, so that a command can run on the files of a
machine or on files held in memory. `Files` is the second: a set of files under relative paths, and
the directories that those paths imply.
-/

set_option autoImplicit false

namespace Offside

/-- Why a file cannot be read. -/
inductive ReadFault where
  | missing
  | isDirectory
  | notADirectory
  | nameTooLong
  /-- The path has a NUL character in it. -/
  | badName
  | notText
  /-- Another reason, in the words of the system. -/
  | other (reason : String)
deriving DecidableEq, Repr

/-- The reason in words. -/
def ReadFault.reason : ReadFault → String
  | .missing => "No such file or directory (os error 2)"
  | .isDirectory => "Is a directory (os error 21)"
  | .notADirectory => "Not a directory (os error 20)"
  | .nameTooLong => "File name too long (os error 36)"
  | .badName => "file name contained an unexpected NUL byte"
  | .notText => "stream did not contain valid UTF-8"
  | .other reason => reason

/-- Reads the text of the file at a path. -/
abbrev Reader (m : Type → Type) := String → m (Except ReadFault String)

/-! ## Paths -/

namespace Path

/-- The names that a path goes through; a single dot counts only in first place. -/
def names (path : String) : List String :=
  match path.splitOn "/" with
  | [] => []
  | first :: rest =>
    (if first.isEmpty then [] else [first]) ++ rest.filter fun n => !n.isEmpty && n != "."

/-- The directory that a path lies in; the empty path and the root lie in none. -/
def parent? (path : String) : Option String :=
  match (names path).reverse with
  | [] => none
  | _ :: dirs =>
    some ((if path.startsWith "/" then "/" else "") ++ "/".intercalate dirs.reverse)

/-- The path of a file in a directory. -/
def join (dir file : String) : String :=
  if dir.isEmpty || dir.endsWith "/" then dir ++ file else dir ++ "/" ++ file

/-- The path of the file whose name has `extension` behind it. A slash or a dot at the end of a path
does not count; a path that goes up at its end, or nowhere at all, names no file. -/
def extend? (path extension : String) : Option String :=
  match (path.splitOn "/").reverse.dropWhile fun n => n.isEmpty || n == "." with
  | [] => none
  | last :: dirs =>
    if last == ".." then none else some ("/".intercalate (dirs.reverse ++ [last ++ extension]))

end Path

/-! ## Files in memory -/

/-- Files with their contents, each under the names its path goes through. -/
structure Files where
  entries : List (List String × ByteArray)

namespace Files

/-- Add a file; one of the same path is replaced. -/
def write (fs : Files) (path : String) (content : ByteArray) : Files :=
  let names := (Path.names path).filter (· != ".")
  ⟨fs.entries.filter (fun e => e.1 != names) ++ [(names, content)]⟩

/-- The content of a file. -/
def content? (fs : Files) (names : List String) : Option ByteArray :=
  (fs.entries.find? (·.1 == names)).map (·.2)

/-- There is a directory under these names. -/
def isDirectory (fs : Files) (names : List String) : Bool :=
  names.isEmpty || fs.entries.any fun e => names.isPrefixOf e.1 && names.length < e.1.length

/-- The longest name that a file can have, and the longest path, in bytes. -/
def maxName : Nat := 255

@[inherit_doc maxName]
def maxPath : Nat := 4095

/-- Follow the names of a path from `here`, which only a directory can be left from. Above the files
there are directories again, but nothing is known in them. -/
def follow (fs : Files) : (here : Option (List String)) → List String →
    Except ReadFault (Option (List String))
  | here, [] => .ok here
  | none, name :: rest =>
    if name.isEmpty || name == "." || name == ".." then follow fs none rest else .error .missing
  | some here, name :: rest =>
    if !fs.isDirectory here then
      .error (if (fs.content? here).isSome then .notADirectory else .missing)
    else if name.isEmpty || name == "." then follow fs (some here) rest
    else if name == ".." then
      follow fs (if here.isEmpty then none else some here.dropLast) rest
    else if maxName < name.utf8ByteSize then .error .nameTooLong
    else follow fs (some (here ++ [name])) rest

/-- Read a file. -/
def read (fs : Files) (path : String) : Except ReadFault String :=
  if path.contains '\x00' then .error .badName
  else if path.isEmpty then .error .missing
  else if maxPath < path.utf8ByteSize then .error .nameTooLong
  else if path.startsWith "/" then .error .missing
  else
    match fs.follow (some []) (path.splitOn "/") with
    | .error fault => .error fault
    | .ok none => .error .isDirectory
    | .ok (some names) =>
      match fs.content? names with
      | some bytes =>
        match String.fromUTF8? bytes with
        | some text => .ok text
        | none => .error .notText
      | none => .error (if fs.isDirectory names then .isDirectory else .missing)

end Files

end Offside
