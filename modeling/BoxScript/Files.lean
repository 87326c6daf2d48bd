/-!
# Files

The files that a script can see: those below the directory it runs in, as they are at the start.
A path is walked from left to right, so every part of it but the last has to be a directory.
Above the starting directory there are directories and nothing else.
-/

namespace BoxScript

/-- Why a file cannot be read. -/
inductive FileFault where
  | notFound | notDirectory | isDirectory | nameTooLong | notText | badName
  deriving DecidableEq, Repr

namespace FileFault

/-- The fault in the words of the operating system. -/
def text : FileFault → String
  | notFound => "No such file or directory (os error 2)"
  | notDirectory => "Not a directory (os error 20)"
  | isDirectory => "Is a directory (os error 21)"
  | nameTooLong => "File name too long (os error 36)"
  | notText => "stream did not contain valid UTF-8"
  | badName => "file name contained an unexpected NUL byte"

end FileFault

/-- The files, each under the names of the directories down to it and its own name. -/
structure Files where
  entries : List (List String × List UInt8)
  deriving Inhabited

namespace Files

/-- No files. -/
def empty : Files := ⟨[]⟩

/-- The names in a path. Slashes in a row count as one. -/
def names (path : String) : List String :=
  (path.splitOn "/").filter (· ≠ "")

/-- The files with one more, under a path from the starting directory. -/
def add (files : Files) (path : String) (content : List UInt8) : Files :=
  ⟨files.entries ++ [((names path).filter (· ≠ "."), content)]⟩

/-- Where a walk along a path has come to: a directory below the starting one, or one outside. -/
inductive Place where
  | below (path : List String)
  | outside
  deriving DecidableEq, Repr

/-- The file under `path`. -/
def file? (files : Files) (path : List String) : Option (List UInt8) :=
  (files.entries.find? (·.1 = path)).map (·.2)

/-- Whether `path` is a directory: some file is below it, or it is the starting directory. -/
def isDirectory (files : Files) (path : List String) : Bool :=
  path.isEmpty || files.entries.any fun e => path.isPrefixOf e.1 && path.length < e.1.length

/-- Whether a name is longer, in bytes, than a name in a directory can be. -/
def isLongName (name : String) : Bool := 255 < name.utf8ByteSize

/-- Whether a path is longer, in bytes, than a path can be. -/
def isLongPath (path : String) : Bool := 4095 < path.utf8ByteSize

/-- Walk along directories. -/
def walk (files : Files) : Place → List String → Except FileFault Place
  | place, [] => .ok place
  | place, "." :: rest => files.walk place rest
  | .outside, ".." :: rest => files.walk .outside rest
  | .below [], ".." :: rest => files.walk .outside rest
  | .below path, ".." :: rest => files.walk (.below path.dropLast) rest
  | .outside, name :: _ => .error (if isLongName name then .nameTooLong else .notFound)
  | .below path, name :: rest =>
    let path := path ++ [name]
    if isLongName name then .error .nameTooLong
    else if files.isDirectory path then files.walk (.below path) rest
    else if (files.file? path).isSome then .error .notDirectory
    else .error .notFound

/-- The content of the file that a path leads to. -/
def readBytes (files : Files) (path : String) : Except FileFault (List UInt8) := do
  if path.toList.contains '\x00' then throw .badName
  if path.isEmpty then throw .notFound
  if isLongPath path then throw .nameTooLong
  let start := if path.toList.head? = some '/' then Place.outside else .below []
  let parts := names path
  let place ← files.walk start parts.dropLast
  match place, parts.getLast? with
  | _, none | _, some "." | _, some ".." => throw .isDirectory
  | .outside, some name => throw (if isLongName name then .nameTooLong else .notFound)
  | .below above, some name =>
    let path' := above ++ [name]
    if isLongName name then throw .nameTooLong
    else if files.isDirectory path' then throw .isDirectory
    else match files.file? path' with
      | none => throw .notFound
      | some content =>
        if path.toList.getLast? = some '/' then throw .notDirectory else return content

/-- The text of the file that a path leads to. -/
def readText (files : Files) (path : String) : Except FileFault String := do
  let content ← files.readBytes path
  match String.fromUTF8? ⟨content.toArray⟩ with
  | some text => return text
  | none => throw .notText

/-- Whether a path leads to a file. -/
def isFile (files : Files) (path : String) : Bool :=
  match files.readBytes path with
  | .ok _ => true
  | .error _ => false

end Files

end BoxScript
