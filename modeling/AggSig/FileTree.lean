/-
  Trees of directories and regular files, and what is done to them.

  A tree lists the entries below its root, each under the names that lead to it; the root itself is
  always a directory.  Paths start at the working location of the tree, or at the root if they start
  with a slash.  A path is walked one name after the other: what a name is looked up in has to be a
  directory, one dot stays there, and two dots lead back up.

  An operation that fails may have changed the tree before it did, so every operation that changes the
  tree gives it back.
-/
import AggSig.Failure

namespace AggSig

/-- A directory, or a regular file with its content; either has permission bits. -/
inductive Entry
  | directory (mode : Nat)
  | file (content : Bytes) (mode : Nat)
  deriving DecidableEq

/-- Whether the entry is a directory. -/
def Entry.isDirectory : Entry → Bool
  | directory _ => true
  | file .. => false

/-- The names that lead from the root to an entry. -/
abbrev Location := List String

/-- The entries below a root directory, and where relative paths start. -/
structure FileTree where
  entries : List (Location × Entry)
  working : Location

/-! ## Paths -/

namespace Path

/-- The names in a path, the last one last.  Empty names lead nowhere. -/
def names (path : String) : List String :=
  ((path.toList.splitOn '/').map String.ofList).filter (· ≠ "")

/-- Whether a path starts at the root. -/
def isAbsolute (path : String) : Bool := path.toList.head? = some '/'

/-- Whether a path ends in a slash, so that it can lead to a directory only. -/
def endsInSlash (path : String) : Bool := path.toList.getLast? = some '/'

/-- The path of names, from the root or from the working location. -/
def ofNames (absolute : Bool) (names : List String) : String :=
  if absolute then "/" ++ "/".intercalate names
  else if names.isEmpty then "."
  else "/".intercalate names

/-- The names in a path, without the dots that stay where they are. -/
def plainNames (path : String) : List String := (names path).filter (· ≠ ".")

/-- The greatest width of a path in bytes. -/
def longest : Nat := 4095

/-- The greatest width of a name in bytes. -/
def longestName : Nat := 255

/-- Refuses what no path can be: one with a zero character, an empty one, and one that is too long. -/
def check (path : String) : Except Misuse Unit :=
  if path.toList.any (·.toNat = 0) then .error .badValue
  else if path = "" then .error .missingFile
  else if longest < path.utf8ByteSize then .error .nameTooLong
  else .ok ()

end Path

namespace FileTree

/-! ## Looking entries up -/

/-- The permission bits of directories that are made, and of the root. -/
def directoryMode : Nat := 0o755

/-- The entry at a location. -/
def entryAt? (t : FileTree) (location : Location) : Option Entry :=
  if location = [] then some (.directory directoryMode)
  else (t.entries.find? fun (l, _) => l = location).map Prod.snd

/-- The tree with an entry put at a location, in place of what was there. -/
def put (t : FileTree) (location : Location) (entry : Entry) : FileTree :=
  { t with entries := (location, entry) :: t.entries.filter fun (l, _) => l ≠ location }

/-- Where a name leads to from a directory. -/
def enter (location : Location) (name : String) : Except Misuse Location :=
  if name = "." then .ok location
  else if name = ".." then .ok location.dropLast
  else if Path.longestName < name.utf8ByteSize then .error .nameTooLong
  else .ok (location ++ [name])

/-- The location that names lead to from a location.  The last name may lead to nothing. -/
def walk (t : FileTree) (location : Location) : List String → Except Misuse Location
  | [] => .ok location
  | name :: names =>
    match t.entryAt? location with
    | none => .error .missingFile
    | some (.file ..) => .error .notDirectory
    | some (.directory _) => do t.walk (← enter location name) names

/-- Where a path starts. -/
def start (t : FileTree) (path : String) : Location :=
  if Path.isAbsolute path then [] else t.working

/-- The location that a path leads to.  There may be nothing. -/
def locate (t : FileTree) (path : String) : Except Misuse Location := do
  Path.check path
  t.walk (t.start path) (Path.names path)

/-- The entry that a path leads to. -/
def entry (t : FileTree) (path : String) : Except Misuse Entry := do
  match t.entryAt? (← t.locate path) with
  | none => throw .missingFile
  | some e => if Path.endsInSlash path ∧ e.isDirectory = false then throw .notDirectory else return e

/-- The content of the file that a path leads to. -/
def read (t : FileTree) (path : String) : Except Misuse Bytes := do
  match ← t.entry path with
  | .directory _ => throw .isDirectory
  | .file content _ => return content

/-- The permission bits of what a path leads to. -/
def modeOf (t : FileTree) (path : String) : Except Misuse Nat := do
  match ← t.entry path with
  | .directory mode | .file _ mode => return mode

/-- Whether a path leads to a directory. -/
def isDirectory (t : FileTree) (path : String) : Bool :=
  match t.entry path with
  | .ok e => e.isDirectory
  | .error _ => false

/-! ## Directories -/

/-- The tree with a new directory. -/
def makeDirectory (t : FileTree) (path : String) : Except Misuse FileTree := do
  let location ← t.locate path
  match t.entryAt? location with
  | some _ => throw .alreadyExists
  | none => return t.put location (.directory directoryMode)

/-- A failure to make a directory, unless it is there already. -/
def unlessDirectory (t : FileTree) (path : String) (misuse : Misuse) :
    Except Misuse Unit × FileTree :=
  if t.isDirectory path then (.ok (), t) else (.error misuse, t)

/-- Makes a directory and those above it, as far as they are missing.  The names come last one
    first. -/
def makeDirectories (t : FileTree) (absolute : Bool) :
    (reversed : List String) → Except Misuse Unit × FileTree
  | [] => (.ok (), t)
  | name :: above =>
    let path := Path.ofNames absolute (name :: above).reverse
    match t.makeDirectory path with
    | .ok t => (.ok (), t)
    | .error .missingFile =>
      match t.makeDirectories absolute above with
      | (.error misuse, t) => (.error misuse, t)
      | (.ok (), t) =>
        match t.makeDirectory path with
        | .ok t => (.ok (), t)
        | .error misuse => t.unlessDirectory path misuse
    | .error misuse => t.unlessDirectory path misuse

/-! ## Writing files -/

/-- The bits of a mode that are permission bits. -/
def permissions (mode : Nat) : Nat := mode % 0o10000

/-- The location of the file that is to be written under a path.  Where the path ends in a slash the
    name before it is not even looked up. -/
def place (t : FileTree) (path : String) : Except Misuse Location := do
  if Path.endsInSlash path then
    Path.check path
    let _ ← t.walk (t.start path) ((Path.names path).dropLast ++ ["."])
    throw .isDirectory
  else t.locate path

/-- Writes a file in an existing directory, in place of the content and the mode it had. -/
def write (t : FileTree) (path : String) (content : Bytes) (mode : Nat) : Except Misuse FileTree := do
  let location ← t.place path
  match t.entryAt? location with
  | some (.directory _) => throw .isDirectory
  | none | some (.file ..) => return t.put location (.file content (permissions mode))

/-- Writes a file and makes the directories above it, as far as they are missing.  Neither the dots nor
    a slash at the end of the path count. -/
def writeBelow (t : FileTree) (path : String) (content : Bytes) (mode : Nat) :
    Except Misuse Unit × FileTree :=
  let absolute := Path.isAbsolute path
  let names := Path.plainNames path
  match t.makeDirectories absolute names.reverse.tail with
  | (.error misuse, t) => (.error misuse, t)
  | (.ok (), t) =>
    match t.write (Path.ofNames absolute names) content mode with
    | .ok t => (.ok (), t)
    | .error misuse => (.error misuse, t)

end FileTree

end AggSig
