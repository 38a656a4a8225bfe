import Turtle.Text.Quoted

/-! Files in directories, and paths that lead to them from a working directory. A path is
followed one component at a time; every component before the last has to be a
directory. Reading changes nothing. Writing makes the directories above a file first. -/

namespace Turtle

inductive FileTree where
  | file (content : List UInt8)
  | directory (entries : List (String × FileTree))

/-- Why a path cannot be opened. -/
inductive FileError where
  | notFound
  | notDirectory
  | isDirectory
  | nameTooLong
  /-- A path holds a null character, which no name does. -/
  | nullCharacter
  /-- A failure outside of what a tree knows. -/
  | other (code : Nat) (description : String)
  deriving DecidableEq, Repr

namespace FileError

/-- The number under which an operating system knows a failure, and its description. -/
def describe : FileError → Nat × String
  | notFound => (2, "No such file or directory")
  | notDirectory => (20, "Not a directory")
  | isDirectory => (21, "Is a directory")
  | nameTooLong => (36, "File name too long")
  | nullCharacter => (22, "Invalid argument")
  | other code description => (code, description)

def message (e : FileError) (path : String) : String :=
  s!"[Errno {e.describe.1}] {e.describe.2}: " ++ Text.quoted path

end FileError

namespace Path

/-- The components of a path; a slash at an end leaves an empty one there. -/
def components (path : String) : List String :=
  (path.toList.splitOn '/').map String.ofList

/-- What follows the last slash. -/
def baseName (path : String) : String := (components path).getLast?.getD ""

/-- The components of a path without those that lead nowhere or back. -/
def normalize (names : List String) : List String :=
  (names.foldl (fun above name =>
    if name = "" ∨ name = "." then above
    else if name = ".." then above.drop 1
    else name :: above) []).reverse

/-- The most octets of one name. -/
def longestName : Nat := 255

/-- The most octets of a path. -/
def longestPath : Nat := 4095

def isTooLong (name : String) : Bool := longestName < name.utf8ByteSize

/-- What keeps a path from being followed at all. -/
def fault? (path : String) : Option FileError :=
  if path.toList.contains '\x00' then some .nullCharacter
  else if longestPath < path.utf8ByteSize then some .nameTooLong
  else if path.isEmpty then some .notFound
  else if path.toList.head? = some '/' then
    some (if (normalize (components path)).isEmpty then .isDirectory else .notFound)
  else none

end Path

namespace FileTree

/-- The entry of a name in a directory. -/
def entry? (name : String) : FileTree → Option FileTree
  | .file _ => none
  | .directory entries => entries.lookup name

/-- What stands at the end of a list of names. -/
def find? : List String → FileTree → Option FileTree
  | [], tree => some tree
  | name :: rest, tree => (tree.entry? name).bind (find? rest)

/-- Follows components through directories; `here` holds the names so far, the last first.
The way out of the tree is unknown. -/
def enter (root : FileTree) (here : List String) :
    List String → Except FileError (List String)
  | [] =>
    match root.find? here.reverse with
    | some (.directory _) => .ok here.reverse
    | some (.file _) => .error .notDirectory
    | none => .error .notFound
  | name :: rest =>
    match root.find? here.reverse with
    | some (.directory entries) =>
      if name = "" ∨ name = "." then enter root here rest
      else if name = ".." then
        match here with
        | [] => .error .notFound
        | _ :: above => enter root above rest
      else if Path.isTooLong name then .error .nameTooLong
      else if (entries.lookup name).isNone then .error .notFound
      else enter root (name :: here) rest
    | some (.file _) => .error .notDirectory
    | none => .error .notFound

/-- The directory and the name that components lead to. -/
def locate (root : FileTree) (names : List String) : Except FileError (List String × String) := do
  let above ← enter root [] names.dropLast
  let name := names.getLast?.getD ""
  if name = "" ∨ name = "." ∨ name = ".." then .error .isDirectory
  else if Path.isTooLong name then .error .nameTooLong
  else return (above, name)

/-- The content of the file at a path. -/
def read (root : FileTree) (path : String) : Except FileError (List UInt8) := do
  if let some e := Path.fault? path then throw e
  let (above, name) ← locate root (Path.components path)
  match root.find? (above ++ [name]) with
  | none => throw .notFound
  | some (.directory _) => throw .isDirectory
  | some (.file content) => return content

/-- Sets the entry of a name, in its place or after the others. -/
def setEntry (name : String) (tree : FileTree) :
    List (String × FileTree) → List (String × FileTree)
  | [] => [(name, tree)]
  | (other, old) :: rest =>
    if other = name then (name, tree) :: rest else (other, old) :: setEntry name tree rest

/-- The tree with the directories that a list of names leads through. -/
def makeDirectories : List String → FileTree → Except FileError FileTree
  | [], .directory entries => .ok (.directory entries)
  | _, .file _ => .error .notDirectory
  | name :: rest, .directory entries =>
    if Path.isTooLong name then .error .nameTooLong
    else do
      let made ← makeDirectories rest ((entries.lookup name).getD (.directory []))
      return .directory (setEntry name made entries)

/-- The tree with a file of a name in the directory at the end of a list of names. -/
def put (name : String) (content : List UInt8) : List String → FileTree → FileTree
  | _, .file old => .file old
  | [], .directory entries => .directory (setEntry name (.file content) entries)
  | above :: rest, .directory entries =>
    match entries.lookup above with
    | none => .directory entries
    | some tree => .directory (setEntry above (put name content rest tree) entries)

/-- The tree with the file at a path written, its directories made before. A path that
ends in a slash names a directory, whether there is one or not. -/
def writeOpened (root : FileTree) (path : String) (content : List UInt8) :
    Except FileError FileTree := do
  if let some e := Path.fault? path then throw e
  let names := Path.components path
  let core := (names.reverse.dropWhile (· == "")).reverse
  if core.length < names.length then
    let _ ← enter root [] core.dropLast
    throw .isDirectory
  let (above, name) ← locate root names
  match root.find? (above ++ [name]) with
  | some (.directory _) => throw .isDirectory
  | _ => return put name content above root

/-- Writes a file; what remains of a failed attempt are directories at most. -/
def write (root : FileTree) (path : String) (content : List UInt8) :
    Except FileError Unit × FileTree :=
  match makeDirectories (Path.normalize (Path.components path)).dropLast root with
  | .error e => (.error ((Path.fault? path).getD e), root)
  | .ok made =>
    match writeOpened made path content with
    | .error e => (.error e, made)
    | .ok written => (.ok (), written)

/-- Adds a file, or a directory if there is no content, with the directories above it. -/
def add (root : FileTree) (path : String) (content : Option (List UInt8)) : FileTree :=
  match content with
  | some content => (write root path content).2
  | none =>
    match makeDirectories (Path.normalize (Path.components path)) root with
    | .ok made => made
    | .error _ => root

mutual

/-- The files below a path with their contents. -/
def filesBelow (path : String) : FileTree → List (String × List UInt8)
  | .file content => [(path, content)]
  | .directory entries => filesOf (if path.isEmpty then "" else path ++ "/") entries

def filesOf (above : String) : List (String × FileTree) → List (String × List UInt8)
  | [] => []
  | (name, tree) :: rest => filesBelow (above ++ name) tree ++ filesOf above rest

end

/-- Every file of a tree with its path and content. -/
def files (tree : FileTree) : List (String × List UInt8) := filesBelow "" tree

/-- The files that one tree has and another has not, or has with other content. -/
def changes (before after : FileTree) : List (String × List UInt8) :=
  after.files.filter fun (path, content) => before.files.lookup path != some content

end FileTree

end Turtle
