import HomeAutomaton.Text.Utf8

/-!
# File trees

The files and directories that a program works on, as a value. A place in the tree is the list of
names on the way to it from the top; a path is a text that leads to a place, from the top if it starts
with a slash and otherwise from the directory in which the program runs. On the way everything but
the last name has to be a directory.

* `FileTree.locate` follows a path.
* `FileTree.find?` tells what is there, `FileTree.write` and `FileTree.makeDirectories` change it.
-/

namespace HomeAutomaton

/-- What can be at a place. -/
inductive Entry where
  | directory
  | file (content : List UInt8)
  deriving DecidableEq, Repr

/-- Why something cannot be done with a path. -/
inductive FileFault where
  /-- There is nothing. -/
  | notFound
  /-- There is something already. -/
  | alreadyThere
  /-- There is a directory in the place of a file. -/
  | isDirectory
  /-- There is a file on the way. -/
  | notDirectory
  /-- A name is longer than names may be. -/
  | nameTooLong
  /-- The path holds a null character. -/
  | nullCharacter
  deriving DecidableEq, Repr

/-- The fault in words. -/
def FileFault.text : FileFault → String
  | notFound => "no such file or directory"
  | alreadyThere => "there is a file in the place of the directory"
  | isDirectory => "there is a directory in the place of the file"
  | notDirectory => "a file stands in the place of a directory"
  | nameTooLong => "the name is too long"
  | nullCharacter => "the path holds a null character"

/-- The names on the way to a place. -/
abbrev Location := List String

/-- Files and directories. The top is a directory and is not listed. -/
structure FileTree where
  entries : List (Location × Entry) := []
  /-- The directory in which the program runs. -/
  here : Location := []
  deriving Repr

/-! ### Paths -/

/-- The parts of a path between its slashes, of which `name` is the start of the first. -/
def pathPartsFrom (name : List Char) : List Char → List String
  | [] => [String.ofList name]
  | c :: rest =>
    if c = '/' then String.ofList name :: pathPartsFrom [] rest
    else pathPartsFrom (name ++ [c]) rest

/-- The parts of a path between its slashes. Where slashes meet, a part is empty. -/
def pathParts (path : String) : List String := pathPartsFrom [] path.toList

/-- Does the path lead from the top? -/
def startsAtTop (path : String) : Bool := path.toList.head? = some '/'

/-- The path of a name inside the directory at a path. -/
def joinPath (directory name : String) : String :=
  if startsAtTop name then name
  else if directory = "" ∨ directory.toList.getLast? = some '/' then directory ++ name
  else directory ++ "/" ++ name

/-- The most bytes that a name may have. -/
def nameLimit : Nat := 255

/-- The most bytes that a path may have. -/
def pathLimit : Nat := 4095

namespace FileTree

/-- What is at a place. -/
def entry? (t : FileTree) (l : Location) : Option Entry :=
  if l = [] then some .directory else t.entries.lookup l

/-- The tree with another entry at a place. -/
def put (t : FileTree) (l : Location) (e : Entry) : FileTree :=
  { t with
    entries :=
      if (t.entries.lookup l).isSome then
        t.entries.map fun entry => if entry.1 = l then (l, e) else entry
      else t.entries ++ [(l, e)] }

/-- The place that is reached from another one. There may be nothing at it, but what it is in is a
directory. -/
def follow (t : FileTree) : Location → List String → Except FileFault Location
  | l, [] => .ok l
  | l, name :: rest =>
    match t.entry? l with
    | none => .error .notFound
    | some (.file _) => .error .notDirectory
    | some .directory =>
      if name = "" ∨ name = "." then follow t l rest
      else if name = ".." then follow t l.dropLast rest
      else if nameLimit < (Text.utf8 name).length then .error .nameTooLong
      else follow t (l ++ [name]) rest

/-- Where a path starts. -/
def origin (t : FileTree) (path : String) : Location := if startsAtTop path then [] else t.here

/-- The fault of a path that leads nowhere whatever the tree holds. -/
def pathFault? (path : String) : Option FileFault :=
  if path.toList.contains '\x00' then some .nullCharacter
  else if path = "" then some .notFound
  else if pathLimit < (Text.utf8 path).length then some .nameTooLong
  else none

/-- The place that a path leads to. -/
def locate (t : FileTree) (path : String) : Except FileFault Location :=
  match pathFault? path with
  | some fault => .error fault
  | none => t.follow (t.origin path) (pathParts path)

/-- What a path leads to, if there is anything. -/
def find? (t : FileTree) (path : String) : Option Entry :=
  match t.locate path with
  | .ok l => t.entry? l
  | .error _ => none

/-- The tree in which the file that a path leads to has a new content. A file that is not there is
made. -/
def write (t : FileTree) (path : String) (content : List UInt8) : Except FileFault FileTree := do
  let l ← t.locate path
  match t.entry? l with
  | some .directory => .error .isDirectory
  | _ => .ok (t.put l (.file content))

/-- The directories `names` below a place are made, each unless it is there. `made` are the names on
the way so far. Those that were made remain when a later one cannot be made. -/
def makeBelow (start : Location) (made : List String) :
    List String → FileTree → Except FileFault Unit × FileTree
  | [], t => (.ok (), t)
  | name :: rest, t =>
    let made := made ++ [name]
    match t.follow start made with
    | .error fault => (.error fault, t)
    | .ok l =>
      match t.entry? l with
      | none => makeBelow start made rest (t.put l .directory)
      | some .directory => makeBelow start made rest t
      | some (.file _) =>
        if rest.isEmpty then (.error .alreadyThere, t) else makeBelow start made rest t

/-- The directory that a path leads to is made, with those on the way that are not there. -/
def makeDirectories (t : FileTree) (path : String) : Except FileFault Unit × FileTree :=
  match pathFault? path with
  | some fault => (.error fault, t)
  | none => makeBelow (t.origin path) [] ((pathParts path).filter (· ≠ "")) t

end FileTree

end HomeAutomaton
