import ScriptHost.Table
/-!
Files by path, and access to them in any surroundings. A path is a list of names between slashes; it
means the same file with and without empty names and single dots.
-/
namespace ScriptHost.CommandLine

/-- Why a file cannot be read or written. -/
inductive FileError
  | missing
  | notDirectory
  | isDirectory
  | other (text : String)
  deriving DecidableEq, Repr

/-- What a refusal says. -/
def FileError.message : FileError → String
  | .missing => "No such file or directory (os error 2)"
  | .notDirectory => "Not a directory (os error 20)"
  | .isDirectory => "Is a directory (os error 21)"
  | .other text => text

/-- Reading and writing whole files. -/
structure FileAccess (m : Type → Type) where
  read : (path : String) → m (Except FileError String)
  write : (path text : String) → m (Except FileError Unit)

/-- The texts of files by the names on the way to them. -/
abbrev Files := Table (List String) String

namespace Files

/-- The names in a path. -/
def names (path : String) : List String :=
  (path.split '/').toList.map (·.toString)

/-- Whether some file lies in a directory, or the directory is the topmost one. -/
def isDirectory (files : Files) (place : List String) : Bool :=
  place.isEmpty || files.keys.any fun key => place.isPrefixOf key && place.length < key.length

/-- What is at the end of a path. -/
inductive Place
  | file (place : List String)
  | directory
  /-- Nothing yet, in a directory that is there. -/
  | free (place : List String)
  /-- Nothing, and the path says that it is a directory. -/
  | freeDirectory
  | unreachable (e : FileError)

/-- Follows a path from a directory. -/
def follow (files : Files) : (here : List String) → List String → Place
  | _, [] => .directory
  | here, name :: rest =>
    if name = "" ∨ name = "." then follow files here rest
    else if name = ".." then follow files here.dropLast rest
    else
      let next := here ++ [name]
      if files.contains next then
        if rest.isEmpty then .file next else .unreachable .notDirectory
      else if files.isDirectory next then follow files next rest
      else if rest.isEmpty then .free next
      else if rest.all (·.isEmpty) then .freeDirectory
      else .unreachable .missing

/-- What a path means. Nothing but directories is outside. -/
def locate (files : Files) (path : String) : Place :=
  match names path with
  | "" :: rest => if rest.all (·.isEmpty) then .directory else .unreachable .missing
  | names => files.follow [] names

/-- The text of a file. -/
def read (files : Files) (path : String) : Except FileError String :=
  match files.locate path with
  | .file place => (files.find? place).elim (.error .missing) .ok
  | .directory => .error .isDirectory
  | .free _ | .freeDirectory => .error .missing
  | .unreachable e => .error e

/-- Gives a file a text. -/
def write (files : Files) (path text : String) : Except FileError Files :=
  match files.locate path with
  | .file place | .free place => .ok (files.insert place text)
  | .directory | .freeDirectory => .error .isDirectory
  | .unreachable e => .error e

/-- Access to files by path. -/
def fileAccess : FileAccess (StateM Files) where
  read path := fun files => (files.read path, files)
  write path text := fun files =>
    match files.write path text with
    | .ok files => (.ok (), files)
    | .error e => (.error e, files)

end Files

end ScriptHost.CommandLine
