import Secrecy.Command.Argument
import Secrecy.Text.Lines
import Secrecy.Text.Quoted
import Secrecy.Text.Utf8

/-!
# The surroundings of a command

A command reads one protocol, from standard input or from a file, and may write
one file.  All it needs to know of its surroundings is what stands at the
places it names and at the folders above them, and where users are at home.
Places go by texts; where a path that is no text leads is up to the world.
-/

namespace Secrecy.Command

/-- A path from the top, component by component. -/
abbrev Place := List String

namespace Place

def top : Place := [""]

def shown (place : Place) : String :=
  if place = top then "/" else String.intercalate "/" place

/-- The component `..` goes up, but not past the top. -/
def follow (place : Place) (component : String) : Place :=
  if component = ".." then
    if place.length ≤ 1 then place else place.dropLast
  else place ++ [component]

/-- Empty components and `.` lead nowhere. -/
def components (path : String) : List String :=
  ((path.toList.splitOn '/').map String.ofList).filter fun component =>
    component ≠ "" ∧ component ≠ "."

def isAbsolute (path : String) : Bool := path.toList.head? = some '/'

def resolve (here : Place) (path : String) : Place :=
  (components path).foldl follow (if isAbsolute path then top else here)

def folder (place : Place) : Place := place.dropLast

/-- The place itself and all folders above it, the topmost first. -/
def ancestry (place : Place) : List Place :=
  (List.range place.length).map fun n => place.take (n + 1)

/-! ## Lengths -/

def longestName : Nat := 255

def longestPath : Nat := 4095

def isNameTooLong (place : Place) : Bool :=
  place.getLast?.any (longestName < ·.utf8ByteSize)

def isPathTooLong (place : Place) : Bool :=
  longestPath < place.shown.utf8ByteSize

end Place

inductive Node where
  | file (content : List UInt8)
  | folder
  deriving DecidableEq, Repr

/-- Failures that no reply is foreseen for. -/
inductive Breakdown where
  | unnamedOutput
  | unknownHome
  | unusablePath
  deriving DecidableEq, Repr

def Breakdown.message : Breakdown → String
  | .unnamedOutput => "the output file has no name"
  | .unknownHome => "the home folder is not known"
  | .unusablePath => "the path holds a null character"

structure World where
  here : Place
  /-- The home folders of users by name; who runs the command has no name. -/
  homes : List (String × String)
  nodes : List (Place × Node)
  input : String
  /-- Where paths lead that are no texts. -/
  elsewhere : Argument → Except Breakdown Place

namespace World

/-! ## Finding -/

/-- A relative path that starts with a tilde starts at a home folder. -/
def departure (world : World) :
    List String → Except Breakdown (Place × List String)
  | [] => .ok (world.here, [])
  | first :: rest =>
      match first.toList with
      | '~' :: user =>
          match world.homes.lookup (String.ofList user) with
          | some home => .ok (Place.resolve world.here home, rest)
          | none =>
              .error (if '\x00' ∈ user then .unusablePath else .unknownHome)
      | _ => .ok (world.here, first :: rest)

def locateText (world : World) (path : String) : Except Breakdown Place := do
  let components := Place.components path
  let (start, rest) ←
    if Place.isAbsolute path then .ok (Place.top, components)
    else world.departure components
  if rest.any ('\x00' ∈ ·.toList) then .error .unusablePath
  else return rest.foldl Place.follow start

def locate (world : World) (path : Argument) : Except Breakdown Place :=
  match path.text? with
  | some text => world.locateText text
  | none => world.elsewhere path

def at? (world : World) (place : Place) : Option Node :=
  world.nodes.lookup place

/-- What is met on the way to a place. -/
inductive Finding where
  | file (content : List UInt8)
  | folder
  | missing
  | underFile
  | tooLong
  deriving DecidableEq, Repr

def survey (world : World) : List Place → Finding
  | [] => .folder
  | place :: below =>
      if place.isNameTooLong then .tooLong
      else
        match world.at? place with
        | none => .missing
        | some (.file content) =>
            if below.isEmpty then .file content else .underFile
        | some .folder => world.survey below

def find (world : World) (place : Place) : Finding :=
  if place.isPathTooLong then .tooLong else world.survey place.ancestry

def tooLongMessage (place : Place) : String :=
  "[Errno 36] File name too long: " ++ Text.quoted place.shown

/-! ## Reading -/

inductive Unreadable where
  | missing (place : Place)
  | tooLong (place : Place)
  | undecodable (place : Place) (fault : Text.Utf8.Fault)
  deriving DecidableEq, Repr

def Unreadable.message : Unreadable → String
  | .missing place => "protocol file not found: " ++ place.shown
  | .tooLong place => "I/O error: " ++ tooLongMessage place
  | .undecodable place fault =>
      "cannot read " ++ place.shown ++ ": " ++ fault.message

def read (world : World) (place : Place) : Except Unreadable String :=
  match world.find place with
  | .file content =>
      match Text.Utf8.decode? content with
      | .ok text => .ok (Text.unifyLineEnds text)
      | .error fault => .error (.undecodable place fault)
  | .tooLong => .error (.tooLong place)
  | .folder | .missing | .underFile => .error (.missing place)

/-! ## Writing -/

inductive Unwritable where
  | folderIsFile (place : Place)
  | underFile (place : Place)
  | isFolder (place : Place)
  | tooLong (place : Place)
  deriving DecidableEq, Repr

def Unwritable.message : Unwritable → String
  | .folderIsFile place =>
      "[Errno 17] File exists: " ++ Text.quoted place.shown
  | .underFile place =>
      "[Errno 20] Not a directory: " ++ Text.quoted place.shown
  | .isFolder place =>
      "[Errno 21] Is a directory: " ++ Text.quoted place.shown
  | .tooLong place => tooLongMessage place

/-- What keeps a folder from being made, one below the other if need be. -/
def folderObstacle? (world : World) (folder : Place) : Option Unwritable :=
  match world.find folder with
  | .folder => none
  | .file _ => some (.folderIsFile folder)
  | .underFile => some (.underFile folder)
  | .tooLong => some (.tooLong folder)
  | .missing =>
      (folder.ancestry.find? Place.isNameTooLong).map Unwritable.tooLong

def fileObstacle? (world : World) (place : Place) : Option Unwritable :=
  if place.isPathTooLong ∨ place.isNameTooLong then some (.tooLong place)
  else if world.at? place = some .folder then some (.isFolder place)
  else none

/-- What keeps a file from being written; missing folders do not. -/
def obstacle? (world : World) (place : Place) : Option Unwritable :=
  (world.folderObstacle? place.folder).or (world.fileObstacle? place)

/--
The folders that are made for a file: all that are missing above it, down to one
with a name that is too long.
-/
def missingFolders (world : World) (folder : Place) : List Place :=
  match world.find folder with
  | .missing =>
      (folder.ancestry.dropWhile fun place =>
        world.at? place = some .folder).takeWhile (!·.isNameTooLong)
  | _ => []

/-! ## Making worlds -/

/-- A folder that holds the given files and nothing else. -/
def ofFiles (here : Place) (homes : List (String × String))
    (files : List (String × List UInt8)) (input : String) : World :=
  let placed := files.map fun (name, content) =>
    (Place.resolve here name, content)
  let folders :=
    here.ancestry ++ placed.flatMap fun (place, _) => place.folder.ancestry
  { here
    homes
    nodes := placed.map (fun (place, content) => (place, .file content)) ++
      folders.map (·, .folder)
    input
    elsewhere := fun path => .ok (here ++ [path.shown]) }

end World

end Secrecy.Command
