import Secrecy.Command.Reply

/-!
# The command line

Looks at the places that a command names, asks the library for the reply, and
carries it out.
-/

namespace Secrecy.Command

def usageText : String :=
  "usage: " ++ programName ++ " [-h] [--version] [-v] <command> ...\n\n" ++
    "commands:\n" ++
    "  tokens FILE     print the token stream\n" ++
    "  parse FILE      parse and print the tree\n" ++
    "  check FILE      check syntax and names only\n" ++
    "  analyze FILE    compute knowledge and judge secrecy assertions\n" ++
    "  dot FILE        emit a sequence diagram\n\n" ++
    "A FILE of - is standard input; -o FILE writes the output to a file.\n"

def Printed.shown : Printed → String
  | .text page => page
  | .usage => usageText
  | .breakdown cause => programName ++ ": " ++ cause.message ++ "\n"

def Record.shown (record : Record) : String :=
  "[" ++ record.level.word ++ "] " ++ programName ++ ": " ++
    record.message ++ "\n"

def node? (place : Place) : IO (Option Node) := do
  try
    let content ← IO.FS.readBinFile place.shown
    return some (.file content.toList)
  catch
    | .noFileOrDirectory .. => return none
    | _ => return some .folder

def nodesTowards : List Place → IO (List (Place × Node))
  | [] => return []
  | place :: below => do
      match ← node? place with
      | none => return []
      | some (.file content) => return [(place, .file content)]
      | some .folder => return (place, .folder) :: (← nodesTowards below)

/-- Users and their home folders from a list of accounts, one a line. -/
def homesOf (accounts : String) : List (String × String) :=
  (accounts.splitOn "\n").filterMap fun account =>
    match account.splitOn ":" with
    | user :: _ :: _ :: _ :: _ :: home :: _ => some (user, home)
    | _ => none

def homes : IO (List (String × String)) := do
  let own := (← IO.getEnv "HOME").map ("", ·)
  let accounts ← try IO.FS.readFile "/etc/passwd" catch _ => pure ""
  return own.toList ++ homesOf accounts

def pathsOf (invocation : Invocation) : List Argument :=
  let input := if invocation.file = .ofText "-" then [] else [invocation.file]
  match invocation.settings.output with
  | .file path => input ++ [path]
  | .standard | .unnamed => input

def surroundings (invocation : Invocation) : IO World := do
  let here := Place.resolve Place.top (← IO.currentDir).toString
  let input ←
    if invocation.file = .ofText "-" then (← IO.getStdin).readToEnd else pure ""
  let bare : World :=
    ⟨here, ← homes, [], input, fun path => .ok (here ++ [path.shown])⟩
  let places := (pathsOf invocation).filterMap fun path =>
    (bare.locate path).toOption
  let nodes ← places.mapM fun place => nodesTowards place.ancestry
  return { bare with nodes := nodes.flatten }

def carryOut (reply : Reply) : IO UInt32 := do
  let stderr ← IO.getStderr
  stderr.putStr (String.join (reply.log.map Record.shown))
  stderr.putStr reply.stderr.shown
  for place in reply.made do
    IO.FS.createDirAll place.shown
  if let some (place, page) := reply.written then
    IO.FS.writeFile place.shown page
  (← IO.getStdout).putStr reply.stdout.shown
  return reply.exit.toUInt32

end Secrecy.Command

open Secrecy.Command in
def main (arguments : List String) : IO UInt32 :=
  match Invocation.ofArguments (arguments.map .ofText) with
  | .error ending => carryOut (.ofEnding ending)
  | .ok invocation => do
      carryOut (invocation.reply (← surroundings invocation))
