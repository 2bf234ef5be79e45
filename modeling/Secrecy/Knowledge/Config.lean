import Secrecy.Text.Quoted

/-!
# Options of the analysis

A request may ask for anything as leak prefixes; only a list of nonempty texts
is taken.  Each entry that is refused is a problem of its own.
-/

namespace Secrecy

structure Config where
  /-- Owners start out knowing their keys. -/
  seedKeyOwners : Bool
  /-- What a role wrote itself counts against an assertion that excludes it. -/
  countAuthored : Bool
  /-- Adversary names that start like this are a catastrophe. -/
  leakPrefixes : List String
  recordHistory : Bool
  deriving DecidableEq, Repr

namespace Config

def defaultPrefixes : List String := ["K_", "M_"]

def default : Config := ⟨false, false, defaultPrefixes, false⟩

inductive LeakEntry where
  | nothing
  | emptyList
  | flag (value : Bool)
  | number (value : Int)
  | text (value : String)
  deriving DecidableEq, Repr

inductive LeakEntries where
  | list (entries : List LeakEntry)
  | bareText (value : String)
  deriving DecidableEq, Repr

structure Request where
  seedKeyOwners : Bool
  countAuthored : Bool
  leakPrefixes : LeakEntries
  recordHistory : Bool
  deriving DecidableEq, Repr

inductive Problem where
  | notAList
  | invalid (entry : LeakEntry)
  deriving DecidableEq, Repr

def LeakEntry.shown : LeakEntry → String
  | .nothing => "None"
  | .emptyList => "[]"
  | .flag true => "True"
  | .flag false => "False"
  | .number value => toString value
  | .text value => Text.quoted value

def Problem.message : Problem → String
  | .notAList =>
      "leak_prefixes must be a sequence of strings, not a single string"
  | .invalid entry => "invalid leak prefix " ++ entry.shown

def LeakEntry.text? : LeakEntry → Option String
  | .text value => if value = "" then none else some value
  | _ => none

namespace Request

def default : Request :=
  ⟨false, false, .list (defaultPrefixes.map .text), false⟩

def problems (request : Request) : List Problem :=
  match request.leakPrefixes with
  | .bareText _ => [.notAList]
  | .list entries => (entries.filter (·.text?.isNone)).map .invalid

def validate (request : Request) : Except (List Problem) Config :=
  match request.problems, request.leakPrefixes with
  | [], .list entries =>
      .ok ⟨request.seedKeyOwners, request.countAuthored,
        entries.filterMap LeakEntry.text?, request.recordHistory⟩
  | problems, _ => .error problems

end Request

def refusal (problems : List Problem) : String :=
  "invalid analyzer config: " ++
    String.intercalate "; " (problems.map Problem.message)

end Config

end Secrecy
