import Secrecy.Command.Switch

/-!
# Invocations

What a command line asks for: a command, the file with the protocol, and the
settings made by switches.  Each command knows its own switches; the count of
`-v` is given before the command.
-/

namespace Secrecy.Command

inductive Task where
  | tokens
  | parse
  | check
  | analyze
  | dot
  deriving DecidableEq, Repr

inductive TreeStyle where
  | tree
  | form
  | json
  deriving DecidableEq, Repr

inductive ReportStyle where
  | text
  | json
  deriving DecidableEq, Repr

inductive Output where
  | standard
  | file (path : Argument)
  | unnamed
  deriving DecidableEq, Repr

structure Settings where
  output : Output
  treeStyle : TreeStyle
  checkNames : Bool
  reportStyle : ReportStyle
  colour : Bool
  seedKeyOwners : Bool
  countAuthored : Bool
  leakPrefixes : List (Option Argument)
  title : Option Argument
  deriving DecidableEq, Repr

def Settings.default : Settings :=
  ⟨.standard, .tree, true, .text, false, false, false, [], none⟩

structure Invocation where
  verbosity : Nat
  task : Task
  file : Argument
  settings : Settings
  deriving DecidableEq, Repr

/-! ## Switches -/

def ends {σ : Type} (ending : Ending) : Effect σ :=
  .flag fun _ => .error ending

def flag {σ : Type} (set : σ → σ) : Effect σ :=
  .flag fun settings => .ok (set settings)

def valued {σ : Type} (set : Option Argument → σ → σ) : Effect σ :=
  .value fun text settings => .ok (set text settings)

/-- A value that must be one of the named choices; none is the usual one. -/
def choice {σ α : Type} (choices : List (String × α)) (usual : α)
    (set : α → σ → σ) : Effect σ :=
  .value fun text settings =>
    match text with
    | none => .ok (set usual settings)
    | some text =>
        match text.text?.bind (choices.lookup ·) with
        | none => .error .misuse
        | some value => .ok (set value settings)

/-- A file called `-` is standard output. -/
def Output.ofValue : Option Argument → Output
  | none => .unnamed
  | some path => if path = .ofText "-" then .standard else .file path

def spelled {σ : Type} (spellings : List String) (effect : Effect σ) :
    List (Switch σ) :=
  spellings.map (⟨·, effect⟩)

def generalSwitches : List (Switch Nat) :=
  spelled ["-h", "--help"] (ends .help) ++
    spelled ["--version"] (ends .version) ++
    spelled ["-v", "--verbose"] (flag (· + 1))

def commonSwitches : List (Switch Settings) :=
  spelled ["-h", "--help"] (ends .help) ++
    spelled ["-o", "--output"]
      (valued fun text settings =>
        { settings with output := .ofValue text })

def parseSwitches : List (Switch Settings) :=
  spelled ["-f", "--format"]
    (choice [("tree", TreeStyle.tree), ("sexp", .form), ("json", .json)] .tree
      fun style settings => { settings with treeStyle := style }) ++
    spelled ["--no-check"]
      (flag fun settings => { settings with checkNames := false })

def analyzeSwitches : List (Switch Settings) :=
  spelled ["-f", "--format"]
    (choice [("text", ReportStyle.text), ("json", .json)] .text
      fun style settings => { settings with reportStyle := style }) ++
    spelled ["--color", "--colour"]
      (flag fun settings => { settings with colour := true }) ++
    spelled ["--seed-key-owners"]
      (flag fun settings => { settings with seedKeyOwners := true }) ++
    spelled ["--count-authored"]
      (flag fun settings => { settings with countAuthored := true }) ++
    spelled ["--leak-prefix"]
      (valued fun text settings =>
        { settings with leakPrefixes := settings.leakPrefixes ++ [text] })

def dotSwitches : List (Switch Settings) :=
  spelled ["--title"]
    (valued fun text settings => { settings with title := text })

namespace Task

def ofName? (name : String) : Option Task :=
  [("tokens", tokens), ("parse", parse), ("check", check),
    ("analyze", analyze), ("analyse", analyze), ("dot", dot)].lookup name

def switches : Task → List (Switch Settings)
  | .tokens | .check => commonSwitches
  | .parse => commonSwitches ++ parseSwitches
  | .analyze => commonSwitches ++ analyzeSwitches
  | .dot => commonSwitches ++ dotSwitches

end Task

/-! ## Reading a command line -/

def readTask (verbosity : Nat) (surplus : Bool) (task : Task)
    (arguments : List Argument) : Except Ending Invocation := do
  let found ← words task.switches arguments
  let gathered ← gatherAll task.switches .default none surplus found
  match gathered.operands, gathered.surplus with
  | [file], false => return ⟨verbosity, task, file, gathered.settings⟩
  | _, _ => .error .misuse

def Invocation.ofArguments (arguments : List Argument) :
    Except Ending Invocation := do
  let found ← words generalSwitches arguments
  let gathered ← gatherLeading generalSwitches 0 false found
  match gathered.operands with
  | [] => .error .misuse
  | name :: rest =>
      match name.text?.bind Task.ofName? with
      | none => .error .misuse
      | some task => readTask gathered.settings gathered.surplus task rest

end Secrecy.Command
