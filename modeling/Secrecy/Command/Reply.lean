import Secrecy.Chart
import Secrecy.Command.Invocation
import Secrecy.Command.World
import Secrecy.Knowledge.Json
import Secrecy.Knowledge.Summary
import Secrecy.Protocol.Drawing
import Secrecy.Protocol.Form
import Secrecy.Protocol.Json
import Secrecy.Source
import Secrecy.Token.Listing

/-!
# Replies

The whole effect of a command: exit code, output, log, the folders that are made
and at most one written file.  The code tells success (0), a protocol that is
refused or a breakdown (1), a command that could not be carried out (2), and an
assertion that fails (3).
-/

namespace Secrecy.Command

inductive Printed where
  | text (text : String)
  | usage
  | breakdown (breakdown : Breakdown)
  deriving DecidableEq, Repr

inductive Level where
  | info
  | error
  deriving DecidableEq, Repr

structure Record where
  level : Level
  message : String
  deriving DecidableEq, Repr

structure Reply where
  exit : Nat
  stdout : Printed
  stderr : Printed
  log : List Record
  made : List Place
  written : Option (Place × String)
  deriving DecidableEq, Repr

def programName : String := "protoknow"

def Level.word : Level → String
  | .info => "INFO"
  | .error => "ERROR"

namespace Reply

def failure (messages : List String) : Reply :=
  ⟨2, .text "", .text "", messages.map (⟨.error, ·⟩), [], none⟩

def ofBreakdown (breakdown : Breakdown) : Reply :=
  ⟨1, .text "", .breakdown breakdown, [], [], none⟩

def versionLine : String := programName ++ " 0.1.0\n"

def ofEnding : Ending → Reply
  | .help => ⟨0, .usage, .text "", [], [], none⟩
  | .version => ⟨0, .text versionLine, .text "", [], [], none⟩
  | .misuse => ⟨2, .text "", .usage, [], [], none⟩

end Reply

def closedLine (page : String) : String :=
  if page.toList.getLast? = some '\n' then page else page ++ "\n"

def unencodable : String :=
  programName ++ ": the page holds an octet of no character\n"

namespace Invocation

def note (invocation : Invocation) (message : String) : List Record :=
  if invocation.verbosity = 0 then [] else [⟨.info, message⟩]

/--
Hands a page over, if it is a text; what comes after it happens only if that
succeeds.  A file is opened before anything is written, so by then its folders
have been made and it is empty.
-/
def deliver (invocation : Invocation) (world : World) (page : Option String)
    (exit : Nat) (log : List Record) : Reply :=
  match invocation.settings.output with
  | .standard =>
      match page with
      | none => ⟨1, .text "", .text unencodable, [], [], none⟩
      | some page => ⟨exit, .text (closedLine page), .text "", log, [], none⟩
  | .unnamed => .ofBreakdown .unnamedOutput
  | .file path =>
      match world.locate path with
      | .error breakdown => .ofBreakdown breakdown
      | .ok place =>
          let made := world.missingFolders place.folder
          match world.obstacle? place, page with
          | some obstacle, _ =>
              { Reply.failure ["I/O error: " ++ obstacle.message] with
                made := made }
          | none, none =>
              ⟨1, .text "", .text unencodable, [], made, some (place, "")⟩
          | none, some page =>
              ⟨exit, .text "", .text "", log, made,
                some (place, closedLine page)⟩

def refuse (invocation : Invocation) (source : String) (fault : Fault) :
    Reply :=
  ⟨1, .text "",
    .text (fault.diagnostic (some source) invocation.settings.colour),
    invocation.note
      ("rejected " ++ invocation.file.shown ++ ": " ++ fault.inBrief),
    [], none⟩

/-! ## Pages -/

def treePage (invocation : Invocation) (protocol : Protocol) : String :=
  match invocation.settings.treeStyle with
  | .tree => protocol.outline.draw
  | .form => protocol.form.render
  | .json => protocol.json.render (some 2)

def checkPage (invocation : Invocation) (protocol : Protocol) :
    Option String :=
  invocation.file.text?.map fun file =>
    file ++ ": ok (" ++ toString protocol.roles.members.length ++
      " role(s), " ++ toString protocol.messages.length ++ " message(s), " ++
      toString protocol.assertions.length ++ " assertion(s))"

def reportPage (invocation : Invocation) (report : Report) : String :=
  match invocation.settings.reportStyle with
  | .json => report.json.render (some 2)
  | .text =>
      report.text (invocation.settings.colour &&
        invocation.settings.output = .standard)

/-! ## Tasks -/

/-- No name starts with what is no text. -/
def leakEntry? : Option Argument → Option Config.LeakEntry
  | none => some .emptyList
  | some argument => argument.text?.map .text

def configRequest (invocation : Invocation) : Config.Request :=
  let leaks := invocation.settings.leakPrefixes
  { seedKeyOwners := invocation.settings.seedKeyOwners
    countAuthored := invocation.settings.countAuthored
    leakPrefixes :=
      .list (if leaks.isEmpty then Config.defaultPrefixes.map .text
        else leaks.filterMap leakEntry?)
    recordHistory := false }

/-- A file called `-` is standard input. -/
def withSource (invocation : Invocation) (world : World)
    (proceed : String → Reply) : Reply :=
  if invocation.file = .ofText "-" then proceed (Text.unifyLineEnds world.input)
  else
    match world.locate invocation.file with
    | .error breakdown => .ofBreakdown breakdown
    | .ok place =>
        match world.read place with
        | .error unreadable => .failure [unreadable.message]
        | .ok source => proceed source

def withProtocol (invocation : Invocation) (world : World)
    (proceed : Protocol → Reply) : Reply :=
  invocation.withSource world fun source =>
    match Protocol.ofSource source invocation.settings.checkNames with
    | .error fault => invocation.refuse source fault
    | .ok protocol => proceed protocol

def reportReply (invocation : Invocation) (world : World) (report : Report) :
    Reply :=
  let page := invocation.reportPage report
  if report.passed then invocation.deliver world (some page) 0 []
  else
    invocation.deliver world (some page) 3
      (invocation.note
        (toString report.failures.length ++ " assertion(s) failed"))

/-- Once names are checked, the analysis has no reason to fail. -/
def analyzeReply (invocation : Invocation) (world : World) (config : Config)
    (protocol : Protocol) : Reply :=
  match protocol.analyze config with
  | .ok report => invocation.reportReply world report
  | .error fault => .failure [fault.message]

/-- A chart is drawn in full before it turns out that its title is no text. -/
def dotReply (invocation : Invocation) (world : World) (protocol : Protocol) :
    Reply :=
  let title := invocation.settings.title
  match (protocol.chart (title.bind Argument.text?)).dot with
  | .ok page =>
      invocation.deliver world
        (if title.any (·.text?.isNone) then none else some page) 0 []
  | .error name => .failure [(AnalysisFault.undeclared name).message]

def reply (invocation : Invocation) (world : World) : Reply :=
  match invocation.task with
  | .tokens =>
      invocation.withSource world fun source =>
        invocation.deliver world
          (some (Token.listing (Token.tokenise source))) 0 []
  | .parse =>
      invocation.withProtocol world fun protocol =>
        invocation.deliver world (some (invocation.treePage protocol)) 0 []
  | .check =>
      invocation.withProtocol world fun protocol =>
        invocation.deliver world (invocation.checkPage protocol) 0 []
  | .analyze =>
      match invocation.configRequest.validate with
      | .error problems =>
          .failure (problems.map fun problem => "config: " ++ problem.message)
      | .ok config =>
          invocation.withProtocol world (invocation.analyzeReply world config)
  | .dot => invocation.withProtocol world (invocation.dotReply world)

end Invocation

def launch (arguments : List Argument) (world : World) : Reply :=
  match Invocation.ofArguments arguments with
  | .error ending => .ofEnding ending
  | .ok invocation => invocation.reply world

/-- The reply to a command line of texts. -/
def run (arguments : List String) (world : World) : Reply :=
  launch (arguments.map .ofText) world

end Secrecy.Command
