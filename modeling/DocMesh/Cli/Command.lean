/-
# Commands

The program starts a node that runs until it is interrupted, or one that runs a single cycle and reports on it.
-/
import DocMesh.Cli.Options
import DocMesh.Cli.Report
import DocMesh.Node.Basic

namespace DocMesh

/-- The version of the program. -/
def programVersion : String := "0.3.0"

/-- What is said about a single cycle on the command line. -/
structure SyncOptions where
  node : NodeOptions := {}
  /-- How long to wait before the cycle, in seconds. -/
  wait : Nat := 0
  /-- Are the documents listed in the report? -/
  documents : Bool := false
  /-- The format of the report. -/
  format : String := "text"
  verbose : Bool := false
  deriving DecidableEq, Inhabited

/-- A command. -/
inductive Command where
  /-- Starts a node that runs until it is interrupted. -/
  | run (node : NodeOptions)
  /-- Runs a single cycle and reports on it. -/
  | sync (options : SyncOptions)
  /-- Tells the version of the program. -/
  | version
  deriving DecidableEq, Inhabited

namespace Command

/-! ## Reading a command -/

/-- The option that asks for a detailed log. -/
def verbose : CommandOption SyncOptions := .switch "verbose" (some 'v') ({ · with verbose := true })

/-- The options of a command that starts a node. -/
def runOptions : List (CommandOption SyncOptions) :=
  NodeOptions.options (fun f o => { o with node := f o.node }) ++ [verbose]

/-- The options of a command that runs a single cycle. -/
def syncOptions : List (CommandOption SyncOptions) :=
  runOptions ++
    [.single "wait" (some 'w') NodeOptions.count? fun v o => { o with wait := v },
      .switch "documents" (some 'd') ({ · with documents := true }),
      .single "format" (some 'f') some fun v o => { o with format := v }]

/-- The options in front of the command. -/
def frontOptions : List (CommandOption SyncOptions) := [.help, .version, verbose]

/-- The names of the commands. -/
def names : List String := ["run", "sync", "version", "help"]

/-- What the request for help on the given command comes to. -/
def helpOn : List String → UsageError
  | [] => .help
  | [name] => if names.contains name then .help else .noCommand
  | _ => .noCommand

/-- A command that starts a node, with its arguments. -/
def withNode (options : List (CommandOption SyncOptions)) (args : List String) (make : SyncOptions → Command) :
    Except UsageError Command :=
  match Reading.all options args {} with
  | .ok o => if o.node.complete then .ok (make o) else .error .missingArgument
  | .error e => .error e

/-- The command of the given name, with its arguments. -/
def ofName (name : String) (args : List String) : Except UsageError Command :=
  match name with
  | "run" => withNode runOptions args fun o => run o.node
  | "sync" => withNode syncOptions args sync
  | "version" => (Reading.all [.help, verbose] args {}).map fun _ => version
  | "help" => .error (helpOn args)
  | _ => .error .noCommand

/-- The command that the arguments of the program give. -/
def parse (args : List String) : Except UsageError Command :=
  match Reading.scan frontOptions args { value := {} } with
  | .ok (.finished _) => .error .noCommand
  | .ok (.word name rest _) => ofName name rest
  | .error e => .error e

/-! ## Running a command -/

variable {σ : Type}

/-- The surroundings in which a command runs. -/
structure Surroundings (σ : Type) where
  network : Network σ
  /-- Binds a port of the host; any free one if it is 0. -/
  bind : UInt16 → Except NetworkError UInt16
  /-- The reading of the wall clock. -/
  now : Int64
  /-- Numbers drawn at random, which say with whom a cycle is run. -/
  draw : Nat → Nat

/-- Starts the node that the options describe. -/
def start (e : Surroundings σ) (o : NodeOptions) : Except CommandError Node := do
  let c ← o.config
  let db ← o.openDatabase e.now
  let n ← (Node.create c db).mapError .network
  match n.start (e.bind c.port) e.bind with
  | (.ok (), n) => .ok n
  | (.error cause, _) => .error (.network cause)

/-- Runs a single cycle and reports on it. -/
def syncOnce (e : Surroundings σ) (o : SyncOptions) : Except CommandError String := do
  let (cycle, n) := (← start e o.node).sync e.network e.draw
  let r ← (Report.ofCycle n.stop.database cycle o.documents).mapError .store
  return r.render o.format

/-- The lines that tell the version of the program. -/
def versionText : String :=
  Report.ofLines ["EntglDb CLI v" ++ programVersion, "EntglDb Core v" ++ programVersion]

/-- What the command prints, apart from a log. -/
def output (e : Surroundings σ) : Command → Except CommandError String
  | run o => (start e o).map fun _ => ""
  | sync o => syncOnce e o
  | version => .ok versionText

end Command

/-- How long the program goes on after its work is done. -/
inductive Duration where
  /-- So many seconds. -/
  | seconds (n : Nat)
  /-- Until it is interrupted. -/
  | unlimited
  deriving DecidableEq, Inhabited

/-- How long the program goes on with a command. -/
def Command.duration : Command → Duration
  | run _ => .unlimited
  | sync o => .seconds o.wait
  | version => .seconds 0

/-- What a run of the program comes to. -/
structure ProgramResult where
  status : UInt8
  /-- What is printed; nothing if the arguments were not obeyed. -/
  output : Option String
  /-- What is said to the person who has called the program. -/
  message : Option String := none
  duration : Duration := .seconds 0
  deriving DecidableEq, Inhabited

namespace ProgramResult

/-- How the program is called. -/
def helpText : String :=
  Report.ofLines
    ["usage: entgldb [-v] COMMAND [OPTIONS]", "",
      "commands:",
      "  run      start a node and exchange entries until interrupted",
      "  sync     start a node, run one cycle and print a report",
      "  version  tell the version", "",
      "options of run and sync:",
      "  --node-id ID, --auth-token TOKEN        who the node is, and the secret of its mesh (required)",
      "  -p, --port N, --bind ADDRESS            where the node listens",
      "  --peer ID=HOST:PORT                     a static peer (repeatable)",
      "  --seed COLLECTION/KEY=JSON              a document to write first (repeatable)",
      "  --resolver lww|merge                    how conflicts are resolved",
      "  --discovery-port N, --no-discovery, --localhost",
      "  --sync-interval SECONDS, --fan-out N, --insecure, --no-compression", "",
      "options of sync:",
      "  -w, --wait SECONDS, -d, --documents, -f, --format text|json"]

/-- The result of arguments that are not obeyed. -/
def ofUsage (e : UsageError) : ProgramResult :=
  match e with
  | .help => { status := 0, output := none, message := some helpText }
  | .version => { status := 0, output := some ("entgldb " ++ programVersion ++ "\n") }
  | _ => { status := 2, output := none, message := some ("error: " ++ e.message ++ "\n") }

/-- The result of running the program with the given arguments. -/
def ofArguments {σ : Type} (e : Command.Surroundings σ) (args : List String) : ProgramResult :=
  match Command.parse args with
  | .error e => ofUsage e
  | .ok c =>
    match c.output e with
    | .ok text => { status := 0, output := some text, duration := c.duration }
    | .error e => { status := 1, output := some "", message := some ("error: " ++ e.message ++ "\n") }

end ProgramResult

end DocMesh
