import RegisterMachine.CommandLine.Arguments
import RegisterMachine.CommandLine.Progress
import RegisterMachine.Debugger.Basic
import RegisterMachine.Machine.Json

/-!
# What a command prints

A command reads its files, does its work and leaves a report: what it prints,
what it complains about, and its exit code. A program that ends in a fault is
worth a complaint of its own in the exit code, and so is anything that keeps
it from being run. The program is read before the settings are, and the first
thing that goes wrong is the only one reported.

Files are looked up by a function, so a report is a function of the command
and the files alone.
-/

namespace RegisterMachine.CommandLine

/-- **Why a file cannot be read.** -/
inductive ReadFailure where
  /-- There is none. -/
  | notFound
  /-- It is a directory. -/
  | isDirectory
  /-- Its bytes are no text. -/
  | notText
  /-- Some other reason, in words. -/
  | other (message : String)
  deriving DecidableEq, Repr

/-- The message of a failure to read. -/
def ReadFailure.message : ReadFailure → String
  | .notFound => "No such file or directory (os error 2)"
  | .isDirectory => "Is a directory (os error 21)"
  | .notText => "stream did not contain valid UTF-8"
  | .other message => message

/-- **The files within reach**: the text of each, or why there is none. -/
abbrev Files := String → Except ReadFailure String

/-- The text of a file that holds these bytes. -/
def textOfBytes (bytes : ByteArray) : Except ReadFailure String :=
  match String.fromUTF8? bytes with
  | some text => .ok text
  | none => .error .notText

/-- **What a command leaves behind.** -/
structure Report where
  /-- Zero if all went well. -/
  exitCode : UInt32
  /-- What is printed. -/
  out : String
  /-- What is complained about. -/
  err : String
  deriving DecidableEq, Repr

/-- A report without complaints. -/
def Report.success (out : String) : Report := ⟨0, out, ""⟩

/-- A report of something that went wrong after some output. -/
def Report.failure (out err : String) : Report := ⟨1, out, err⟩

/-! ## Reading files -/

/-- The complaint about a file that holds no program: the error, and the line
it is about. -/
def parseComplaint (path source : String) (e : ParseError) : String :=
  "❌ Parse error in " ++ path ++ ": " ++ e.message ++ " (line index "
    ++ toString e.line ++ ")\n"
    ++ match Program.excerpt? source e.line with
      | some text => "   " ++ toString (e.line + 1) ++ " | " ++ text ++ "\n"
      | none => ""

/-- **Reads a program**, or says what to complain about. -/
def readProgram (files : Files) (path : String) : Except String Program :=
  match files path with
  | .error e =>
    .error ("❌ Failed to read " ++ path ++ ": " ++ e.message ++ "\n")
  | .ok source =>
    match Program.parse source with
    | .error e => .error (parseComplaint path source e)
    | .ok p => .ok p

/-- What is wrong with a text that is not the JSON of settings. -/
def problemMessage : Json.Problem → String
  | .truncated => "the text ends too early"
  | .malformed => "the text is malformed"
  | .unexpected => "the text holds something unexpected"

/-- The settings of a file, or the message about it. -/
def readSettings (files : Files) (path : String) : Except String Settings :=
  match files path with
  | .error e => .error ("I/O error: " ++ e.message)
  | .ok text =>
    match Settings.parse text with
    | .error (.text problem) =>
      .error ("invalid config JSON: " ++ problemMessage problem)
    | .error (.refused refusal) => .error refusal.message
    | .ok s => .ok s

/-- **Makes a machine**, or says what to complain about. -/
def buildMachine (files : Files) (o : MachineOptions) :
    Except String Machine := do
  let settings ← match o.config with
    | none => .ok .standard
    | some path =>
      match readSettings files path with
      | .ok s => .ok s
      | .error e =>
        .error ("❌ Failed to load config " ++ path ++ ": " ++ e ++ "\n")
  .ok (.new { settings with delay := o.delay.getD settings.delay })

/-! ## Running a program -/

/-- The line that announces a run; there is none before JSON. -/
def announcement (o : RunOptions) (p : Program) : String :=
  if o.json then ""
  else "🔧 Running: " ++ o.program ++ " (" ++ toString p.size
    ++ " instructions)\n"

/-- The lines of a trace. -/
def traceText (p : Progress) : String :=
  String.join (p.trace.toList.map (· ++ "\n"))

/-- The registers that hold something, the accumulator apart. -/
def registerText (r : Registers) : String :=
  String.join ((r.nonZero.filter (·.1 != 0)).map fun e =>
    "R" ++ Text.index e.1 ++ ":   " ++ toString e.2 ++ "\n")

/-- **The result of a run in words.** -/
def resultText (maxTicks : UInt64) (p : Progress) : String :=
  "\n━━━ Result ━━━\n"
    ++ "Ticks:  " ++ toString p.ticks ++ "\n"
    ++ "Status: " ++ p.status.text ++ "\n"
    ++ "PC:     " ++ toString p.machine.counter ++ "\n"
    ++ "ACC:    " ++ toString p.machine.acc ++ "\n"
    ++ registerText p.machine.registers
    ++ if p.status.isContinue then
        "\n⚠️  Reached tick limit (" ++ toString maxTicks
          ++ "). Use --max-ticks to increase.\n"
      else ""

/-- **The report of a run** that has come to its end. -/
def runReport (o : RunOptions) (announced : String) (p : Progress) :
    Report where
  exitCode := if p.status.isError then 1 else 0
  out := announced ++ traceText p
    ++ if o.json then p.machine.toJson.pretty ++ "\n"
      else resultText o.maxTicks p
  err := ""

/-- **Drives a machine to its end**, straight on or paced by a host that wakes
exactly when a tick is due. -/
def drive (o : RunOptions) (m : Machine) : Progress :=
  let limit := o.maxTicks.toNat
  if o.realtime then
    (Paced.onTime o.trace limit limit (.start m 0)).finish
  else Progress.straight o.trace limit (.start m)

/-- The machine of a run, ready to go, with the announcement; or the report of
what went wrong. -/
def prepare (files : Files) (o : RunOptions) :
    Except Report (String × Machine) :=
  match readProgram files o.program with
  | .error e => .error (.failure "" e)
  | .ok p =>
    match buildMachine files o.machine with
    | .error e => .error (.failure (announcement o p) e)
    | .ok m => .ok (announcement o p, m.load p)

/-! ## Commands -/

/-- The name and the version. -/
def versionText : String := "ram-emu 0.1.0\n"

/-- What is printed when no command is named. -/
def welcomeText : String :=
  "RAM Emulator v0.1.0\nAn accumulator-based register machine\n\n"
    ++ "Use --help for available commands\n"

/-- The commands. -/
def helpText : String :=
  "Usage: ram-emu [-v] [run|debug|check|list|opcodes] ...\n\n"
    ++ "  run <program> [-m N] [-t] [--json] [--realtime] [-c FILE] [-d MS]\n"
    ++ "  debug <program> [-c FILE] [-d MS]\n"
    ++ "  check <program>\n"
    ++ "  list <program>\n"
    ++ "  opcodes\n"

/-- **The instruction set**, one opcode a line. -/
def opcodesText : String :=
  String.join (Opcode.all.map fun op =>
    let usage := if op.requiresOperand then op.mnemonic ++ " x" else op.mnemonic
    Text.padRight 12 usage ++ " " ++ op.description ++ "\n")

/-- A debugger ready for a user, or the report of what went wrong. -/
def prepareDebugger (files : Files) (path : String) (o : MachineOptions)
    (now : Instant) : Except Report Debugger :=
  match readProgram files path with
  | .error e => .error (.failure "" e)
  | .ok p =>
    match buildMachine files o with
    | .error e => .error (.failure "" e)
    | .ok m => .ok (.new m p now)

/-- **The report of a command.** A debugger needs a terminal, and there is
none here. -/
def Command.report (files : Files) : Command → Report
  | .welcome => .success welcomeText
  | .version => .success versionText
  | .help => .success helpText
  | .opcodes => .success opcodesText
  | .check path =>
    match readProgram files path with
    | .error e => .failure "" e
    | .ok p =>
      .success ("✓ " ++ path ++ ": " ++ toString p.size ++ " instructions\n")
  | .list path =>
    match readProgram files path with
    | .error e => .failure "" e
    | .ok p => .success p.listing
  | .run o =>
    match prepare files o with
    | .error report => report
    | .ok (announced, m) => runReport o announced (drive o m)
  | .debug path o =>
    match prepareDebugger files path o 0 with
    | .error report => report
    | .ok _ => .failure "" "❌ Debugger error: no terminal\n"

/-- **The report on a command line that is not understood.** -/
def usageReport : Report := ⟨2, "", helpText⟩

/-- **The report on a command line**, whatever reads its arguments. -/
def reportOn (read : List String → Option Command) (files : Files)
    (args : List String) : Report :=
  match read args with
  | some command => command.report files
  | none => usageReport

/-- The files that a command may read. -/
def Command.paths : Command → List String
  | .run o => o.program :: o.machine.config.toList
  | .debug path o => path :: o.config.toList
  | .check path => [path]
  | .list path => [path]
  | _ => []

end RegisterMachine.CommandLine
