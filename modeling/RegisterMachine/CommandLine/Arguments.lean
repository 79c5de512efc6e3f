import RegisterMachine.Text.Digits

/-!
# Arguments

A command line names a command, a program file and options. An option is
written in full behind two dashes or by its letter behind one; letters may
share a dash, and a value stands behind its option, apart, after an equals
sign, or right behind the letter. Two dashes alone end the options. No option
is given twice.

The arguments are read from left to right, so a request for the version or
for help is met if nothing before it was wrong. Help is also a command, which
may name another.
-/

namespace RegisterMachine.CommandLine

-- powers are those of the core library, whatever else is in scope
attribute [local instance (high)] instPowNat

/-- **An option.** -/
inductive Switch where
  /-- Log what is executed. -/
  | verbose
  /-- Show the version. -/
  | version
  /-- Show the commands. -/
  | help
  /-- Print each instruction as it is executed. -/
  | trace
  /-- Print the final state as JSON. -/
  | json
  /-- Wait the delay between ticks. -/
  | realtime
  /-- The greatest number of ticks. -/
  | maxTicks
  /-- The file that holds the settings. -/
  | config
  /-- The delay, in place of that of the settings. -/
  | delay
  deriving DecidableEq, Repr

namespace Switch

/-- How the option is written in full. -/
def long : Switch → String
  | .verbose => "verbose"
  | .version => "version"
  | .help => "help"
  | .trace => "trace"
  | .json => "json"
  | .realtime => "realtime"
  | .maxTicks => "max-ticks"
  | .config => "config"
  | .delay => "delay"

/-- The letter of the option, if it has one. -/
def letter? : Switch → Option Char
  | .verbose => some 'v'
  | .version => some 'V'
  | .help => some 'h'
  | .trace => some 't'
  | .json => none
  | .realtime => none
  | .maxTicks => some 'm'
  | .config => some 'c'
  | .delay => some 'd'

/-- Whether a value belongs to the option. -/
def takesValue : Switch → Bool
  | .maxTicks | .config | .delay => true
  | _ => false

end Switch

/-! ## From arguments to items -/

/-- **What an argument stands for.** -/
inductive Item where
  /-- An option without a value. -/
  | switch (switch : Switch)
  /-- An option with its value. -/
  | value (switch : Switch) (text : String)
  /-- Something that is no option. -/
  | operand (text : String)
  /-- Nothing that is understood. -/
  | bad
  deriving DecidableEq, Repr

/-- Whether an argument is written as an option. A dash alone is not. -/
def isDashed (arg : String) : Bool :=
  match arg.toList with
  | '-' :: _ :: _ => true
  | _ => false

/-- **Letters that share a dash.** A value follows the letter it belongs to,
or is still to come. -/
def letters (allowed : List Switch) : List Char → List Item × Option Switch
  | [] => ([], none)
  | c :: cs =>
    match allowed.find? fun s => s.letter? == some c with
    | none => ([.bad], none)
    | some s =>
      if s.takesValue then
        match cs with
        | [] => ([], some s)
        | '=' :: v => ([.value s (String.ofList v)], none)
        | v => ([.value s (String.ofList v)], none)
      else
        let (items, pending) := letters allowed cs
        (.switch s :: items, pending)

/-- **An option written in full**, with the value behind an equals sign if
there is one. -/
def spelled (allowed : List Switch) (cs : List Char) :
    List Item × Option Switch :=
  let name := String.ofList (cs.takeWhile (· != '='))
  match allowed.find? fun s => s.long == name, cs.dropWhile (· != '=') with
  | none, _ => ([.bad], none)
  | some s, [] => if s.takesValue then ([], some s) else ([.switch s], none)
  | some s, _ :: v =>
    ([if s.takesValue then .value s (String.ofList v) else .bad], none)

/-- What an argument stands for, and the option whose value is still to
come. -/
def classify (allowed : List Switch) (arg : String) :
    List Item × Option Switch :=
  match arg.toList with
  | '-' :: '-' :: cs => spelled allowed cs
  | '-' :: c :: cs => letters allowed (c :: cs)
  | _ => ([.operand arg], none)

/-- **What the arguments stand for**, from left to right. -/
def scan (allowed : List Switch) : Option Switch → List String → List Item
  | none, [] => []
  | some _, [] => [.bad]
  | some s, arg :: args =>
    if isDashed arg then [.bad] else .value s arg :: scan allowed none args
  | none, arg :: args =>
    if arg = "--" then args.map .operand
    else (classify allowed arg).1
      ++ scan allowed (classify allowed arg).2 args

/-! ## From items to commands -/

/-- **An unsigned word**: digits, with a plus in front of them or not. -/
def word? (text : String) : Option UInt64 :=
  let digits := match text.toList with
    | '+' :: cs => cs
    | cs => cs
  if digits ≠ [] ∧ digits.all Char.isDigit
      ∧ ofDigits 10 digits < 2 ^ (64 : Nat) then
    some (UInt64.ofNat (ofDigits 10 digits))
  else none

/-- **Why the arguments come to an early end.** -/
inductive Stop where
  /-- Something is wrong with them. -/
  | usage
  /-- The version was asked for. -/
  | version
  /-- Help was asked for. -/
  | help
  deriving DecidableEq, Repr

/-- What was found among the arguments of a command. -/
structure Found where
  /-- The program file. -/
  program : Option String
  /-- The options without a value. -/
  switches : List Switch
  /-- The greatest number of ticks. -/
  maxTicks : Option UInt64
  /-- The settings file. -/
  config : Option String
  /-- The delay. -/
  delay : Option UInt64

/-- Nothing found. -/
def Found.nothing : Found := ⟨none, [], none, none, none⟩

/-- A word for an option that has none yet. -/
def onceWord (present : Option UInt64) (text : String)
    (put : UInt64 → Found) : Except Stop Found :=
  match present, word? text with
  | none, some n => .ok (put n)
  | _, _ => .error .usage

/-- **Takes in an item**, for a command with a program file or without
one. -/
def Found.take (hasProgram : Bool) (f : Found) : Item → Except Stop Found
  | .bad => .error .usage
  | .switch .version => .error .version
  | .switch .help => .error .help
  | .switch s =>
    if s ∈ f.switches then .error .usage
    else .ok { f with switches := s :: f.switches }
  | .operand text =>
    if hasProgram ∧ f.program = none then
      .ok { f with program := some text }
    else .error .usage
  | .value .maxTicks text =>
    onceWord f.maxTicks text fun n => { f with maxTicks := some n }
  | .value .delay text =>
    onceWord f.delay text fun n => { f with delay := some n }
  | .value _ text =>
    match f.config with
    | some _ => .error .usage
    | none => .ok { f with config := some text }

/-- What is found among the arguments of a command with certain options. -/
def collect (hasProgram : Bool) (allowed : List Switch)
    (args : List String) : Except Stop Found :=
  (scan allowed none args).foldlM (Found.take hasProgram) .nothing

/-- Where the settings of a machine come from. -/
structure MachineOptions where
  /-- The settings file, if one is named. -/
  config : Option String
  /-- The delay, if one is given. -/
  delay : Option UInt64
  deriving DecidableEq, Repr

/-- **How a program is to be run.** -/
structure RunOptions where
  /-- The program file. -/
  program : String
  /-- The greatest number of ticks. -/
  maxTicks : UInt64
  /-- Whether each executed instruction is printed. -/
  trace : Bool
  /-- Whether the final state is printed as JSON. -/
  json : Bool
  /-- Whether the delay is waited between ticks. -/
  realtime : Bool
  /-- Where the settings come from. -/
  machine : MachineOptions
  deriving DecidableEq, Repr

/-- **A command.** -/
inductive Command where
  /-- No command was named. -/
  | welcome
  /-- Show the version. -/
  | version
  /-- Show the commands. -/
  | help
  /-- Run a program. -/
  | run (options : RunOptions)
  /-- Debug a program. -/
  | debug (program : String) (machine : MachineOptions)
  /-- Say whether a file holds a program. -/
  | check (program : String)
  /-- Print the listing of a program. -/
  | list (program : String)
  /-- Describe the instruction set. -/
  | opcodes
  deriving DecidableEq, Repr

/-- How many ticks a program has unless it is told. -/
def standardMaxTicks : UInt64 := 10000

/-- The program file, which most commands need. -/
def Found.required (f : Found) : Except Stop String :=
  match f.program with
  | some path => .ok path
  | none => .error .usage

/-- **What a command is named**, help apart. -/
inductive Verb where
  | run
  | debug
  | check
  | list
  | opcodes
  deriving DecidableEq, Repr

namespace Verb

/-- Every verb. -/
def all : List Verb := [.run, .debug, .check, .list, .opcodes]

/-- How the verb is written. -/
def name : Verb → String
  | .run => "run"
  | .debug => "debug"
  | .check => "check"
  | .list => "list"
  | .opcodes => "opcodes"

/-- **The verb of a word.** -/
def ofName? (word : String) : Option Verb :=
  all.find? fun v => v.name == word

/-- Whether a program file stands behind the verb. -/
def hasProgram : Verb → Bool
  | .opcodes => false
  | _ => true

/-- The options that may stand behind the verb. -/
def allowed : Verb → List Switch
  | .run => [.verbose, .help, .trace, .json, .realtime, .maxTicks, .config,
      .delay]
  | .debug => [.verbose, .help, .config, .delay]
  | .check | .list | .opcodes => [.verbose, .help]

/-- **The command of a verb**, from what was found behind it. -/
def command (v : Verb) (f : Found) : Except Stop Command :=
  match v with
  | .run => do
    let program ← f.required
    .ok (.run ⟨program, f.maxTicks.getD standardMaxTicks,
      .trace ∈ f.switches, .json ∈ f.switches, .realtime ∈ f.switches,
      ⟨f.config, f.delay⟩⟩)
  | .debug => do
    let program ← f.required
    .ok (.debug program ⟨f.config, f.delay⟩)
  | .check => do
    let program ← f.required
    .ok (.check program)
  | .list => do
    let program ← f.required
    .ok (.list program)
  | .opcodes => .ok .opcodes

end Verb

/-- **The names of commands.** -/
def commandNames : List String := Verb.all.map Verb.name ++ ["help"]

/-- **A request for help**, on all commands or on one of them; what stands
behind it is read as the name of a command and nothing else. -/
def helpOn : List String → Stop
  | [] => .help
  | [name] => if name ∈ commandNames then .help else .usage
  | _ => .usage

/-- **A command by its name**, with the arguments behind it. -/
def named (name : String) (args : List String) : Except Stop Command :=
  if name = "help" then .error (helpOn args)
  else
    match Verb.ofName? name with
    | some v => do v.command (← collect v.hasProgram v.allowed args)
    | none => .error .usage

/-- The options in front of a command, and the command. -/
def leading (found : Found) : List String → Except Stop Command
  | [] => .ok .welcome
  | arg :: args => do
    if arg = "--" then
      if args = [] then .ok .welcome else .error .usage
    else if isDashed arg then
      let found ←
        (classify [.verbose, .version, .help] arg).1.foldlM
          (Found.take false) found
      leading found args
    else named arg args

/-- **The command of a command line**; nothing if it is not understood. -/
def parse? (args : List String) : Option Command :=
  match leading .nothing args with
  | .ok command => some command
  | .error .version => some .version
  | .error .help => some .help
  | .error .usage => none

/-- Letters may share a dash with a value behind the last. -/
example : scan [.trace, .maxTicks] none ["-tm", "3"]
    = [.switch .trace, .value .maxTicks "3"] := by decide +kernel

end RegisterMachine.CommandLine
