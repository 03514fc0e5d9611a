/-
What a command line asks for. There are four actions, each with switches of
its own, and three switches that may stand before or behind the action's name.
A command line that does not ask for anything sensible is refused as a whole.
-/
import EventScript.Command.Arguments
import EventScript.Listing
import EventScript.Recovery.Session

namespace EventScript.Command

/-- How a disassembled script is written. -/
inductive Format where
  | text
  | json
  | summary
  deriving DecidableEq, Repr

/-- What the program can do. -/
inductive Action where
  /-- Disassembles an image. -/
  | disasm (input : String) (out : Option String) (format : Format)
      (options : Recovery.Options) (listing : Listing)
  /-- Assembles a document. -/
  | compile (input out : String)
  /-- Checks that images survive disassembly and assembly. -/
  | roundtrip (files : List String) (options : Recovery.Options)
  /-- Does so for every file under a directory, writing listings. -/
  | batch (input : String) (out : Option String) (options : Recovery.Options)
      (listing : Listing)
  deriving DecidableEq, Repr

/-- An action and what goes with each of them. -/
structure Job where
  action : Action
  /-- The document that holds the call catalogue. -/
  catalogue : Option String
  quiet : Bool
  deriving DecidableEq, Repr

/-- What a command line asks for. -/
inductive Request where
  | refused
  | version
  | help
  | run (job : Job)
  deriving DecidableEq, Repr

/-- The name of the switch, and of the action, that asks for help. -/
def helpName : String := "help"

/-- The name of the switch that asks for the version. -/
def versionName : String := "version"

/-- A path must not be empty. -/
def isPath (text : String) : Bool := text != ""

/-- An address, in hexadecimal behind `0x`, else in decimal. -/
def address? (text : String) : Option Nat :=
  match text.toList with
  | '0' :: 'x' :: digits => Text.unsigned? 16 0x100000000 digits
  | '0' :: 'X' :: digits => Text.unsigned? 16 0x100000000 digits
  | digits => Text.unsigned? 10 0x100000000 digits

/-- The recovery options of a preset. -/
def preset? : String → Option Recovery.Options
  | "normal" => some {}
  | "fast" => some .fast
  | "thorough" => some .thorough
  | _ => none

/-- The format with a name. -/
def format? : String → Option Format
  | "text" => some .text
  | "json" => some .json
  | "summary" => some .summary
  | _ => none

/-! ## Switches -/

/-- The switches that may stand anywhere. -/
def globalSwitches : List Switch := [
  { name := "meta", letter := some 'm', accepts := some isPath },
  { name := "verbose", letter := some 'v' },
  { name := "quiet", letter := some 'q' },
  { name := helpName, letter := some 'h', settles := true }]

/-- The switch that names the output. -/
def outSwitch : Switch := { name := "out", letter := some 'o', accepts := some isPath }

/-- The switch that names the format. -/
def formatSwitch : Switch :=
  { name := "format", letter := some 'f', accepts := some fun text => (format? text).isSome }

/-- The switches that steer recovery. -/
def analysisSwitches : List Switch := [
  { name := "mode", accepts := some fun text => (preset? text).isSome },
  { name := "branch", letter := some 'b', accepts := some fun text => (address? text).isSome,
    repeatable := true }]

/-- The switches that shape a listing. -/
def listingSwitches : List Switch := [{ name := "strip-names" }, { name := "strip-comments" }]

/-- What may stand before the action's name. -/
def leadingGrammar : Grammar where
  switches := { name := versionName, letter := some 'V', settles := true } :: globalSwitches
  plainRule := .first
  acceptsPlain := fun _ => true

/-- What may stand behind an action's name, given its own switches. -/
def actionGrammar (switches : List Switch) (plainRule : PlainRule) : Grammar where
  switches := switches ++ globalSwitches
  plainRule
  acceptsPlain := isPath

/-! ## Actions -/

/-- The recovery options that were given. -/
def options (given : Given) : Recovery.Options :=
  let base := ((given.value? "mode").bind preset?).getD {}
  { base with extraBranches := base.extraBranches ++ (given.values "branch").filterMap address? }

/-- The listing that was asked for. -/
def listing (given : Given) : Listing := ⟨given.has "strip-names", given.has "strip-comments"⟩

/-- An action's arguments, and how it is made of what was given. -/
def actionNamed? : String → Option (Grammar × (Given → Option Action))
  | "disasm" =>
    let switches := outSwitch :: formatSwitch :: (analysisSwitches ++ listingSwitches)
    some (actionGrammar switches (.atMost 1), fun given => do
      let input ← given.plain.head?
      let format := ((given.value? "format").bind format?).getD .text
      some (.disasm input (given.value? "out") format (options given) (listing given)))
  | "compile" =>
    some (actionGrammar [outSwitch] (.atMost 1), fun given => do
      some (.compile (← given.plain.head?) (← given.value? "out")))
  | "roundtrip" =>
    some (actionGrammar analysisSwitches .any, fun given =>
      if given.plain.isEmpty then none else some (.roundtrip given.plain (options given)))
  | "batch" =>
    let switches := outSwitch :: (analysisSwitches ++ listingSwitches)
    some (actionGrammar switches (.atMost 1), fun given => do
      let input ← given.plain.head?
      some (.batch input (given.value? "out") (options given) (listing given)))
  | _ => none

/-- The catalogue's path: the one behind the action's name, else the one before
it, else the environment's, which has to be sound unless both are given. -/
def cataloguePath? (environment : Option String) (leading given : Given) :
    Option (Option String) :=
  let before := leading.value? "meta"
  let behind := given.value? "meta"
  if !environment.all isPath && (before.isNone || behind.isNone) then none
  else some (behind <|> before <|> environment)

/-- What is asked for by a switch that settles it. -/
def settledRequest (name : String) : Request := if name = versionName then .version else .help

/-- What the arguments behind the action that asks for help ask for: help, which
there is for the program and for each action. -/
def requestHelp : List String → Request
  | [] => .help
  | [name] => if (actionNamed? name).isSome || name = helpName then .help else .refused
  | _ => .refused

/-- What the arguments behind an action's name ask for. -/
def requestAction (environment : Option String) (leading : Given) (name : String)
    (arguments : List String) : Request :=
  match actionNamed? name with
  | none => if name = helpName then requestHelp arguments else .refused
  | some (grammar, make?) =>
    match readArguments grammar none {} arguments with
    | .refused => .refused
    | .settled name => settledRequest name
    | .complete given _ =>
      match make? given, cataloguePath? environment leading given with
      | some action, some catalogue =>
        .run ⟨action, catalogue, leading.has "quiet" || given.has "quiet"⟩
      | _, _ => .refused

/-- What a command line asks for; the environment may name a catalogue. -/
def request (environment : Option String) (arguments : List String) : Request :=
  match readArguments leadingGrammar none {} arguments with
  | .refused | .complete _ [] => .refused
  | .settled name => settledRequest name
  | .complete leading (name :: arguments) => requestAction environment leading name arguments

end EventScript.Command
