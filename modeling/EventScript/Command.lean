/-
The command line. A command reads and writes files on a disk, prints, and ends
with an exit code: zero for success, one for a failed check or a fault, two
for a command line that was refused.
-/
import EventScript.Batch
import EventScript.Command.Request
import EventScript.Document.Catalogue
import EventScript.Document.Script
import EventScript.Summary

namespace EventScript.Command

/-- The version of the program. -/
def version : String := "0.1.0"

/-- The name of the program. -/
def programName : String := "lod-script"

/-- The environment variable that names a catalogue. -/
def catalogueVariable : String := "LOD_SCRIPT_META"

/-- How the program is used. -/
def usage : String := Listing.unlines [
  "Usage: " ++ programName ++ " [OPTIONS] <COMMAND>",
  "",
  "Commands:",
  "  disasm     Disassemble a script image",
  "  compile    Compile a JSON model back to a script image",
  "  roundtrip  Check that scripts survive disassembly and recompilation unchanged",
  "  batch      Disassemble and round-trip every file under a directory"]

/-- What a command leaves behind, apart from files. -/
structure Result where
  exit : UInt8
  stdout : String
  /-- The line that reports a fault. -/
  error : Option String
  deriving DecidableEq, Repr

/-- A step of a command: it prints, and a fault ends it with a text. -/
abbrev Step (m : Type → Type) := ExceptT String (StateT String m)

namespace Step

variable {m : Type → Type} [Monad m]

/-- Prints a text. -/
def print (text : String) : Step m Unit := modify (· ++ text)

/-- Does something on the disk. -/
def act (action : m α) : Step m α := ExceptT.lift (StateT.lift action)

/-- Does a file operation in a context that a fault is reported with. -/
def file (context : String) (action : m (Except FileFault α)) : Step m α := do
  match ← act action with
  | .ok a => return a
  | .error fault => throw (context ++ ": " ++ fault.message)

/-- Takes a result in a context that a fault is reported with. -/
def lift (context : String) : Except Fault α → Step m α
  | .ok a => return a
  | .error fault => throw (context ++ ": " ++ fault.message)

end Step

section
variable {m : Type → Type} [Monad m] (disk : Disk m)

/-- The catalogue in a file. A directory can be opened, but holds no document. -/
def loadCatalogue (path : Option String) : Step m Catalogue := do
  match path with
  | none => return .empty
  | some path =>
    let parsed : Except Fault Catalogue ←
      match ← Step.act (disk.read path) with
      | .ok bytes => pure (Catalogue.ofBytes bytes)
      | .error .isADirectory => pure (.error .document)
      | .error fault => throw ("opening metadata " ++ path ++ ": " ++ fault.message)
    Step.lift ("reading metadata " ++ path) parsed

/-- The bytes in a file, and the script they are. -/
def loadImage (catalogue : Catalogue) (options : Recovery.Options) (path : String) :
    Step m (List UInt8 × Script) := do
  let bytes ← Step.file ("reading " ++ path) (disk.read path)
  let script ← Step.lift ("disassembling " ++ path) (disassembleBytes catalogue options bytes)
  return (bytes, script)

/-- A script in a format. -/
def render (format : Format) (listing : Listing) (catalogue : Catalogue) (script : Script)
    (path : String) : String :=
  match format with
  | .text => listing.render catalogue script path
  | .json => script.toDocument
  | .summary => Summary.render script path

/-- Checks one image; whether it survives. -/
def roundtripFile (catalogue : Catalogue) (options : Recovery.Options) (quiet : Bool)
    (path : String) : Step m Bool := do
  let (bytes, script) ← loadImage disk catalogue options path
  let assembled ← Step.lift ("compiling " ++ path) script.assembleBytes
  if assembled = bytes then
    if !quiet then
      Step.print (path ++ "\tok\t" ++ Text.decimal script.diagnostics.length ++ " diagnostics\n")
    return true
  else
    Step.print (path ++ "\tMISMATCH\n")
    return false

/-- The line of a batch report; a file that came out unchanged has none when quiet. -/
def reportLine (quiet : Bool) (report : Batch.Report) : String :=
  match report.outcome with
  | .identical =>
    if quiet then ""
    else report.path ++ "\tok\t" ++ Text.decimal report.words ++ " words\t" ++
      Text.decimal report.diagnostics ++ " diagnostics\n"
  | .mismatch expected actual =>
    report.path ++ "\tMISMATCH\texpected " ++ expected ++ "\tgot " ++ actual ++ "\n"
  | .failed message => report.path ++ "\tFAILED\t" ++ message ++ "\n"

/-- Does an action; whether all is well. -/
def runAction (catalogue : Catalogue) (quiet : Bool) : Action → Step m Bool
  | .disasm input out format options listing => do
    let (_, script) ← loadImage disk catalogue options input
    let text := render format listing catalogue script input
    match out with
    | some out => Step.file ("writing " ++ out) (disk.write out (Text.toBytes text))
    | none => Step.print text
    return true
  | .compile input out => do
    let bytes ← Step.file ("reading " ++ input) (disk.read input)
    let text ← match Text.ofBytes? bytes with
      | some text => pure text
      | none => throw ("reading " ++ input ++ ": " ++ FileFault.notText.message)
    let script ← Step.lift ("parsing " ++ input) (Script.ofDocument text)
    let image ← Step.lift ("compiling " ++ input) script.assembleBytes
    Step.file ("writing " ++ out) (disk.write out image)
    if !quiet then Step.print (out ++ ": " ++ Text.decimal image.length ++ " bytes\n")
    return true
  | .roundtrip files options => do
    let survived ← files.mapM (roundtripFile disk catalogue options quiet)
    return survived.all id
  | .batch input out options listing => do
    if !(← Step.act (disk.isDirectory input)) then
      throw ("'" ++ input ++ "' is not a directory")
    let options : Batch.Options := { outputDirectory := out, recovery := options, listing }
    match ← Step.act (Batch.processDirectory disk catalogue options input) with
    | .error fault => throw fault.message
    | .ok reports =>
      let failures := reports.countP (!·.isOk)
      Step.print (String.join (reports.map (reportLine quiet)))
      if !quiet then
        Step.print (Text.decimal reports.length ++ " files, " ++ Text.decimal failures ++
          " failures\n")
      return failures = 0

/-- Does a job. -/
def runJob (job : Job) : m Result := do
  let step : Step m Bool := do
    runAction disk (← loadCatalogue disk job.catalogue) job.quiet job.action
  let (outcome, stdout) ← (step.run).run ""
  match outcome with
  | .ok fine => return { exit := if fine then 0 else 1, stdout, error := none }
  | .error text =>
    return { exit := 1, stdout, error := if job.quiet then none else some ("Error: " ++ text) }

/-- Does what a command line asks for. -/
def run (environment : Option String) (arguments : List String) : m Result :=
  match request environment arguments with
  | .refused => return { exit := 2, stdout := "", error := none }
  | .version => return { exit := 0, stdout := programName ++ " " ++ version ++ "\n", error := none }
  | .help => return { exit := 0, stdout := usage, error := none }
  | .run job => runJob disk job

end
end EventScript.Command
