/-
The program. It runs commands on the files of the machine, prints what they
print, and ends with their exit code.
-/
import EventScript.Command

namespace EventScript

/-- The number of a failure, which may come negated. -/
def failureNumber (code : UInt32) : UInt32 := min code (0 - code)

/-- What a failed file operation of the machine amounts to. -/
def machineFault : IO.Error → FileFault
  | .noFileOrDirectory .. => .notFound
  | .alreadyExists .. => .alreadyExists
  | .inappropriateType _ code _ =>
    if failureNumber code = 20 then .notADirectory else .isADirectory
  | .invalidArgument _ code details =>
    if failureNumber code = 36 then .nameTooLong else .system details
  | error => .system (toString error)

/-- Does something that may fail. -/
def attempt (action : IO α) : IO (Except FileFault α) := do
  try return .ok (← action)
  catch error => return .error (machineFault error)

/-- Does something on a walk, at a path. -/
def attemptAt (path : String) (action : IO α) : ExceptT FileFault IO α :=
  .mk do return (← attempt action).mapError (.walking path)

/-- The files under a directory that are not empty, by their parts from there
on; `parts` lead to the directory. -/
partial def walkFiles (root : String) (parts : List String) :
    ExceptT FileFault IO (List (List String)) := do
  let path := Path.joinParts root parts
  let here := System.mkFilePath [path]
  let found ← attemptAt path here.symlinkMetadata
  match found.type with
  | .dir =>
    let names := (← attemptAt path here.readDir).toList.map (·.fileName)
    return (← names.mapM fun name => walkFiles root (parts ++ [name])).flatten
  | .file => return if found.byteSize = 0 then [] else [parts]
  | _ => return []

/-- The files of the machine. -/
def machineDisk : Disk IO where
  read path := attempt do return (← IO.FS.readBinFile path).toList
  write path bytes := attempt (IO.FS.writeBinFile path ⟨bytes.toArray⟩)
  isDirectory path := (System.mkFilePath [path]).isDir
  makeDirectory path := attempt (IO.FS.createDir path)
  filesUnder root := do
    let found ← (walkFiles root []).run
    return found.map (·.mergeSort fun a b => (compare a b).isLE)

end EventScript

open EventScript in
/-- Runs the command line. -/
def main (arguments : List String) : IO UInt32 := do
  let environment ← IO.getEnv Command.catalogueVariable
  let result ← Command.run machineDisk environment arguments
  IO.print result.stdout
  if let some line := result.error then IO.eprintln line
  return result.exit.toUInt32
