/-
Batch runs. Every file under a directory that is not empty is disassembled,
listed if there is a place for listings, assembled again and compared with
what it was.
-/
import EventScript.Assembly
import EventScript.Digest
import EventScript.Disk
import EventScript.Listing
import EventScript.Recovery
import EventScript.Text.Bytes

namespace EventScript

/-- Reads and disassembles a file. -/
def disassembleFile [Monad m] (disk : Disk m) (catalogue : Catalogue)
    (options : Recovery.Options) (path : String) : m (Except Fault Script) := do
  match ← disk.read path with
  | .error fault => return .error (.file fault)
  | .ok bytes => return disassembleBytes catalogue options bytes

namespace Batch

/-- What a batch run does. -/
structure Options where
  /-- The directory that receives a listing for every file. -/
  outputDirectory : Option String := none
  recovery : Recovery.Options := {}
  listing : Listing := {}

/-- How a file came out. -/
inductive Outcome where
  /-- It was assembled to the same bytes. -/
  | identical
  /-- It was assembled to other bytes; both by their digests. -/
  | mismatch (expected actual : String)
  | failed (message : String)
  deriving DecidableEq, Repr

/-- What there is to say of one file. -/
structure Report where
  path : String
  /-- Length in words, as far as the file was disassembled. -/
  words : Nat := 0
  diagnostics : Nat := 0
  outcome : Outcome
  deriving DecidableEq, Repr

/-- Whether a file came out unchanged. -/
def Report.isOk (report : Report) : Bool := report.outcome = .identical

/-- What becomes of an image that is assembled again. -/
def compare (bytes : List UInt8) (script : Script) : Outcome :=
  match script.assembleBytes with
  | .error fault => .failed fault.message
  | .ok assembled =>
    if assembled = bytes then .identical
    else .mismatch (Digest.sha256 bytes) (Digest.sha256 assembled)

/-- The file that receives the listing of the file with the given parts. -/
def listingPath (directory : String) (parts : List String) : String :=
  Path.join directory ("/".intercalate parts) ++ ".txt"

/-- Writes a listing, making the directories it lies in. -/
def writeListing [Monad m] (disk : Disk m) (target text : String) :
    m (Except FileFault Unit) := do
  match ← disk.makeDirectories (Path.enclosing target) with
  | .error fault => return .error fault
  | .ok () => disk.write target (Text.toBytes text)

/-- Processes the file that lies under `root` at the given parts. -/
def processFile [Monad m] (disk : Disk m) (catalogue : Catalogue) (options : Options)
    (root : String) (parts : List String) : m Report := do
  let path := Path.joinParts root parts
  match ← disk.read path with
  | .error fault => return { path, outcome := .failed (Fault.file fault).message }
  | .ok bytes =>
    match disassembleBytes catalogue options.recovery bytes with
    | .error fault => return { path, outcome := .failed fault.message }
    | .ok script =>
      let report outcome : Report :=
        { path, words := script.size, diagnostics := script.diagnostics.length, outcome }
      match options.outputDirectory with
      | none => return report (compare bytes script)
      | some directory =>
        let text := options.listing.render catalogue script ("/".intercalate parts)
        match ← writeListing disk (listingPath directory parts) text with
        | .error fault => return report (.failed (Fault.file fault).message)
        | .ok () => return report (compare bytes script)

/-- Processes every file under `root` that is not empty, in the order of their paths. -/
def processDirectory [Monad m] (disk : Disk m) (catalogue : Catalogue) (options : Options)
    (root : String) : m (Except Fault (List Report)) := do
  match ← disk.filesUnder root with
  | .error fault => return .error (.file fault)
  | .ok files =>
    let reports ← files.mapM (processFile disk catalogue options root)
    return .ok reports

end Batch
end EventScript
