/-
Faults: the conditions that leave no meaningful result. Whatever can be
recovered from locally is a diagnostic on the script instead. Each cause is a
constructor, and `message` is the one place that words them.
-/
import EventScript.Text.Numeral
import EventScript.Text.Quoted

namespace EventScript

/-- Why a file operation failed. -/
inductive FileFault where
  | notFound
  | notADirectory
  | isADirectory
  | alreadyExists
  | nameTooLong
  /-- A path may hold any character but the null character. -/
  | nullInName
  | notText
  /-- A walk over files could not go on at `path`. -/
  | walking (path : String) (cause : FileFault)
  /-- Any other failure, in the system's words. -/
  | system (words : String)
  deriving DecidableEq, Repr

/-- The system's words for a failed file operation. -/
def FileFault.message : FileFault → String
  | .notFound => "No such file or directory (os error 2)"
  | .notADirectory => "Not a directory (os error 20)"
  | .isADirectory => "Is a directory (os error 21)"
  | .alreadyExists => "File exists (os error 17)"
  | .nameTooLong => "File name too long (os error 36)"
  | .nullInName => "file name contained an unexpected NUL byte"
  | .notText => "stream did not contain valid UTF-8"
  | .walking path cause => "IO error for operation on " ++ path ++ ": " ++ cause.message
  | .system words => words

/-- Why an operation on scripts has no result. -/
inductive Fault where
  | file (cause : FileFault)
  /-- A document is malformed, or has not the shape it should. -/
  | document
  | misalignedImage (length : Nat)
  /-- The probe of a branch table found no acceptable entry. -/
  | emptyTable (address : Nat)
  /-- A pointer table without labels cannot be assembled. -/
  | emptyPointerTable (address : Nat)
  /-- Neither can a string without codes and terminator. -/
  | emptyString (address : Nat)
  | missingLabel (name : String)
  | unsetEntry (address : Nat)
  /-- A continuation slot that no entry before it covers. -/
  | orphanedSlot (address : Nat)
  | entryOverrun (address width : Nat)
  /-- A call of a method the catalogue does not describe. -/
  | unknownCall (index : UInt16) (address : Nat)
  | unsupportedMode (tag : UInt8)
  /-- A character the game font cannot show. -/
  | illegalCharacter (character : Char)
  | namelessMethod (index : Nat)
  deriving DecidableEq, Repr

namespace Fault

open Text

/-- The text a fault is reported with. -/
def message : Fault → String
  | .file cause => "IO error: " ++ cause.message
  | .document => "JSON error"
  | .misalignedImage length =>
    "Script image of " ++ decimal length ++ " bytes is not a multiple of 4"
  | .emptyTable address => "Empty table at 0x" ++ hex address
  | .emptyPointerTable address => "Empty pointer table at 0x" ++ hex address
  | .emptyString address => "Empty string at 0x" ++ hex address
  | .missingLabel name => "Couldn't find label destination " ++ name
  | .unsetEntry address => "Unset entry at 0x" ++ hex address
  | .orphanedSlot address => "Orphaned continuation slot at 0x" ++ hex address
  | .entryOverrun address width =>
    "Entry at 0x" ++ hex address ++ " needs " ++ decimal width ++
      " words but the script ends first"
  | .unknownCall index address =>
    "Unknown call " ++ decimal index.toNat ++ " at 0x" ++ hex address
  | .unsupportedMode tag => "Param type 0x" ++ hex tag.toNat ++ " not yet supported"
  | .illegalCharacter character => "Illegal char " ++ quoteChar character
  | .namelessMethod index => "Invalid metadata: method " ++ decimal index ++ " has no name"

end Fault
end EventScript
