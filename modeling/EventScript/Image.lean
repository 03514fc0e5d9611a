/-
Script images: the words of a script, and the little-endian bytes they are
stored as. Bytes become words only if they come in whole fours, and reading
undoes writing.
-/
import EventScript.Fault
import EventScript.Machine.Header
import EventScript.Word

namespace EventScript

/-- The words of a script. -/
abbrev Image := Array Word

namespace Image

/-- The words a run of bytes stores; up to three bytes at the end are left over. -/
def wordsOfBytes : List UInt8 → List Word
  | a :: b :: c :: d :: rest => Word.ofBytes a b c d :: wordsOfBytes rest
  | _ => []

/-- The image that is stored as the given bytes. -/
def ofBytes (bytes : List UInt8) : Except Fault Image :=
  if bytes.length % 4 = 0 then .ok (wordsOfBytes bytes).toArray
  else .error (.misalignedImage bytes.length)

/-- The bytes an image is stored as. -/
def toBytes (image : Image) : List UInt8 := image.toList.flatMap Word.toBytes

/-- Length in bytes: the first address past the image. -/
def byteLength (image : Image) : Nat := 4 * image.size

/-- The word that holds the byte at `address`, zero past the image. -/
def wordAt (image : Image) (address : Nat) : Word := image[address / 4]?.getD 0

/-- The header at an address, if one decodes there. -/
def headerAt? (image : Image) (address : Nat) : Option Header :=
  if address % 4 = 0 then image[address / 4]?.bind Header.decode else none

end Image
end EventScript
