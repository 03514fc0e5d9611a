/-
The words of a script image and the fields packed into them.

An image is a run of 32-bit words, stored little-endian. Addresses are byte
offsets: slot `n` of an image sits at address `4 * n`. Operand words carry a
mode tag in their top byte and three parameter bytes below it; the low half
doubles as a signed displacement, counted in words.
-/

namespace EventScript

/-- A 32-bit script word. -/
abbrev Word := UInt32

namespace Word

/-- The top byte: the tag of an operand's addressing mode. -/
def tag (w : Word) : UInt8 := (w >>> 24).toUInt8

/-- First parameter byte. -/
def p0 (w : Word) : UInt8 := w.toUInt8

/-- Second parameter byte. -/
def p1 (w : Word) : UInt8 := (w >>> 8).toUInt8

/-- Third parameter byte. -/
def p2 (w : Word) : UInt8 := (w >>> 16).toUInt8

/-- The low half as a code of packed text. -/
def low (w : Word) : UInt16 := w.toUInt16

/-- The high half as a code of packed text. -/
def high (w : Word) : UInt16 := (w >>> 16).toUInt16

/-- Two halves as one word, low half first. -/
def ofHalves (low high : UInt16) : Word := low.toUInt32 ||| (high.toUInt32 <<< 16)

/-- The low half as a signed number of words. -/
def displacement (w : Word) : Int := Int.bmod (w.toNat % 0x10000 : Nat) 0x10000

/-- The whole word as a two's complement number. -/
def signed (w : Word) : Int := Int.bmod w.toNat 0x100000000

/-- The word whose two's complement reading is `n`, modulo `2 ^ 32`. -/
def ofSigned (n : Int) : Word := UInt32.ofNat (n % 0x100000000).toNat

/-- The four bytes of a word, least significant first. -/
def toBytes (w : Word) : List UInt8 := [w.p0, w.p1, w.p2, w.tag]

/-- The word with the given bytes, least significant first. -/
def ofBytes (a b c d : UInt8) : Word :=
  a.toUInt32 ||| (b.toUInt32 <<< 8) ||| (c.toUInt32 <<< 16) ||| (d.toUInt32 <<< 24)

end Word
end EventScript
