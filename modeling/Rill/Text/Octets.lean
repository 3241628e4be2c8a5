import Rill.Text.Utf8

/-!
# Octets

Programs work on bytes, most of which are letters. A text of octets is a list of characters each of
which stands for the byte of the same number, so that letters can be written as what they are.
-/

namespace Rill.Text

/-- A text of bytes: every character is below 256. -/
abbrev Octets := List Char

namespace Octets

/-- The octets of some bytes. -/
def ofBytes (bytes : List UInt8) : Octets := bytes.map fun b => Char.ofNat b.toNat

/-- The bytes of some octets. -/
def toBytes (cs : Octets) : List UInt8 := cs.map fun c => c.toNat.toUInt8

/-- The octets of a text. -/
def ofText (s : String) : Octets := ofBytes (Utf8.encode s)

/-- The text of some octets. -/
def toText (cs : Octets) : String := Utf8.lossyText (toBytes cs)

end Octets

end Rill.Text
