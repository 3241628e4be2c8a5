/-!
# Bytes as text

Text is stored as UTF-8. Bytes that came from outside may not be UTF-8, so they are decoded with
replacement: every longest run of bytes that starts a character and cannot go on becomes one
`U+FFFD`. `decode` does this for bytes that may be cut inside a character: it returns the text and
the bytes of a character that has begun and not ended. `lossy` decodes bytes that are complete.
-/

namespace Rill.Text.Utf8

/-- The character that stands for bytes that are no UTF-8. -/
def replacement : Char := '\ufffd'

/-- What stands at the front of some bytes. -/
inductive Front where
  /-- There are no bytes. -/
  | done
  /-- A character, and how many bytes it takes. -/
  | char (c : Char) (size : Nat)
  /-- So many bytes that start no character. -/
  | bad (size : Nat)
  /-- All bytes belong to one character that has not ended. -/
  | cut
  deriving DecidableEq, Repr

/-- A byte that continues a character. -/
def isTail (b : UInt8) : Bool := 0x80 ≤ b && b ≤ 0xbf

/-- The low six bits of a byte that continues a character. -/
def tailBits (b : UInt8) : Nat := b.toNat % 64

/-- Whether `b` may follow the first byte `a` of a character of three bytes. -/
def secondOfThree (a b : UInt8) : Bool :=
  if a = 0xe0 then 0xa0 ≤ b && b ≤ 0xbf
  else if a = 0xed then 0x80 ≤ b && b ≤ 0x9f
  else isTail b

/-- Whether `b` may follow the first byte `a` of a character of four bytes. -/
def secondOfFour (a b : UInt8) : Bool :=
  if a = 0xf0 then 0x90 ≤ b && b ≤ 0xbf
  else if a = 0xf4 then 0x80 ≤ b && b ≤ 0x8f
  else isTail b

/-- The front of bytes whose first announces a character of three. -/
def frontOfThree (a : UInt8) : List UInt8 → Front
  | [] => .cut
  | b :: bs =>
    if secondOfThree a b then
      match bs with
      | [] => .cut
      | c :: _ =>
        if isTail c then
          .char (Char.ofNat (a.toNat % 16 * 4096 + tailBits b * 64 + tailBits c)) 3
        else .bad 2
    else .bad 1

/-- The front of bytes whose first announces a character of four. -/
def frontOfFour (a : UInt8) : List UInt8 → Front
  | [] => .cut
  | b :: bs =>
    if secondOfFour a b then
      match bs with
      | [] => .cut
      | c :: bs =>
        if isTail c then
          match bs with
          | [] => .cut
          | d :: _ =>
            if isTail d then
              .char (Char.ofNat
                (a.toNat % 8 * 262144 + tailBits b * 4096 + tailBits c * 64 + tailBits d)) 4
            else .bad 3
        else .bad 2
    else .bad 1

/-- What stands at the front of the bytes. -/
def front : List UInt8 → Front
  | [] => .done
  | a :: bs =>
    if a < 0x80 then .char (Char.ofNat a.toNat) 1
    else if 0xc2 ≤ a && a ≤ 0xdf then
      match bs with
      | [] => .cut
      | b :: _ =>
        if isTail b then .char (Char.ofNat (a.toNat % 32 * 64 + tailBits b)) 2 else .bad 1
    else if 0xe0 ≤ a && a ≤ 0xef then frontOfThree a bs
    else if 0xf0 ≤ a && a ≤ 0xf4 then frontOfFour a bs
    else .bad 1

theorem front_nil : front [] = .done := rfl

/-- The text of the bytes, and those at the end that are part of a character that has not ended.
Each step takes the front off; `fuel` bounds the steps, and one for each byte is enough. -/
def decodeWithin : Nat → List UInt8 → List Char × List UInt8
  | 0, bytes => ([], bytes)
  | fuel + 1, bytes =>
    match front bytes with
    | .done => ([], [])
    | .cut => ([], bytes)
    | .char c size =>
      let (text, rest) := decodeWithin fuel (bytes.drop size)
      (c :: text, rest)
    | .bad size =>
      let (text, rest) := decodeWithin fuel (bytes.drop size)
      (replacement :: text, rest)

/-- The text of the bytes, and those at the end that are part of a character that has not ended. -/
def decode (bytes : List UInt8) : List Char × List UInt8 := decodeWithin (bytes.length + 1) bytes

/-- The text of complete bytes: a character that has not ended becomes one replacement too. -/
def lossy (bytes : List UInt8) : List Char :=
  let (text, rest) := decode bytes
  if rest.isEmpty then text else text ++ [replacement]

/-- `lossy` as a string. -/
def lossyText (bytes : List UInt8) : String := String.ofList (lossy bytes)

/-- The bytes of a text. -/
def encode (s : String) : List UInt8 := s.toList.flatMap String.utf8EncodeChar

/-- The text of the bytes, if they are UTF-8. -/
def strict? (bytes : List UInt8) : Option String := String.fromUTF8? ⟨bytes.toArray⟩

end Rill.Text.Utf8
