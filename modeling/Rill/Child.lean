import Rill.Program.Basic
import Rill.Value.Basic

/-!
# Running programs

The output of a program that runs is read a chunk at a time, and each chunk that holds text is one
element. A character that is cut between two chunks is carried over to the second. When the output
has ended, what is still carried is one more element, and a status other than success is a last
error. A pull that finds the interrupt set ends the program and the stream for good.
-/

namespace Rill

/-- What one attempt to read gave. -/
inductive Read where
  /-- Some bytes, of which there is at least one. -/
  | data (bytes : List UInt8)
  /-- Nothing, because a signal came. -/
  | interrupted
  /-- Nothing, because reading failed. -/
  | failed (text : String)
  deriving DecidableEq, Repr

/-- Where the output of a program comes from. -/
inductive Source where
  /-- What the next attempts give; after them the output has ended. -/
  | reads (rs : List Read)
  /-- `pending`, and then `period` for ever, in chunks. -/
  | endless (chunk : Nat) (pending period : List UInt8)
  deriving DecidableEq, Repr

/-- A program that runs. -/
structure Child where
  /-- Where its output comes from, until that has ended. -/
  source : Option Source
  /-- The bytes of a character that has not ended. -/
  carry : List UInt8
  /-- How the program ends, until that was asked for. -/
  status : Option Status
  deriving DecidableEq, Repr

namespace Source

/-- Bytes in chunks of `n`, the last of which may be shorter. -/
def chunked (n : Nat) : Nat → List UInt8 → List (List UInt8)
  | 0, _ => []
  | _ + 1, [] => []
  | fuel + 1, b :: bs => (b :: bs).take n :: chunked n fuel ((b :: bs).drop n)

/-- At least `n` bytes of `period`, which is repeated as often as that takes. -/
def fill (period : List UInt8) (n : Nat) (pending : List UInt8) : List UInt8 :=
  pending ++ (List.replicate (n / period.length + 1) period).flatten

/-- The output of a program, in chunks of at least one byte. -/
def ofOutput (chunk : Nat) : Output → Source
  | .finite bytes => .reads ((chunked (max 1 chunk) bytes.length bytes).map .data)
  | .endless front period => .endless (max 1 chunk) front period

/-- The next attempt to read, if the output has not ended. -/
def next : Source → Option (Read × Source)
  | .reads [] => none
  | .reads (r :: rs) => some (r, .reads rs)
  | .endless chunk pending period =>
    let bytes := if pending.length < chunk then fill period chunk pending else pending
    some (.data (bytes.take chunk), .endless chunk (bytes.drop chunk) period)

/-- How many attempts to read one pull may need: a character has at most four bytes. -/
def attempts : Source → Nat
  | .reads rs => rs.length + 1
  | .endless _ _ _ => 5

end Source

namespace Child

/-- A program that has just been started. -/
def start (chunk : Nat) (e : Execution) : Child :=
  { source := some (.ofOutput chunk e.output), carry := [], status := some e.status }

/-- A program that has been stopped and asked for its end. -/
def killed : Child := ⟨none, [], none⟩

/-- The end of a program whose output has ended, asked for once. -/
def reap (c : Child) : Option Item × Child :=
  match c.status with
  | none => (none, c)
  | some s =>
    (if s.isSuccess then none else some (.error (.nonZeroStatus s.code)), { c with status := none })

/-- What follows the output: the bytes that are still carried, and then the end. -/
def finish (c : Child) : Option Item × Child :=
  if c.carry.isEmpty then c.reap
  else (some (.ok (.string (Text.Utf8.lossyText c.carry))), { c with carry := [] })

/-- A pull without an interrupt: reads until there is text, or until the output has ended. -/
def pullWithin : Nat → Child → Option Item × Child
  | 0, c => (none, c)
  | fuel + 1, c =>
    match c.source with
    | none => c.finish
    | some source =>
      match source.next with
      | none => { c with source := none }.finish
      | some (.interrupted, source) => pullWithin fuel { c with source := some source }
      | some (.failed text, _) => (some (.error (.execRead text)), killed)
      | some (.data bytes, source) =>
        let (text, carry) := Text.Utf8.decode (c.carry ++ bytes)
        let c := { c with source := some source, carry := carry }
        if text.isEmpty then pullWithin fuel c
        else (some (.ok (.string (String.ofList text))), c)

/-- The next element, if there is one, and the program after it. -/
def pull (interrupt : Bool) (c : Child) : Option Item × Child :=
  if interrupt then (none, killed)
  else pullWithin ((c.source.map Source.attempts).getD 0 + 1) c

end Child

end Rill
