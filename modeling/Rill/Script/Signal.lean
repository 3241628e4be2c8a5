import Rill.Text.Octets

/-!
# Signals

The signals by number and by name. Signal zero is the end of a script.
-/

namespace Rill.Script.Signal

/-- The names of the signals, by number. -/
def names : List (Nat × String) :=
  [(1, "HUP"), (2, "INT"), (3, "QUIT"), (4, "ILL"), (5, "TRAP"), (6, "ABRT"), (7, "BUS"),
    (8, "FPE"), (9, "KILL"), (10, "USR1"), (11, "SEGV"), (12, "USR2"), (13, "PIPE"), (14, "ALRM"),
    (15, "TERM"), (16, "STKFLT"), (17, "CHLD"), (18, "CONT"), (19, "STOP"), (20, "TSTP"),
    (21, "TTIN"), (22, "TTOU"), (23, "URG"), (24, "XCPU"), (25, "XFSZ"), (26, "VTALRM"),
    (27, "PROF"), (28, "WINCH"), (29, "IO"), (30, "PWR"), (31, "SYS")]

/-- The signal that nothing can be run for. -/
def kill : Nat := 9

/-- The signal that is sent if none is named. -/
def term : Nat := 15

/-- The largest number of a signal. -/
def largest : Nat := 64

/-- The name of a signal. -/
def name? (n : Nat) : Option String := (names.find? (·.1 == n)).map Prod.snd

/-- A signal in a message. -/
def shown (n : Nat) : String :=
  if n = 0 then "EXIT" else (name? n).getD (String.ofList (Nat.toDigits 10 n))

/-- The signal that a text names, by its number or by its name in letters of either case. -/
def ofText? (cs : Text.Octets) : Option Nat :=
  if !cs.isEmpty && cs.all Char.isDigit then
    let n := cs.foldl (fun n c => n * 10 + (c.toNat - '0'.toNat)) 0
    if n ≤ largest then some n else none
  else
    let upper := String.ofList (cs.map Char.toUpper)
    if upper = "EXIT" then some 0 else (names.find? (·.2 == upper)).map Prod.fst

/-- Whether a signal does nothing unless something is run for it: it tells of a child, of urgent
data or of a window, or it stops or goes on with a process. -/
def isHarmless (n : Nat) : Bool := [17, 18, 19, 20, 21, 22, 23, 28].contains n

end Rill.Script.Signal
