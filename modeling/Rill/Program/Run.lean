import Rill.Script.Run

/-!
# Running programs by name

What every program does with what it is given. Some run other programs, which may run others in
turn, but not without end.
-/

namespace Rill

open Rill.Text (Octets)

namespace Program

/-! ## Other variables -/

/-- The directories in which programs are looked for if no variable says so. -/
def plainSearchPath : String := "/bin:/usr/bin"

/-- The variables that some arguments set, and the arguments behind them. -/
def takeSettings : Sorted String → List Octets → Sorted String × List Octets
  | vars, [] => (vars, [])
  | vars, arg :: args =>
    match arg.dropWhile (· != '=') with
    | [] => (vars, arg :: args)
    | _ :: value =>
      let name := Text.Octets.toText (arg.takeWhile (· != '='))
      takeSettings (Sorted.insert name (Text.Octets.toText value) vars) args

/-- The options of `env`, and the arguments behind them. -/
def takeRemovals : Nat → Sorted String → List Octets → Except Octets (Sorted String × List Octets)
  | 0, vars, args => .ok (vars, args)
  | fuel + 1, vars, args =>
    match args with
    | ['-'] :: args | ['-', 'i'] :: args => takeRemovals fuel [] args
    | ['-', '-'] :: args => .ok (vars, args)
    | ['-', 'u'] :: name :: args =>
      takeRemovals fuel (vars.filter (·.1 != Text.Octets.toText name)) args
    | ('-' :: '-' :: cs) :: _ => .error ("unrecognized option ".toList ++ shownOption cs)
    | ('-' :: c :: _) :: _ => .error ("invalid option -- '".toList ++ [c, '\''])
    | args => .ok (vars, args)

/-- Runs a program with other variables, or writes the variables. -/
def runEnv (spawn : Program → Launch → Execution) (l : Launch) : Execution :=
  match takeRemovals (l.args.length + 1) l.vars l.args with
  | .error note => { l.misuse note with status := .exited 125 }
  | .ok (vars, args) =>
    let (vars, args) := takeSettings vars args
    match args with
    | [] => l.finish (vars.flatMap fun v => Text.Octets.ofText (v.1 ++ "=" ++ v.2 ++ "\n")) [] 0
    | name :: args =>
      let dirs := (Sorted.find? "PATH" vars).getD plainSearchPath
      match Files.resolve? (Text.Octets.toText name) (some dirs) with
      | some (_, p) => spawn p { l with name := name, args := args, vars := vars }
      | none =>
        match if name.contains '/' then l.files.source (Text.Octets.toText name)
          else .error .notFound with
        | .ok _ | .error .isDirectory =>
          l.finish [] [shownArgument name ++ ": Permission denied".toList] 126
        | .error f => l.finish [] [shownArgument name ++ ':' :: ' ' :: f.text.toList] 127

/-! ## All programs -/

/-- How many programs may run within each other. -/
def maxNesting : Nat := 1000

/-- Runs a program, within which so many others may run. -/
def runWithin : Nat → Program → Launch → Execution
  | 0, _, l => l.finish [] ["Resource temporarily unavailable".toList] 2
  | depth + 1, p, l =>
    match p with
    | .printf => runPrintf l
    | .sh => Script.runShell (runWithin depth) l
    | .yes => runYes l
    | .cat => runCat l
    | .echo => runEcho l
    | .succeed => l.finish [] [] 0
    | .fail => l.finish [] [] 1
    | .env => runEnv (runWithin depth) l
    | .printenv => runPrintenv l
    | .seq => runSeq l
    | .head => runHead l
    | .tail => runTail l
    | .wc => runWc l
    | .basename => runBasename l
    | .dirname => runDirname l
    | .sleep => runSleep l
    | .test => runTest l

/-- Runs a program. -/
def run (p : Program) (l : Launch) : Execution := runWithin maxNesting p l

end Program

end Rill
