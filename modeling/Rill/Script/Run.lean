import Rill.Script.Builtin
import Rill.Script.Redirect

/-!
# Running scripts

What the commands of a script do. A command that a script does not know itself is a program, which
is run by `Spawn`. The commands of a pipeline are run one after the other, each on all that the one
before it wrote.
-/

namespace Rill.Script

open Rill.Text (Octets)

/-- Runs a program. -/
abbrev Spawn := Program → Launch → Execution

/-- How a script goes on after a command. -/
inductive Flow where
  /-- With the next command. -/
  | next
  /-- Behind so many loops. -/
  | leave (loops : Nat)
  /-- With the next round of a loop, so many loops out. -/
  | again (loops : Nat)
  /-- Behind the call of a function. -/
  | back
  deriving DecidableEq, Repr

/-! ## Programs -/

/-- The directories in which programs are looked for if no variable says so. -/
def defaultSearchPath : String := "/usr/local/sbin:/usr/local/bin:/usr/sbin:/usr/bin:/sbin:/bin"

/-- The program that a word names, and its path. -/
def findProgram? (name : Octets) : Act (Option (String × Program)) := do
  let m ← get
  if name.contains '/' then
    let path ← Act.located name
    return (m.files.program? path).map fun p => (Text.Octets.toText name, p)
  else
    let dirs := Text.Octets.toText ((← Act.value? "PATH".toList).getD [])
    return Files.resolve? (Text.Octets.toText name) (some dirs)

/-- Why a word names no program, and the status that this leaves. -/
def whyNoProgram (name : Octets) : Act (String × Nat) := do
  if !name.contains '/' then return ("not found", 127)
  match (← get).files.source (← Act.located name) with
  | .ok _ | .error .isDirectory => return ("Permission denied", 126)
  | .error _ => return ("not found", 127)

/-- How many bytes of an output without an end are written where it is not the output of the
script. -/
def endlessPart : Nat := 0x10000

/-- Arguments without the values of options that are counts. -/
def withoutCounts : List Octets → List Octets
  | ['-', 'n'] :: _ :: args | ['-', 'c'] :: _ :: args => withoutCounts args
  | arg :: args => arg :: withoutCounts args
  | [] => []

/-- Whether a program with some arguments reads its input. -/
def readsInput (p : Program) (args : List Octets) : Bool :=
  let args := if p = .head || p = .tail then withoutCounts args else args
  (p = .cat || p = .head || p = .tail || p = .wc || p = .sh) &&
    (args.contains "/dev/stdin".toList || args.contains ['-'] ||
      args.all fun a => a.head? = some '-')

/-- Writes the output of a program, and returns its status. -/
def absorb (name : Octets) (e : Execution) : Act Nat := do
  modify fun m => { m with files := e.files }
  Act.write 2 (Text.Octets.ofBytes e.errors)
  let out := match e.output with | .finite bytes => bytes | .endless front _ => front
  let endless := match e.output with | .finite _ => false | .endless _ _ => true
  if !(← Act.isWritable 1) && (endless || !out.isEmpty) then
    let why := if (← Act.channel? 1).isNone then "Bad file descriptor" else Files.Failure.noSpace.text
    Act.write 2 (name ++ ": write error: ".toList ++ why.toList ++ ['\n'])
    return 1
  Act.write 1 (Text.Octets.ofBytes out)
  match e.output with
  | .finite _ => return e.status.code
  | .endless _ period =>
    if (← Act.channel? 1) = some (.buffer 0) then
      modify fun m => { m with endless := Text.Octets.ofBytes period }
      Act.slay e.status
    else
      let copies := List.replicate (endlessPart / (period.length + 1) + 1) period
      Act.write 1 (Text.Octets.ofBytes copies.flatten)
      return e.status.code

/-- Runs a program that has been found. -/
def runFound (spawn : Spawn) (p : Program) (name : Octets) (args : List Octets) : Act Nat := do
  let input ← if readsInput p args then Act.readAll else pure []
  absorb name (spawn p
    { name := name, args := args, vars := ← Act.exports, input := input, files := (← get).files })

/-- Runs a program. -/
def runExternal (spawn : Spawn) (name : Octets) (args : List Octets) : Act Nat := do
  match ← findProgram? name with
  | some (_, p) => runFound spawn p name args
  | none =>
    let (why, status) ← whyNoProgram name
    Act.say (name ++ ':' :: ' ' :: why.toList)
    return status

/-- What a word would run, in words or as a path. -/
def describe (wordy : Bool) (name : Octets) : Act (Option Octets) := do
  let text := String.ofList name
  let worded (cs : String) : Octets := if wordy then name ++ " is ".toList ++ cs.toList else name
  if Reader.keywords.contains text then return some (worded "a shell keyword")
  else if (Sorted.find? text (← get).functions).isSome then return some (worded "a shell function")
  else if specialCommands.contains text then return some (worded "a special shell builtin")
  else if plainCommands.contains text then return some (worded "a shell builtin")
  else
    match ← findProgram? name with
    | some (path, _) =>
      return some (if wordy then name ++ " is ".toList ++ path.toList else path.toList)
    | none => return none

/-- Says what words would run. -/
def describeAll (wordy : Bool) : List Octets → Act Nat
  | [] => return 0
  | name :: rest => do
    let found ← describe wordy name
    match found with
    | some cs => Act.write 1 (cs ++ ['\n'])
    | none => if wordy then Act.write 1 (name ++ ": not found\n".toList)
    let status ← describeAll wordy rest
    return if found.isNone then 127 else status

/-! ## Commands -/

/-- A number of loops that a command is about. -/
def loopCount (args : List Octets) : Option Nat :=
  match args with
  | [] => some 1
  | arg :: _ => (argumentNumber? arg).filter (0 < ·)

/-- Gives the variables of a command their values, and returns what they were. -/
def assignBefore (values : List (Octets × Octets)) : Act (List (String × Option Variable)) := do
  let saved ← values.mapM fun (n, _) => do pure (Act.keyOf n, ← Act.lookup? n)
  values.forM fun (n, v) => do
    Act.assign n v
    Act.adjust n fun v => { v with exported := true }
  return saved

/-- Gives variables back what they were. -/
def restore (saved : List (String × Option Variable)) : Act Unit :=
  saved.forM fun (k, v) => modify fun m =>
    match v with
    | some v => { m with vars := Sorted.insert k v m.vars }
    | none => { m with vars := m.vars.filter (·.1 != k) }

/-- Ends the script if a failure does so. -/
def checkStatus (watched : Bool) : Act Unit := do
  let m ← get
  if m.strict && !watched && m.status ≠ 0 then throw (.exited m.status)

/-- The text of a command that is shown. -/
def traceText (assignments : List (Octets × Octets)) (words : List Octets) : Octets :=
  let parts := assignments.map (fun (n, v) => n ++ '=' :: v) ++ words
  '+' :: ' ' :: [' '].intercalate parts ++ ['\n']

mutual

/-- Runs a command. `watched` says that a failure of it does not end the script. -/
def run (spawn : Spawn) : Nat → Bool → Node → Act Flow
  | 0, _, _ => Act.slay (.killed 11)
  | fuel + 1, watched, node => do
    match node with
    | .simple assignments words => runSimple spawn fuel watched assignments words []
    | .redirected (.simple assignments words) rs =>
      runSimple spawn fuel watched assignments words rs
    | .redirected node rs =>
      Act.withDescriptors do
        match ← redirectAll (substitute spawn fuel) rs with
        | .ok () => run spawn fuel watched node
        | .error note =>
          Act.say note
          Act.setStatus 2
          checkStatus watched
          return .next
    | .sequence nodes => runAll spawn fuel watched nodes
    | .pipeline nodes =>
      let status ← Act.withDescriptors (runStages spawn fuel nodes)
      Act.setStatus status.code
      checkStatus watched
      return .next
    | .negated node =>
      let flow ← run spawn fuel true node
      if flow = .next then modify fun m => { m with status := if m.status = 0 then 1 else 0 }
      return flow
    | .both first second =>
      let flow ← run spawn fuel true first
      if flow = .next && (← get).status = 0 then run spawn fuel watched second else return flow
    | .either first second =>
      let flow ← run spawn fuel true first
      if flow = .next && (← get).status ≠ 0 then run spawn fuel watched second else return flow
    | .background node =>
      modify fun m => { m with jobs := m.jobs + 1 }
      let _ ← Act.isolated do
        Act.redirect 0 (some .null)
        let _ ← run spawn fuel watched node
      Act.setStatus 0
      return .next
    | .subshell node =>
      let status ← Act.isolated do
        let _ ← run spawn fuel watched node
      Act.setStatus status.code
      checkStatus watched
      return .next
    | .choice condition body otherwise =>
      let flow ← run spawn fuel true condition
      if flow ≠ .next then return flow
      else if (← get).status = 0 then run spawn fuel watched body
      else
        Act.setStatus 0
        run spawn fuel watched otherwise
    | .loop whileFailing condition body =>
      Act.looping (runLoop spawn fuel watched whileFailing condition body 0)
    | .each name words body =>
      let values ← match words with
        | some ws => expandWords (substitute spawn fuel) ws
        | none => pure (← get).params
      Act.setStatus 0
      Act.looping (runEach spawn fuel watched name body values)
    | .select word cases =>
      let text ← wordText (substitute spawn fuel) word
      Act.setStatus 0
      runCases spawn fuel watched text cases
    | .define name body =>
      modify fun m => { m with functions := Sorted.insert (Act.keyOf name) body m.functions }
      Act.setStatus 0
      return .next

/-- Runs commands one after the other. -/
def runAll (spawn : Spawn) : Nat → Bool → List Node → Act Flow
  | 0, _, _ => Act.slay (.killed 11)
  | _ + 1, _, [] => return .next
  | fuel + 1, watched, node :: rest => do
    match ← run spawn fuel watched node with
    | .next => runAll spawn fuel watched rest
    | flow => return flow

/-- Runs the commands of a pipeline, and returns the end of the last. -/
def runStages (spawn : Spawn) : Nat → List Node → Act Status
  | 0, _ => Act.slay (.killed 11)
  | _ + 1, [] => return .exited 0
  | fuel + 1, [node] =>
    Act.isolated do
      let _ ← run spawn fuel false node
  | fuel + 1, node :: rest => do
    let b ← Act.newBuffer []
    let _ ← Act.isolated do
      Act.redirect 1 (some (.buffer b))
      let _ ← run spawn fuel false node
    Act.redirect 0 (some (.buffer b))
    runStages spawn fuel rest

/-- Runs a loop that has left a status. -/
def runLoop (spawn : Spawn) : Nat → Bool → Bool → Node → Node → Nat → Act Flow
  | 0, _, _, _, _, _ => Act.slay (.killed 11)
  | fuel + 1, watched, whileFailing, condition, body, status => do
    match ← run spawn fuel true condition with
    | .leave (n + 2) => return .leave (n + 1)
    | .leave _ => return .next
    | .again (n + 2) => return .again (n + 1)
    | .again _ => runLoop spawn fuel watched whileFailing condition body status
    | .back => return .back
    | .next =>
      if ((← get).status = 0) = whileFailing then
        Act.setStatus status
        return .next
      else
        match ← run spawn fuel watched body with
        | .leave (n + 2) => return .leave (n + 1)
        | .leave _ => return .next
        | .again (n + 2) => return .again (n + 1)
        | .back => return .back
        | .again _ | .next =>
          runLoop spawn fuel watched whileFailing condition body (← get).status

/-- Runs a command for each value. -/
def runEach (spawn : Spawn) : Nat → Bool → Octets → Node → List Octets → Act Flow
  | 0, _, _, _, _ => Act.slay (.killed 11)
  | _ + 1, _, _, _, [] => return .next
  | fuel + 1, watched, name, body, value :: rest => do
    Act.assign name value
    match ← run spawn fuel watched body with
    | .leave (n + 2) => return .leave (n + 1)
    | .leave _ => return .next
    | .again (n + 2) => return .again (n + 1)
    | .back => return .back
    | .again _ | .next => runEach spawn fuel watched name body rest

/-- Runs the command behind the first pattern that a text matches. -/
def runCases (spawn : Spawn) : Nat → Bool → Octets → List (List Octets × Node) → Act Flow
  | 0, _, _, _ => Act.slay (.killed 11)
  | _ + 1, _, _, [] => return .next
  | fuel + 1, watched, text, (patterns, body) :: rest => do
    if ← matchesAny spawn fuel text patterns then run spawn fuel watched body
    else runCases spawn fuel watched text rest

/-- Whether a text matches any pattern. -/
def matchesAny (spawn : Spawn) : Nat → Octets → List Octets → Act Bool
  | 0, _, _ => Act.slay (.killed 11)
  | _ + 1, _, [] => return false
  | fuel + 1, text, raw :: rest => do
    let p ← wordPattern (substitute spawn fuel) raw
    if matchesText p text then return true else matchesAny spawn fuel text rest

/-- What a command writes, without the ends of lines behind it. -/
def substitute (spawn : Spawn) : Nat → Octets → Act Octets
  | 0, _ => Act.slay (.killed 11)
  | fuel + 1, text => do
    let b ← Act.newBuffer []
    let status ← Act.isolated do
      Act.redirect 1 (some (.buffer b))
      let _ ← runText spawn fuel false text
    let out ← Act.drainBuffer b
    modify fun m => { m with inner := some status.code }
    return ((out.filter (· != '\x00')).reverse.dropWhile (· == '\n')).reverse

/-- Runs a text line by line. -/
def runText (spawn : Spawn) : Nat → Bool → Octets → Act Flow
  | 0, _, _ => Act.slay (.killed 11)
  | fuel + 1, watched, text => do
    let (nodes, fault) := read text
    let flow ← runAll spawn fuel watched nodes
    match flow, fault with
    | .next, some f => Act.abort f.message.toList
    | flow, _ => return flow

/-- Runs a simple command. -/
def runSimple (spawn : Spawn) :
    Nat → Bool → List (Octets × Octets) → List Octets → List Redirection → Act Flow
  | 0, _, _, _, _ => Act.slay (.killed 11)
  | fuel + 1, watched, assignments, raws, rs => do
    modify fun m => { m with inner := none }
    let words ← expandWords (substitute spawn fuel) raws
    let saved := (← get).descriptors
    let redirected ← redirectAll (substitute spawn fuel) rs
    let special := (words.head?.map fun w => specialCommands.contains (String.ofList w)).getD false
    let flow ← match redirected with
      | .error note =>
        Act.say note
        if special then throw (.exited 2)
        Act.setStatus 2
        pure .next
      | .ok () =>
        let values ← assignments.mapM fun (n, raw) => do
          pure (n, ← wordText (substitute spawn fuel) raw)
        if (← get).tracing then Act.write 2 (traceText values words)
        match words with
        | [] =>
          values.forM fun (n, v) => Act.assign n v
          modify fun m => { m with status := m.inner.getD 0 }
          pure .next
        | name :: args =>
          if special then
            values.forM fun (n, v) => Act.assign n v
            runCommand spawn fuel watched true name args
          else
            let before ← assignBefore values
            let flow ← runCommand spawn fuel watched true name args
            restore before
            pure flow
    if !(raws.isEmpty) && words = ["exec".toList] && rs ≠ [] then pure ()
    else modify fun m => { m with descriptors := saved }
    runDue spawn fuel
    if flow = .next then checkStatus watched
    return flow

/-- Runs what signals have asked for. -/
def runDue (spawn : Spawn) : Nat → Act Unit
  | 0 => Act.slay (.killed 11)
  | fuel + 1 => do
    let m ← get
    match m.due with
    | [] => return ()
    | action :: rest =>
      set { m with due := rest }
      let _ ← runText spawn fuel true action
      Act.setStatus m.status
      runDue spawn fuel

/-- Runs a command by its name, which may be that of a function if `functions`. -/
def runCommand (spawn : Spawn) : Nat → Bool → Bool → Octets → List Octets → Act Flow
  | 0, _, _, _, _ => Act.slay (.killed 11)
  | fuel + 1, watched, functions, name, args => do
    let text := String.ofList name
    let finish (n : Nat) : Act Flow := do
      Act.setStatus n
      return .next
    let known := (← get).functions
    let mayCall := functions && !specialCommands.contains text
    match if mayCall then Sorted.find? text known else none with
    | some body => runFunction spawn fuel watched body args
    | none =>
      match text with
      | "eval" =>
        Act.setStatus 0
        runText spawn fuel watched ([' '].intercalate args)
      | "." => runFile spawn fuel watched args
      | "exit" | "return" =>
        match args with
        | [] => if text = "exit" then throw (.exited (← get).status) else return .back
        | arg :: _ =>
          match argumentNumber? arg with
          | none =>
            let _ ← misused name ("Illegal number: ".toList ++ arg)
            throw (.exited 2)
          | some n =>
            Act.setStatus (n % 256)
            if text = "exit" then throw (.exited (n % 256)) else return .back
      | "break" | "continue" =>
        match loopCount args with
        | none =>
          let _ ← misused name ("Illegal number: ".toList ++ args.headD [])
          throw (.exited 2)
        | some n =>
          Act.setStatus 0
          let n := min n (← get).loops
          return if n = 0 then .next else if text = "break" then .leave n else .again n
      | "exec" =>
        match args with
        | [] => finish 0
        | cmd :: args =>
          match ← findProgram? cmd with
          | some (_, p) => throw (.exited (← runFound spawn p cmd args))
          | none =>
            let (why, status) ← whyNoProgram cmd
            Act.say ("exec: ".toList ++ cmd ++ ':' :: ' ' :: why.toList)
            throw (.exited status)
      | "command" =>
        match args with
        | [] => finish 0
        | ['-', 'v'] :: names => finish (← describeAll false (names.take 1))
        | ['-', 'V'] :: names => finish (← describeAll true (names.take 1))
        | ['-', '-'] :: cmd :: args | ['-', 'p'] :: cmd :: args | cmd :: args =>
          runCommand spawn fuel watched false cmd args
      | "type" => finish (← describeAll true args)
      | _ =>
        if specialCommands.contains text || plainCommands.contains text then
          let reply ← plainCommand name args
          if reply.refused && specialCommands.contains text then throw (.exited reply.status)
          finish reply.status
        else finish (← runExternal spawn name args)

/-- Runs a function on some arguments. -/
def runFunction (spawn : Spawn) : Nat → Bool → Node → List Octets → Act Flow
  | 0, _, _, _ => Act.slay (.killed 11)
  | fuel + 1, watched, body, args => do
    let m ← get
    set { m with params := args, depth := m.depth + 1, shadowed := [], loops := 0 }
    let flow ← run spawn fuel watched body
    restore (← get).shadowed
    modify fun after =>
      { after with
        params := m.params, depth := m.depth, shadowed := m.shadowed, loops := m.loops }
    return if flow = .back then .next else flow

/-- Runs the script in a file. -/
def runFile (spawn : Spawn) : Nat → Bool → List Octets → Act Flow
  | 0, _, _ => Act.slay (.killed 11)
  | _ + 1, _, [] => do
    Act.setStatus 0
    return .next
  | fuel + 1, watched, file :: _ => do
    let refuse (note : Octets) : Act Flow := do
      let _ ← misused ['.'] note
      throw (.exited 2)
    if !file.contains '/' then refuse (file ++ ": not found".toList)
    else
      match (← get).files.readBytes [] (← Act.located file) with
      | .error f =>
        refuse ("cannot open ".toList ++ file ++ ": ".toList ++ openFailure "No such file" f)
      | .ok bytes =>
        let flow ← runText spawn fuel watched (Text.Octets.ofBytes bytes)
        return if flow = .back then .next else flow

end

/-! ## Whole scripts -/

/-- How many steps a script may take. -/
def maxSteps : Nat := 100000

/-- Runs a script to its end, and what is to be run then. -/
def runWhole (spawn : Spawn) (text : Octets) : Act Unit := do
  let status ←
    try
      let _ ← runText spawn maxSteps false text
      let m ← get
      pure (Status.exited m.status)
    catch s => pure s
  let m ← get
  match status, m.traps.find? (·.1 == 0) with
  | .exited n, some (_, action) =>
    set { m with status := n, traps := m.traps.filter (·.1 != 0) }
    let _ ← runText spawn maxSteps true action
    throw (.exited n)
  | s, _ => throw s

/-- What a script leaves when it runs on a machine. -/
def execution (act : Act Unit) (m : Machine) : Execution :=
  let (result, after) := act.run m
  let out := Text.Octets.toBytes ((after.buffers[0]?).getD [])
  { output :=
      if after.endless.isEmpty then .finite out
      else .endless out (Text.Octets.toBytes after.endless)
    errors := Text.Octets.toBytes ((after.buffers[1]?).getD [])
    status := match result with
      | .ok () => .exited after.status
      | .error s => s
    files := after.files }

/-- The variables that a script starts with. -/
def initialVars (vars : Sorted String) : Sorted Variable :=
  let imported := vars.filterMap fun (k, v) =>
    let name := Text.Octets.ofText k
    if isName name then
      some (Act.keyOf name, ({ value := some (Text.Octets.ofText v), exported := true } : Variable))
    else none
  let own : Sorted Variable := [("IFS", ⟨some [' ', '\t', '\n'], false, false⟩),
    ("OPTIND", ⟨some ['1'], false, false⟩), ("PS1", ⟨some ['#', ' '], false, false⟩),
    ("PS2", ⟨some ['>', ' '], false, false⟩), ("PS4", ⟨some ['+', ' '], false, false⟩)]
  let path : Sorted Variable :=
    [("PATH", ⟨some (Text.Octets.ofText defaultSearchPath), false, false⟩)]
  Sorted.ofList (path ++ imported.filter (·.1 != "IFS") ++ own)

/-- What the arguments of a script program ask for. -/
structure Request where
  /-- Whether the first operand is the script itself. -/
  direct : Bool := false
  /-- Whether the script is the input. -/
  input : Bool := false
  /-- The operands. -/
  operands : List Octets := []

/-- Turns on the options among some arguments, and returns what they ask for. -/
def readRequest : Nat → Request → List Octets → Act (Except Octets Request)
  | 0, r, _ => return .ok r
  | _ + 1, r, [] => return .ok r
  | fuel + 1, r, arg :: args => do
    match arg with
    | ['-', '-'] => return .ok { r with operands := args }
    | ['-'] => return .ok { r with operands := args }
    | '-' :: '-' :: _ => return .error "Illegal option --".toList
    | ['-', 'o'] | ['+', 'o'] =>
      match args with
      | name :: args =>
        match optionLetter? name with
        | some c =>
          let _ ← setOption (arg = ['-', 'o']) c
          readRequest fuel r args
        | none => return .error ("Illegal option -o ".toList ++ name)
      | [] => return .ok r
    | sign :: c :: cs =>
      if sign = '-' || sign = '+' then
        let letters := (c :: cs).filter fun c => c != 'c' && c != 's' && c != 'l'
        match ← setOptions (sign = '-') letters with
        | some d => return .error ("Illegal option ".toList ++ [sign, d])
        | none =>
          let on := sign = '-'
          readRequest fuel { r with
            direct := if (c :: cs).contains 'c' then on else r.direct
            input := if (c :: cs).contains 's' then on else r.input } args
      else return .ok { r with operands := arg :: args }
    | arg => return .ok { r with operands := arg :: args }

/-- Ends a script program before its script begins. -/
def quit {α : Type} (note : Octets) : Act α := do
  Act.write 2 ((← get).name ++ ": 0: ".toList ++ note ++ ['\n'])
  throw (.exited 2)

/-- Does what the arguments of a script program ask for. -/
def start (spawn : Spawn) (l : Launch) : Act Unit := do
  match ← readRequest (l.args.length + 1) {} l.args with
  | .error note => quit note
  | .ok r =>
    if r.direct then
      match r.operands with
      | [] => quit "-c requires an argument".toList
      | text :: rest =>
        modify fun m => { m with name := rest.headD m.name, params := rest.drop 1 }
        runWhole spawn text
    else
      match if r.input then [] else r.operands with
      | [] =>
        modify fun m => { m with params := r.operands }
        runWhole spawn (← Act.readAll)
      | file :: params =>
        let input := Text.Octets.toBytes (← Act.readAll)
        match (← get).files.readBytes input (Text.Octets.toText file) with
        | .error f =>
          quit ("cannot open ".toList ++ file ++ ": ".toList ++ openFailure "No such file" f)
        | .ok bytes =>
          modify fun m => { m with name := file, params := params }
          runWhole spawn (Text.Octets.ofBytes bytes)

/-- Runs a script program. -/
def runShell (spawn : Spawn) (l : Launch) : Execution :=
  execution (start spawn l)
    { name := l.name
      vars := initialVars l.vars
      descriptors := [(0, .buffer 2), (1, .buffer 0), (2, .buffer 1)]
      buffers := [[], [], l.input]
      files := l.files }

end Rill.Script
