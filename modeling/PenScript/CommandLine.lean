import PenScript.Studio

/-!
# The command line

The first argument names what to do with a program file: run it, check it, list its tokens or print
its syntax tree. Options take a value, which follows as the next argument or behind an equals sign;
the short option may have it right behind its letter. Every option is given at most once. Behind two
dashes there are no options.

Errors go to the standard error, one a line, and make the exit code one; a wrong use makes it two,
and an action that is broken off has a code of its own.

## Main definitions

* `Action.parse?` — reads the arguments; `none` is a wrong use;
* `Action.perform` — performs an action;
* `perform` — reads the arguments, performs the action and gives the exit code.
-/

namespace PenScript.CommandLine

/-! ### Arguments -/

/-- How a program file is to be run. -/
structure RunArguments where
  file : String
  options : Options := {}
  background : Option String := none
  output : Option String := none
deriving DecidableEq, Repr

/-- What the command line asks for. -/
inductive Action where
  | run (args : RunArguments)
  | check (file : String)
  | tokens (file : String)
  | ast (file : String)
  | version
deriving DecidableEq, Repr

/-! #### Taking arguments apart -/

/-- The options of a run. -/
inductive Setting where
  | width
  | height
  | mode
  | delay
  | maxStatements
  | background
  | output
deriving DecidableEq, Repr

/-- The option of a long name. -/
def Setting.ofName? : String → Option Setting
  | "width" => some width
  | "height" => some height
  | "mode" => some mode
  | "delay" => some delay
  | "max-statements" => some maxStatements
  | "background" => some background
  | "output" => some output
  | _ => none

/-- Whether an argument is a value, and not an option. A single dash is a value. -/
def isValue (arg : String) : Bool :=
  match arg.toList with
  | '-' :: _ :: _ => false
  | _ => true

/-- The option that an argument names, and the value that is part of the argument. -/
def option? (arg : String) : Option (Setting × Option String) :=
  match arg.toList with
  | '-' :: '-' :: long =>
    let name := long.takeWhile (· ≠ '=')
    let value := match long.dropWhile (· ≠ '=') with
      | [] => none
      | _ :: v => some (String.ofList v)
    (Setting.ofName? (String.ofList name)).map fun s => (s, value)
  | ['-', 'o'] => some (.output, none)
  | '-' :: 'o' :: '=' :: v => some (.output, some (String.ofList v))
  | '-' :: 'o' :: v => some (.output, some (String.ofList v))
  | _ => none

/-- The files and the options that were given. -/
structure Given where
  files : List String := []
  settings : List (Setting × String) := []

/-- Takes arguments apart. No value is empty. -/
def Given.ofList? : List String → Option Given
  | [] => some {}
  | "--" :: rest => some { files := rest }
  | arg :: rest =>
    if isValue arg then (ofList? rest).map fun g => { g with files := arg :: g.files }
    else
      match option? arg with
      | none => none
      | some (s, some v) =>
        if v = "" then none
        else (ofList? rest).map fun g => { g with settings := (s, v) :: g.settings }
      | some (s, none) =>
        match rest with
        | [] => none
        | v :: rest' =>
          if isValue v ∧ v ≠ "" then
            (ofList? rest').map fun g => { g with settings := (s, v) :: g.settings }
          else none

/-! #### What is asked for -/

/-- The only file that was given. -/
def Given.file? (g : Given) : Option String :=
  match g.files with
  | [file] => if file = "" then none else some file
  | _ => none

/-- A number of 64 bits, written in decimal digits; a plus sign may stand before them. -/
def number? (s : String) : Option Nat :=
  let digits := match s.toList with
    | '+' :: ds => ds
    | ds => ds
  if digits.isEmpty ∨ ¬digits.all Char.isDigit then none
  else
    let n := Segment.decimal digits
    if n < 18446744073709551616 then some n else none

/-- Applies an option. -/
def RunArguments.apply? (a : RunArguments) : Setting × String → Option RunArguments
  | (.width, v) => (number? v).map fun width => { a with options := { a.options with width } }
  | (.height, v) => (number? v).map fun height => { a with options := { a.options with height } }
  | (.mode, v) =>
    (Mode.ofName? v).map fun mode =>
      { a with options := { a.options with pace := { a.options.pace with mode } } }
  | (.delay, v) =>
    (number? v).map fun n =>
      { a with options := { a.options with pace := { a.options.pace with delay := .ms n } } }
  | (.maxStatements, v) =>
    (number? v).map fun limit => { a with options := { a.options with limit } }
  | (.background, v) => some { a with background := some v }
  | (.output, v) => some { a with output := some v }

/-- How a program is to be run. Every option is given at most once. -/
def RunArguments.ofGiven? (g : Given) : Option RunArguments := do
  let file ← g.file?
  if (g.settings.map Prod.fst).Nodup then
    g.settings.foldlM RunArguments.apply? { file }
  else none

/-- The file of an action without options. -/
def soleFile? (args : List String) : Option String := do
  let g ← Given.ofList? args
  if g.settings.isEmpty then g.file? else none

/-- Whether an argument asks for the version: the long switch alone, or the letter of the short one
with anything behind it, since the switch is obeyed before the next letter is looked at. -/
def asksVersion (arg : String) : Bool :=
  match arg.toList with
  | '-' :: 'V' :: _ => true
  | _ => arg == "--version"

/-- What the command line asks for; `none` is a wrong use. The version is answered whatever
follows. -/
def Action.parse? : List String → Option Action
  | "run" :: args => do return .run (← RunArguments.ofGiven? (← Given.ofList? args))
  | "check" :: args => (soleFile? args).map .check
  | "tokens" :: args => (soleFile? args).map .tokens
  | "ast" :: args => (soleFile? args).map .ast
  | arg :: _ => if asksVersion arg then some .version else none
  | [] => none

/-! ### Actions -/

variable {m : Type → Type} [Monad m]

/-- The name and the version of the program. -/
def versionText : String := "walle 0.1.0\n"

/-- How an action ended: with errors, of which there may be none, or broken off in the middle. -/
inductive Ending where
  | errors (es : List Diagnostic)
  | brokenOff

/-- An ending without errors. -/
def Ending.success : Ending := .errors []

/-- Performs `next` on what was found, or gives the error. -/
def orError {α : Type} (found : Except BoundaryError α) (next : α → m Ending) : m Ending :=
  match found with
  | .ok a => next a
  | .error e => return .errors [e.diagnostic]

/-- The text `s` with blanks behind it up to a width. -/
def padded (width : Nat) (s : String) : String :=
  s ++ String.ofList (List.replicate (width - s.length) ' ')

/-- A line of the list of tokens: the place and the token. -/
def tokenLine (l : Lexeme) : String :=
  padded 8 l.loc.text ++ " " ++ l.token.text ++ "\n"

/-- Shows the updates of a run: the messages of its steps, each followed by a pause. -/
def showUpdates (host : Host m) (delay : Delay) (updates : List Update) : m Unit :=
  updates.forM fun u =>
    match u.kind, u.message with
    | .step, some message => do
      host.note (message ++ "\n")
      host.wait delay
    | .pixel, _ => host.wait delay
    | _, _ => pure ()

/-- Writes the final picture, if it is asked for. -/
def writeOutput (host : Host m) (canvas : Canvas) : Option String → m (Except BoundaryError Unit)
  | none => return .ok ()
  | some path => do
    match ← host.encode canvas with
    | .error reason => return .error (.unencodable reason)
    | .ok bytes =>
      match ← host.write path bytes with
      | .error e => return .error (.unwritable path e)
      | .ok _ =>
        host.note ("Canvas written to " ++ path ++ "\n")
        return .ok ()

/-- The background picture, if there is one. -/
def readBackground (host : Host m) : Option String → m (Except BoundaryError (Option (Array UInt8)))
  | none => return .ok none
  | some path => do
    match ← host.read path with
    | .error e => return .error (.unreadable path e)
    | .ok bytes => return .ok (some bytes)

/-- Runs the program of a text. A run that is broken off leaves no picture. -/
def runText (host : Host m) (args : RunArguments) (text : String) : m Ending :=
  match compile text with
  | .error errors => return .errors errors
  | .ok program => do
    orError (← readBackground host args.background) fun background => do
      let report ← host.execute program args.options background .never
      showUpdates host args.options.pace.delay report.updates.toList
      match report.status with
      | .asleep | .overflow => return .brokenOff
      | _ => orError (← writeOutput host report.canvas args.output) fun _ =>
          return .errors report.errors

/-- Looks for errors in a text. -/
def checkText (host : Host m) (text : String) : m Ending :=
  match compile text with
  | .error errors => return .errors errors
  | .ok _ => do
    host.note "No errors found.\n"
    return .success

/-- Lists the tokens of a text. -/
def listTokens (host : Host m) (text : String) : m Ending := do
  let lexed := lex text
  lexed.all.forM fun l => host.print (tokenLine l)
  return .errors lexed.diagnostics

/-- Prints the syntax tree of a text, as far as it could be read. -/
def printTree (host : Host m) (text : String) : m Ending := do
  let lexed := lex text
  if lexed.diagnostics.isEmpty then
    let parsed := Program.parse lexed.eof lexed.lexemes
    host.print (parsed.program.text ++ "\n")
    return .errors parsed.diagnostics
  else return .errors lexed.diagnostics

/-- Performs an action. -/
def Action.perform (host : Host m) : Action → m Ending
  | .version => do
    host.print versionText
    return .success
  | .run args => do orError (← host.readProgram args.file) (runText host args)
  | .check file => do orError (← host.readProgram file) (checkText host)
  | .tokens file => do orError (← host.readProgram file) (listTokens host)
  | .ast file => do orError (← host.readProgram file) (printTree host)

/-- How the program is to be used. -/
def usage : String :=
  "Usage: walle run|check|tokens|ast <FILE>\n"

/-- Reads the arguments, performs the action and gives the exit code. -/
def perform (host : Host m) (args : List String) : m UInt32 :=
  match Action.parse? args with
  | none => do
    host.note usage
    return 2
  | some action => do
    match ← action.perform host with
    | .errors errors =>
      errors.forM fun e => host.note (e.text ++ "\n")
      return if errors.isEmpty then 0 else 1
    | .brokenOff => return 101

end PenScript.CommandLine
