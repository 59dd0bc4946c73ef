import PenScript.Check
import PenScript.Machine
import PenScript.Parser

/-!
# From a text to a picture

The two steps of using the language: compiling a text into a program that breaks no rule, and
executing a program on a fresh canvas or on a background picture.

What lies outside of the language is a record of actions in some monad, the `Host`: files, the two
output streams, time, chance, and reading and writing pictures. Everything that needs the world is
written over any such record, so that it can be run for real and be looked at as a function. What
can go wrong there is a `BoundaryError`.

## Main definitions

* `compile` — the program of a text, or all errors of the first stage that finds any;
* `Host` — the actions of the world around a program;
* `Host.readProgram` — the text of a program file;
* `Host.execute` — the picture of a program, how the run ended, and what it reported.
-/

namespace PenScript

/-! ### Compiling -/

/-- Goes on with `next` unless there are errors. -/
def unlessErrors {α : Type} (errors : List Diagnostic) (next : Except (List Diagnostic) α) :
    Except (List Diagnostic) α :=
  if errors.isEmpty then next else .error errors

/-- The program of a text. The text is read, parsed and checked; the first of these stages that
finds errors is the last one. -/
def compile (text : String) : Except (List Diagnostic) Program :=
  let lexed := lex text
  unlessErrors lexed.diagnostics <|
    let parsed := Program.parse lexed.eof lexed.lexemes
    unlessErrors parsed.diagnostics <|
      unlessErrors parsed.program.check.diagnostics (.ok parsed.program)

/-! ### Errors at the boundary -/

/-- The longest side of a canvas. -/
def maxCanvasSide : Nat := 4096

/-- The extension of program files. -/
def programExtension : String := "pw"

/-- Why a file cannot be read or written: it does not exist or its directory does not, it is not a
text, or something else in the words of the system. -/
inductive FileError where
  | missing
  | notText
  | other (reason : String)
deriving DecidableEq, Repr

/-- The wording of a file error. -/
def FileError.message : FileError → String
  | missing => "No such file or directory (os error 2)"
  | notText => "stream did not contain valid UTF-8"
  | other reason => reason

/-- What goes wrong between a program and the world around it. Why a picture cannot be decoded or
encoded is said in the words of who does that. -/
inductive BoundaryError where
  | canvasSize (width height : Nat)
  | undecodable (reason : String)
  | raster (e : RasterError)
  | unencodable (reason : String)
  | notProgram (path : String)
  | unreadable (path : String) (e : FileError)
  | unwritable (path : String) (e : FileError)
deriving DecidableEq, Repr

namespace BoundaryError

/-- The wording of a boundary error. -/
def message : BoundaryError → String
  | canvasSize w h =>
    "Invalid canvas size " ++ toString w ++ "x" ++ toString h
      ++ ", both sides must be between 1 and " ++ toString maxCanvasSide ++ "."
  | undecodable reason => "Cannot decode image: " ++ reason
  | raster e => e.message
  | unencodable reason => "Cannot encode image: " ++ reason
  | notProgram path =>
    "'" ++ path ++ "' is not a Wall-E program, expected a '." ++ programExtension ++ "' file."
  | unreadable path e => "Cannot read '" ++ path ++ "': " ++ e.message ++ "."
  | unwritable path e => "Cannot write '" ++ path ++ "': " ++ e.message ++ "."

/-- The error as it is shown. -/
def diagnostic (e : BoundaryError) : Diagnostic :=
  .boundary e.message

end BoundaryError

/-! ### The world around a program -/

/-- The actions of the world around a program. `print` writes to the standard output and `note` to
the standard error, `dice` gives the throws of one run, and `decode` and `encode` turn the bytes of
a picture file into a raster and a canvas into such bytes, or say why they cannot. -/
structure Host (m : Type → Type) where
  read : String → m (Except FileError (Array UInt8))
  write : String → Array UInt8 → m (Except FileError Unit)
  print : String → m Unit
  note : String → m Unit
  wait : Delay → m Unit
  dice : m (Nat → Nat)
  decode : Array UInt8 → m (Except String Raster)
  encode : Canvas → m (Except String (Array UInt8))

/-- How a program is to be executed. -/
structure Options where
  width : Nat := 64
  height : Nat := 64
  pace : Pace := {}
  limit : Nat := 10000
deriving DecidableEq, Repr

/-- How an execution ended. It has also failed if it did not even start. If it is asleep or there
was an overflow, it has not ended, and the report is never seen. -/
inductive Status where
  | completed
  | cancelled
  | failed
  | asleep
  | overflow
deriving DecidableEq, Repr

/-- What an execution gives: the canvas at the end, how the execution ended, what went wrong, and
what was reported, the oldest update first. There always is a canvas. -/
structure Report where
  canvas : Canvas
  status : Status
  errors : List Diagnostic
  updates : Array Update

/-- The white canvas that stands in for one that could not be prepared. -/
def fallbackCanvas (o : Options) : Canvas :=
  .blank (min o.width maxCanvasSide) (min o.height maxCanvasSide)

/-- Executes a program on a canvas. -/
def executeOn (canvas : Canvas) (dice : Nat → Nat) (p : Program) (o : Options) (signal : Signal) :
    Report :=
  let (outcome, m) := Machine.run dice p o.limit { canvas, reporter := { pace := o.pace, signal } }
  let (status, errors) := match outcome with
    | .completed => (Status.completed, [])
    | .cancelled => (Status.cancelled, [])
    | .failed f => (Status.failed, [f.diagnostic])
    | .asleep => (Status.asleep, [])
    | .overflow => (Status.overflow, [])
  ⟨m.canvas, status, errors, m.reporter.log⟩

/-- The report of an execution that did not start. -/
def notExecuted (e : BoundaryError) (o : Options) (signal : Signal) : Report :=
  let canvas := fallbackCanvas o
  let errors := [e.diagnostic]
  ⟨canvas, .failed, errors, (Reporter.fail { pace := o.pace, signal } canvas errors).log⟩

namespace Host

variable {m : Type → Type} [Monad m]

/-- The text of a program file. Only files with the extension of programs are read. -/
def readProgram (host : Host m) (path : String) : m (Except BoundaryError String) := do
  if Path.extension? path ≠ some programExtension then
    return .error (.notProgram path)
  match ← host.read path with
  | .error e => return .error (.unreadable path e)
  | .ok bytes =>
    match String.fromUTF8? ⟨bytes⟩ with
    | some text => return .ok text
    | none => return .error (.unreadable path .notText)

/-- The picture of a file, scaled to a canvas. -/
def decodeBackground (host : Host m) (bytes : Array UInt8) (width height : Nat) :
    m (Except BoundaryError Canvas) := do
  match ← host.decode bytes with
  | .error reason => return .error (.undecodable reason)
  | .ok raster =>
    match raster.toCanvas width height with
    | .error e => return .error (.raster e)
    | .ok canvas => return .ok canvas

/-- The canvas before the first statement: white, or the background. Its size is looked at before
the background is. -/
def prepareCanvas (host : Host m) (o : Options) (background : Option (Array UInt8)) :
    m (Except BoundaryError Canvas) := do
  if 1 ≤ o.width ∧ o.width ≤ maxCanvasSide ∧ 1 ≤ o.height ∧ o.height ≤ maxCanvasSide then
    match background with
    | some bytes => host.decodeBackground bytes o.width o.height
    | none => return .ok (.blank o.width o.height)
  else return .error (.canvasSize o.width o.height)

/-- Executes a program. -/
def execute (host : Host m) (p : Program) (o : Options) (background : Option (Array UInt8))
    (signal : Signal) : m Report := do
  match ← host.prepareCanvas o background with
  | .error e => return notExecuted e o signal
  | .ok canvas => return executeOn canvas (← host.dice) p o signal

end Host

end PenScript
