import ExprLang.Error.Report
import ExprLang.Grammar
import ExprLang.Typing

/-!
The command line: it reads one file, parses and checks it, and tells the type of the program or
reports the first error. It works over any console, so that a pure one can stand in for the real.
-/

namespace ExprLang.CommandLine

/-- Why a file cannot be read. -/
inductive ReadError where
  | missing
  | directory
  | notDirectory
  | notText
  | other (message : String)
deriving DecidableEq, Repr

def ReadError.message : ReadError → String
  | missing => "No such file or directory (os error 2)"
  | directory => "Is a directory (os error 21)"
  | notDirectory => "Not a directory (os error 20)"
  | notText => "stream did not contain valid UTF-8"
  | other message => message

/-- What the command line needs of its surroundings. -/
structure Console (m : Type → Type) where
  read : String → m (Except ReadError ByteArray)
  /-- Nanoseconds since some fixed moment. -/
  clock : m Nat
  print : String → m Unit
  complain : String → m Unit

/-- The last part of a path that names a file; a path without one names itself. -/
def fileName (path : String) : String :=
  let parts := (path.splitOn "/").filter fun part => part ≠ "" ∧ part ≠ "."
  match parts.getLast? with
  | none | some ".." => path
  | some part => part

/-- The text that a file holds. -/
def decode (bytes : ByteArray) : Except ReadError String :=
  match String.fromUTF8? bytes with
  | some text => .ok text
  | none => .error .notText

/-- A number of nanoseconds in a unit of `size` of them, a power of ten, without zeros at the
end. -/
def inUnit (nanoseconds size : Nat) (unit : String) : String :=
  let fraction := (toString (size + nanoseconds % size)).toList.drop 1
  let shown := Text.trimRight (· == '0') fraction
  toString (nanoseconds / size) ++ (if shown.isEmpty then "" else ".") ++
    String.ofList shown ++ unit

/-- A length of time in the largest unit that it fills. -/
def duration (nanoseconds : Nat) : String :=
  if nanoseconds < 1000 then inUnit nanoseconds 1 "ns"
  else if nanoseconds < 1000000 then inUnit nanoseconds 1000 "µs"
  else if nanoseconds < 1000000000 then inUnit nanoseconds 1000000 "ms"
  else inUnit nanoseconds 1000000000 "s"

variable {m : Type → Type} [Monad m]

/-- Prints how long a stage took that began at `since`. -/
def Console.tellTime (console : Console m) (label : String) (since : Nat) : m Unit := do
  console.print s!"{label} {duration ((← console.clock) - since)}\n"

def Console.refuse (console : Console m) (error : Error) (source : String) : m Nat := do
  console.print (error.report source)
  return 1

/-- Parses and checks the text of a file. The answer is the exit code. -/
def checkSource (console : Console m) (name source : String) : m Nat := do
  let start ← console.clock
  let tokens := Token.read source name
  console.tellTime "Tokenized in" start
  let parsing ← console.clock
  match Expr.ofTokens tokens name with
  | .error error => console.refuse error source
  | .ok tree =>
    console.tellTime "Parsed in" parsing
    let checking ← console.clock
    match tree.typed builtins with
    | .error error => console.refuse error source
    | .ok typed =>
      console.tellTime "Type checked in" checking
      console.tellTime "Total time:" start
      console.print s!"Type: {typed.type.render}\n"
      return 0

/-- Runs the program called `program` with the given arguments. The answer is the exit code. -/
def run (console : Console m) (program : String) (arguments : List String) : m Nat := do
  match arguments with
  | [path] =>
    match (← console.read path).bind decode with
    | .error error =>
      console.complain s!"Failed to read {path}: {error.message}\n"
      return 2
    | .ok source => checkSource console (fileName path) source
  | _ =>
    console.complain s!"Usage: {program} <file>\n"
    return 2

end ExprLang.CommandLine
