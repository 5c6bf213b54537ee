import ExprLang.CommandLine

/-!
The command line on the real console.
-/

namespace ExprLang.CommandLine

/-- The code under which the system refuses to read a directory. -/
def directoryCode : UInt32 := 21

def readBytes (path : String) : IO (Except ReadError ByteArray) := do
  try
    return .ok (← IO.FS.readBinFile path)
  catch
    | .noFileOrDirectory .. => return .error .missing
    | .inappropriateType _ code _ =>
      return .error (if code = directoryCode then .directory else .notDirectory)
    | error => return .error (.other (toString error))

def console : Console IO where
  read := readBytes
  clock := IO.monoNanosNow
  print text := IO.print text
  complain text := IO.eprint text

end ExprLang.CommandLine

def main (arguments : List String) : IO UInt32 := do
  let code ← ExprLang.CommandLine.run ExprLang.CommandLine.console "exprc" arguments
  return code.toUInt32
