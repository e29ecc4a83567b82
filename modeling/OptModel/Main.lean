import OptModel.CommandLine

/-!
# The program

Reads the file, keeps the time and prints, as `CommandLine.run` says.
-/

open OptModel

/-- Why the operating system did not give the bytes of a file. -/
def fileFaultOf : IO.Error → FileFault
  | .noFileOrDirectory .. => .notFound
  | .inappropriateType _ code _ =>
    if code = 21 then .isDirectory else if code = 20 then .notDirectory
    else .other "Invalid argument (os error 22)"
  | error => .other (toString error)

/-- The bytes of the file at `path`. -/
def readBytes (path : String) : IO (Except FileFault ByteArray) := do
  try
    pure (.ok (← IO.FS.readBinFile path))
  catch error =>
    pure (.error (fileFaultOf error))

/-- The command line. -/
def main (arguments : List String) : IO UInt32 := do
  let start ← IO.monoNanosNow
  let held ← match CommandLine.Invocation.ofArguments? arguments with
    | some invocation => readBytes invocation.modelPath
    | none => pure (.error .notFound)
  let answer ← IO.lazyPure fun _ => CommandLine.answer .default (fun _ => held) arguments
  let stop ← IO.monoNanosNow
  let seconds := Binary64.ofRat (mkRat (stop - start) 1000000000)
  let printed := CommandLine.transcript seconds true answer
  if let some complaint := printed.complaint then
    IO.eprint complaint
  try
    IO.print printed.output
    (← IO.getStdout).flush
  catch _ =>
    pure ()
  pure printed.exitCode.toUInt32
