import SeismicStream.CommandLine

open SeismicStream

/-- The bytes of a file, or why there are none. -/
def readContents (path : String) : IO (Except FileError Bytes) := do
  try
    return .ok (← IO.FS.readBinFile path).data.toList
  catch
    | .noFileOrDirectory .. => return .error .notFound
    | e => return .error (.other (toString e))

def main (args : List String) : IO UInt32 := do
  let contents ← match (CommandLine.parse false args).bind Command.file? with
    | some path => readContents path
    | none => pure (.error .notFound)
  let outcome := CommandLine.run args fun _ => contents
  (← IO.getStdout).putStr outcome.stdout
  for line in outcome.stderr do
    (← IO.getStderr).putStrLn line
  return outcome.exit
