import Statechart.Cli.Session

namespace Statechart.Cli

partial def readAll (s : IO.FS.Stream) (bytes : ByteArray) : IO ByteArray := do
  let more ← s.read 65536
  if more.isEmpty then return bytes
  readAll s (bytes ++ more)

def attempt {α : Type} (act : IO α) : IO (Except String α) := do
  try
    return .ok (← act)
  catch e =>
    return .error e.toString

/-- Drawing programs are not started from here. -/
def Session.perform : Session → IO UInt32
  | .exit code => return code.toUInt32
  | .print text next => do
    let out ← IO.getStdout
    out.putStr text
    out.flush
    next.perform
  | .report text next => do
    (← IO.getStderr).putStr text
    next.perform
  | .read .standardInput next => do
    let r ← attempt (do readAll (← IO.getStdin) .empty)
    (next r).perform
  | .read (.file path) next => do
    let r ← attempt (IO.FS.readBinFile path)
    (next r).perform
  | .write path content next => do
    let r ← attempt (IO.FS.writeBinFile path content)
    (next r).perform
  | .draw _ _ _ next => (next (.notStarted "no drawing program can be started")).perform

end Statechart.Cli

def main (args : List String) : IO UInt32 := do
  let environment ← IO.getEnv "KEELSON_LOG_FORMAT"
  (Statechart.Cli.Session.ofArguments environment args).perform
