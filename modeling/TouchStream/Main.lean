import TouchStream.Replay

/-!
# The replay program

Reads the files that the arguments name and prints the lines of the run.
-/

namespace TouchStream.Replay

/-- What is found at a path. -/
def stateOfPath (path : String) : IO FileState := do
  try
    return .file (← IO.FS.readBinFile path)
  catch
    | .noFileOrDirectory .. => return .absent
    | _ => return .unreadable

end TouchStream.Replay

open TouchStream in
/-- Replays the recording in one file with the configuration in another. -/
def main (args : List String) : IO UInt32 := do
  let states ← args.mapM fun path => do return (path, ← Replay.stateOfPath path)
  match Replay.run (fun path => (states.lookup path).getD .absent) args with
  | .ok lines =>
    lines.forM IO.println
    return 0
  | .error failure =>
    IO.eprintln ("Error: " ++ failure.message)
    return 1
