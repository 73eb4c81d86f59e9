import ScriptHost.CommandLine.Run
/-!
The command line tool.
-/
namespace ScriptHost.CommandLine

/-- What the system says about a file that cannot be read or written. -/
def FileError.ofSystem : IO.Error → FileError
  | .noFileOrDirectory .. => .missing
  | .inappropriateType .. => .notDirectory
  | e => .other (toString e)

/-- Access to the files of the system. -/
def systemFiles : FileAccess IO where
  read path := do
    try
      return .ok (← IO.FS.readFile path)
    catch e => return .error (.ofSystem e)
  write path text := do
    try
      IO.FS.writeFile path text
      return .ok ()
    catch e => return .error (.ofSystem e)

end ScriptHost.CommandLine

/-- Runs the tool on its arguments. -/
def main (arguments : List String) : IO UInt32 := do
  let finish ← ScriptHost.CommandLine.run ScriptHost.CommandLine.systemFiles arguments
  IO.print finish.output
  IO.eprint finish.errors
  return finish.code
