import Turtle.CommandLine.Run

/-! The program itself: it runs its command line on the files of the system. -/

namespace Turtle.Main
open CommandLine

/-- The failure of a file operation in the words of the library. -/
def fileError : IO.Error → FileError
  | .noFileOrDirectory _ _ _ => .notFound
  | .inappropriateType _ code _ =>
    if code.toNat = FileError.isDirectory.describe.1 then .isDirectory else .notDirectory
  | e => .other 5 e.toString

/-- The files of the system. -/
def systemDisk : Disk IO where
  read path := do
    if path.toList.contains '\x00' then return .error .nullCharacter
    try
      return .ok (← IO.FS.readBinFile path).toList
    catch e => return .error (fileError e)
  write path content := do
    if path.toList.contains '\x00' then return .error .nullCharacter
    try
      let above := "/".intercalate (Path.components path).dropLast
      unless above.isEmpty do IO.FS.createDirAll above
      IO.FS.writeBinFile path ⟨content.toArray⟩
      return .ok ()
    catch e => return .error (fileError e)

end Turtle.Main

def main (arguments : List String) : IO UInt32 := do
  let report ← Turtle.CommandLine.run Turtle.Main.systemDisk arguments
  (← IO.getStderr).putStr report.diagnostics
  (← IO.getStdout).putStr report.output
  match report.ending with
  | .status code => return UInt32.ofNat code
  | .abort cause =>
    (← IO.getStderr).putStrLn cause.message
    return 1
