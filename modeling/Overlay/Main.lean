import Overlay.Command.Run

/-!
The program: commands on the files of the system.
-/

namespace Overlay

namespace SystemFiles

def errorOf : IO.Error → FileError
  | .noFileOrDirectory .. => .notFound
  | e => .other (toString e)

/-- What stands in a file. What can be opened but not read as text is no text. -/
def read (path : String) : IO (Except FileError (Option String)) := do
  match ← (IO.FS.Handle.mk path .read).toBaseIO with
  | .error e => return .error (errorOf e)
  | .ok handle =>
    match ← handle.readBinToEnd.toBaseIO with
    | .error _ => return .ok none
    | .ok bytes => return .ok (String.fromUTF8? bytes)

def write (path text : String) : IO (Except FileError Unit) := do
  match ← (IO.FS.writeFile path text).toBaseIO with
  | .error e => return .error (errorOf e)
  | .ok () => return .ok ()

end SystemFiles

end Overlay

def main (args : List String) : IO UInt32 := do
  let outcome ← Overlay.Command.execute ⟨Overlay.SystemFiles.read, Overlay.SystemFiles.write⟩ args
  for message in outcome.errors do
    IO.eprintln message
  return outcome.exitCode.toUInt32
