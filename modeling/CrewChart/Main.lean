import CrewChart.Command.Run

/-!
# The program

Runs a command on the disk.  Files are whole texts; what the system has to say about a file that
cannot be read or written is put into the words of the faults.
-/

set_option autoImplicit false

namespace CrewChart.Program

def diskFault : IO.Error → DiskFault
  | .noFileOrDirectory .. => .notFound
  | .inappropriateType .. => .isFolder
  | e => .other (toString e)

def readFile (path : String) : IO (Except DiskFault String) := do
  try
    match String.fromUTF8? (← IO.FS.readBinFile path) with
    | some text => return .ok text
    | none => return .error .notText
  catch e => return .error (diskFault e)

def writeFile (path text : String) : IO (Except DiskFault Unit) := do
  try
    IO.FS.writeBinFile path text.toUTF8
    return .ok ()
  catch e => return .error (diskFault e)

/-- The present instant is the time of change of a file that has just been made. -/
def now : IO Text.Instant := do
  let (handle, path) ← IO.FS.createTempFile
  handle.flush
  let changed := (← path.metadata).modified
  IO.FS.removeFile path
  return .ofEpochSeconds changed.sec.toNat

/-- The longest pause the system can be asked for at once, in milliseconds. -/
def longestPause : Nat := UInt32.size - 1

/-- A pause of any length, in as many parts as it takes. -/
def pause (ms : Nat) : IO Unit := do
  for _ in [:ms / longestPause] do
    IO.sleep longestPause.toUInt32
  IO.sleep (ms % longestPause).toUInt32

def world : Command.World IO where
  read := readFile
  write := writeFile
  now := now
  pause := pause

end CrewChart.Program

def main (args : List String) : IO UInt32 := do
  let delay ← IO.getEnv CrewChart.Settings.delayVariable
  let result ← CrewChart.Command.run CrewChart.Program.world delay args
  IO.print result.output
  IO.eprint result.errors
  return result.code.toUInt32
