/-
  HeaderPeer.Main — the program: reads the command line and files, and prints what came of it.
-/
import HeaderPeer.Command.Arguments
import HeaderPeer.Command.Basic
import Std.Time.DateTime.Timestamp

open HeaderPeer

namespace HeaderPeer.Program

/-- The settings in a file, or the usual ones. -/
def readSettings : Option String → IO Settings
  | none => return .usual
  | some path => do
    let file ← IO.FS.readBinFile path
    match Settings.load file.data.toList with
    | .ok s => return s
    | .error .notText => throw (IO.userError "IO error: stream did not contain valid UTF-8")
    | .error .malformed => throw (IO.userError "Invalid config file")

/-- The command with the files that it names. -/
def readCommand : CommandWord → IO Command
  | .genesis => return .genesis
  | .decode hex => return .decode hex
  | .replay path => do
    let capture ← IO.FS.readBinFile path
    return .replay path capture.data.toList
  | .settings => return .settings

/-- The clock, in seconds since the start of 1970. -/
def readClock : IO Int64 := do
  let now ← Std.Time.Timestamp.now
  return Int64.ofInt now.toSecondsSinceUnixEpoch.val

/-- Runs the command that the arguments ask for; the result tells whether it ended well. -/
def run (arguments : Arguments) : IO Bool := do
  let settings ← readSettings arguments.settingsPath
  let settings := { settings with network := arguments.network.getD settings.network }
  let command ← readCommand arguments.command
  let now ← readClock
  let nonce ← IO.getRandomBytes 8
  let report := command.run settings now (UInt64.ofNat (Bytes.toNatLE nonce.data.toList))
  IO.print report.text
  match report.failure with
  | none => return true
  | some failure =>
    IO.eprintln ("Error: " ++ failure)
    return false

end HeaderPeer.Program

def main (words : List String) : IO UInt32 := do
  match Arguments.parse words with
  | none =>
    IO.eprintln Arguments.usage
    return 2
  | some arguments =>
    try
      return if ← Program.run arguments then 0 else 1
    catch error =>
      IO.eprintln ("Error: " ++ toString error)
      return 1
