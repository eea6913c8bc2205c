import TransferDesk.CommandLine
import TransferDesk.Session
import TransferDesk.Sheet.Loader
/-!
# The program

`main` reads the command line, loads the seed sheet and serves one connection: what comes in on
standard input is answered on standard output.
-/

namespace TransferDesk.Main

/-- The text for a user who asks for help. -/
def help : String :=
  "Line-oriented gateway for balance lookups and money transfers\n\n" ++
  "Usage: transfer-desk [OPTIONS] [HOST] [PORT]\n\n" ++
  "Options:\n" ++
  "  --accounts FILE          sheet with the starting accounts\n" ++
  "  --framing MODE           read or line\n" ++
  "  --buffer-size BYTES      bytes per read and longest line\n" ++
  "  --backlog COUNT          length of the queue of pending connections\n" ++
  "  --worker-threads COUNT   number of worker threads\n"

/-- The text for arguments that are refused. -/
def usageMessage : UsageFault → String
  | .invalidValue => "invalid value"
  | .invalidNumber => "invalid number"
  | .unknownArgument => "unknown argument"
  | .repeatedOption => "option given twice"
  | .unneededValue => "option takes no value"
  | .helpWanted => help

/-- Loads the ledger from the sheet at a path, or the empty one if there is no path. -/
def load : Option String → IO (Except Fault Ledger)
  | none => return .ok .empty
  | some path => do
    try
      let sheet ← IO.FS.readBinFile path
      return Sheet.ledger sheet.toList
    catch
      | .noFileOrDirectory .. => return .error (.fileNotFound path)
      | problem => return .error (.ioFailure (toString problem))

/-- Serves what comes in until the session ends. -/
partial def serve (input output : IO.FS.Stream) (session : Session Ledger) : IO Unit := do
  let (halt, session) := session.run
  output.write session.outbox.delivered.toByteArray
  output.flush
  match halt with
  | .idle =>
    let chunk ← input.read (USize.ofNat session.buffer.size)
    serve input output
      { session with
        inbox := { session.inbox with arrivals := [.bytes chunk.toList] }
        outbox := { session.outbox with delivered := [] } }
  | _ => return

end TransferDesk.Main

open TransferDesk in
/-- Runs the program and returns its exit code. -/
def main (arguments : List String) : IO UInt32 := do
  match Options.ofArguments arguments with
  | .error .helpWanted =>
    IO.print Main.help
    return 0
  | .error problem =>
    IO.eprintln (Main.usageMessage problem)
    return 2
  | .ok options =>
    match ← Main.load options.accounts with
    | .error problem =>
      IO.eprintln problem.message
      return 1
    | .ok ledger =>
      Main.serve (← IO.getStdin) (← IO.getStdout)
        { bank := ledger, buffer := options.settings.buffer, inbox := { ending := .silent } }
      return 0
