import MongoShell.CommandLine
import Std.Time.DateTime.Timestamp

/-!
The program: reads the input where there is need of it, and takes the time and a random number for
the values that constructors make up.
-/

namespace MongoShell

/-- The bytes that a stream still holds. -/
partial def readToEnd (stream : IO.FS.Stream) (read : ByteArray) : IO ByteArray := do
  let more ← stream.read 65536
  if more.isEmpty then pure read else readToEnd stream (read ++ more)

/-- Whether an invocation takes its statements from the input. -/
def readsInput : CommandLine.Invocation → Bool
  | .operations _ [] => true
  | _ => false

end MongoShell

open MongoShell in
def main (arguments : List String) : IO UInt32 := do
  let invocation := CommandLine.Invocation.ofArguments false arguments
  let now ← Std.Time.Timestamp.now
  let random ← IO.getRandomBytes 16
  let seed := random.toList.foldl (fun n byte => n * 256 + byte.toNat) 0
  let fresh (index : Nat) :=
    Fresh.ofSeed now.toMillisecondsSinceUnixEpoch.val (seed + index <<< 32)
  let bytes ← if readsInput invocation then readToEnd (← IO.getStdin) .empty else pure .empty
  match String.fromUTF8? bytes with
  | some input =>
    let output := CommandLine.run fresh input invocation
    (← IO.getStdout).putStr output.stdout
    (← IO.getStderr).putStr output.stderr
    pure (UInt32.ofNat output.code)
  | none =>
    (← IO.getStderr).putStr
      "error: failed to read statements from stdin: stream did not contain valid UTF-8\n"
    pure 1
