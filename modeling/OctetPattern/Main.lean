import OctetPattern.Command

/-!
# The program

Writes what a command leaves behind to the two output streams.
-/

def main (arguments : List String) : IO UInt32 := do
  let output := (OctetPattern.Command.ofArguments arguments).output
  (← IO.getStdout).putStr output.out
  (← IO.getStderr).putStr output.err
  return output.code.toUInt32
