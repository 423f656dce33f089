import Calculator.Shell

set_option autoImplicit false

namespace Calculator.Main

def fuel : Nat := 1152921504606846976

def write (report : Report) : IO Unit := do
  let out ← IO.getStdout
  out.putStr report.out
  out.flush
  (← IO.getStderr).putStr report.err

def openFile (name : String) : IO (Except String Utf8.Source) := do
  match ← (IO.FS.Handle.mk name .read).toBaseIO with
  | .error e => return .error (toString e)
  | .ok handle =>
    match ← handle.readBinToEnd.toBaseIO with
    | .ok bytes => return .ok (.ofBytes bytes.toList)
    | .error _ => return .ok ⟨[], some .directory⟩

/-- A line without the line feed at its end and a carriage return before that. -/
def withoutEnd (line : String) : String :=
  match line.toList.reverse with
  | '\n' :: '\r' :: rest | '\n' :: rest => String.ofList rest.reverse
  | _ => line

def readLine : IO Delivery := do
  match ← (← IO.getStdin).getLine.toBaseIO with
  | .error e => return .failed (toString e)
  | .ok line => return if line.isEmpty then .ended else .line (withoutEnd line)

def runFiles (m : Machine) : List String → IO Machine
  | [] => return m
  | name :: rest => do
    match Shell.runFile fuel name (← openFile name) m with
    | none => return m
    | some (report, m') =>
      write report
      if m'.exiting then return m' else runFiles m' rest

partial def runLines (m : Machine) : IO UInt32 := do
  write (.output Shell.prompt)
  match ← readLine with
  | .line line =>
    match Shell.runLine fuel line m with
    | none => return 0
    | some (report, m') =>
      write report
      if m'.exiting then return 0 else runLines m'
  | .unkept _ reason | .failed reason =>
    write (.failure "" reason)
    return 1
  | .ended => return 0

end Calculator.Main

open Calculator in
def main (args : List String) : IO UInt32 := do
  match Options.read args with
  | none =>
    (← IO.getStderr).putStrLn "unknown arguments"
    return 2
  | some options =>
    let m ← Main.runFiles (Shell.start options) options.files
    if Shell.prompts options m then Main.runLines m else return 0
