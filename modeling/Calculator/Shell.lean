import Calculator.Session
import Calculator.Text.Character

set_option autoImplicit false

namespace Calculator

/-- What the arguments ask for. -/
structure Options where
  interactive : Bool
  programmer : Bool
  mode : NumericMode
  files : List String
  deriving DecidableEq

namespace Options

def default : Options :=
  ⟨false, false, .rational, []⟩

def readMode (name : String) : Option NumericMode :=
  [NumericMode.undefined, .float, .rational].find? fun mode => mode.name = name

def readLetters (o : Options) : List Char → Option Options
  | [] => some o
  | 'i' :: rest => readLetters { o with interactive := true } rest
  | 'p' :: rest => readLetters { o with programmer := true } rest
  | _ => none

def addFiles (o : Options) (names : List String) : Options :=
  { o with files := o.files ++ names }

/-- Options and file names in any order; behind two dashes there are file names only. -/
def readFrom (o : Options) : List String → Option Options
  | [] => some o
  | "--" :: rest => some (o.addFiles rest)
  | "--interactive" :: rest => readFrom { o with interactive := true } rest
  | "--programmer" :: rest => readFrom { o with programmer := true } rest
  | "--mode" :: name :: rest => do readFrom { o with mode := ← readMode name } rest
  | arg :: rest =>
    match arg.toList with
    | '-' :: '-' :: 'm' :: 'o' :: 'd' :: 'e' :: '=' :: name => do
      readFrom { o with mode := ← readMode (String.ofList name) } rest
    | '-' :: '-' :: _ => none
    | '-' :: c :: letters => do readFrom (← o.readLetters (c :: letters)) rest
    | _ => readFrom (o.addFiles [arg]) rest

/-- The options of a list of arguments, if they are understood. -/
def read (args : List String) : Option Options :=
  readFrom default args

end Options

/-- What the line editor answers to the prompt. A line comes without its end. -/
inductive Delivery where
  | line (text : String)
  /-- A line that the history of the editor does not take. -/
  | unkept (text reason : String)
  /-- There are no more lines, or the user wants no more. -/
  | ended
  | failed (reason : String)

/-- Text for the standard output and for the standard error, and whether the run has failed. -/
structure Report where
  out : String
  err : String
  failed : Bool
  deriving DecidableEq

namespace Report

def empty : Report := ⟨"", "", false⟩

def output (text : String) : Report := ⟨text, "", false⟩

def error (text : String) : Report := ⟨"", text, false⟩

/-- The run breaks off behind some output. -/
def failure (out reason : String) : Report := ⟨out, "Error: " ++ reason ++ "\n", true⟩

def append (a b : Report) : Report :=
  ⟨a.out ++ b.out, a.err ++ b.err, a.failed || b.failed⟩

end Report

namespace Shell

/-- The session of a command line. The standard output takes all that is displayed. -/
def start (o : Options) : Machine :=
  .initial o.mode o.programmer .accepting

def errorText (e : ProgramError) : String :=
  match e with
  | .syntaxError _ => e.message ++ "\n"
  | .failure f =>
    e.message ++ "\n" ++ String.join (f.trace.map fun entry => "    " ++ entry.message ++ "\n")

/-- Runs a program and reports its output and its value, or the error behind a label. -/
def runSource (fuel : Nat) (label : String) (source : Utf8.Source) (m : Machine) :
    Option (Report × Machine) :=
  match Session.eval m fuel source with
  | .ok v m' =>
    some (.output (m'.output ++ "= " ++ v.render m'.programmer ++ "\n"), m'.withoutOutput)
  | .error e m' => some (⟨m'.output, label ++ errorText e, false⟩, m'.withoutOutput)
  | .outOfFuel => none

def openError (name reason : String) : String :=
  "failed to open " ++ name ++ ": " ++ reason ++ "\n"

def runFile (fuel : Nat) (name : String) (opened : Except String Utf8.Source) (m : Machine) :
    Option (Report × Machine) :=
  match opened with
  | .error reason => some (.error (openError name reason), m)
  | .ok source => runSource fuel (name ++ ": ") source m

/-- Runs a line of input; a blank one is no program. -/
def runLine (fuel : Nat) (line : String) (m : Machine) : Option (Report × Machine) :=
  if Blank.isBlankLine line then some (.empty, m)
  else runSource fuel "" (.ofString line) m

def runFiles (fuel : Nat) (openFile : String → Except String Utf8.Source) :
    List String → Report → Machine → Option (Report × Machine)
  | [], report, m => some (report, m)
  | name :: rest, report, m => do
    let (report', m') ← runFile fuel name (openFile name) m
    if m'.exiting then some (report.append report', m')
    else runFiles fuel openFile rest (report.append report') m'

def prompt : String := "> "

/-- Whether lines of input are run after the files. -/
def prompts (o : Options) (m : Machine) : Bool :=
  !m.exiting && (o.files.isEmpty || o.interactive)

/-- Runs lines up to an exit, to the end of the input or to an error of the editor. Behind the last
delivery the input has ended. -/
def runLines (fuel : Nat) : List Delivery → Report → Machine → Option (Report × Machine)
  | [], report, m | .ended :: _, report, m => some (report.append (.output prompt), m)
  | .failed reason :: _, report, m => some (report.append (.failure prompt reason), m)
  | .unkept line reason :: rest, report, m =>
    if Blank.isBlankLine line then runLines fuel rest (report.append (.output prompt)) m
    else some (report.append (.failure prompt reason), m)
  | .line line :: rest, report, m => do
    let (report', m') ← runLine fuel line m
    let report := (report.append (.output prompt)).append report'
    if m'.exiting then some (report, m')
    else runLines fuel rest report m'

/-- Runs the lines of an editor, unless there is none for some reason. -/
def runPrompt (fuel : Nat) (editor : Except String (List Delivery)) (report : Report)
    (m : Machine) : Option (Report × Machine) :=
  match editor with
  | .error reason => some (report.append (.failure "" reason), m)
  | .ok deliveries => runLines fuel deliveries report m

/-- A whole run of the command line on files and on what its line editor delivers. -/
def run (fuel : Nat) (o : Options) (openFile : String → Except String Utf8.Source)
    (editor : Except String (List Delivery)) : Option (Report × Machine) := do
  let (report, m) ← runFiles fuel openFile o.files .empty (start o)
  if prompts o m then runPrompt fuel editor report m
  else some (report, m)

end Shell

end Calculator
