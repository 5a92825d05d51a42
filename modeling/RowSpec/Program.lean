import RowSpec.Session
import RowSpec.Text.Backspace

/-! The program as a whole: it loads a configuration, then answers the lines of its input. -/
namespace RowSpec

structure Report where
  context : String
  causes : List String
  deriving DecidableEq, Repr

namespace Report

def indent (margin : String) (text : String) : String :=
  String.ofList (text.toList.flatMap fun c => if c = '\n' then '\n' :: margin.toList else [c])

/-- Several causes are numbered from zero, in a column five wide. -/
def causeLine (numbered : Bool) (index : Nat) (cause : String) : String :=
  if numbered then
    let number := toString index
    "\n" ++ String.ofList (List.replicate (5 - number.length) ' ') ++ number ++ ": " ++
      indent "       " cause
  else "\n    " ++ indent "    " cause

def render (r : Report) : String :=
  let numbered := r.causes.length > 1
  "Error: " ++ r.context ++ "\n\nCaused by:" ++
    String.join (r.causes.mapIdx (causeLine numbered)) ++ "\n"

end Report

namespace Program

def defaultPath : String := "schema.json"

def configPath (arguments : List String) : String := arguments.headD defaultPath

def load (path : String) (content : Except FileFault ByteArray) : Except Report Session :=
  match Config.ofFile path content with
  | .error e => .error ⟨"loading " ++ path, [e.message, e.cause]⟩
  | .ok config => match config.schema with
    | .error e => .error ⟨"building schema from " ++ path, [e.message]⟩
    | .ok schema => .ok (.ofSchema schema)

def banner (path : String) (s : Session) : String :=
  "spec-repl: " ++ toString s.schema.tables.length ++ " tables, " ++
    toString s.schema.specs.length ++ " specs from " ++ path ++ "\n" ++
    "Type :help for help, :quit to exit\n\n"

def splitLines : List UInt8 → List (List UInt8 × Bool)
  | [] => []
  | b :: bs =>
    if b = 10 then ([], true) :: splitLines bs
    else match splitLines bs with
      | [] => [([b], false)]
      | (line, ended) :: lines => (b :: line, ended) :: lines

/-- A carriage return in front of the line feed belongs to the end of the line. -/
def dropReturn (line : List Char) : List Char :=
  if line.getLast? = some '\r' then line.dropLast else line

def lineText (ended : Bool) (cs : List Char) : String :=
  String.ofList (Text.applyBackspaces (if ended then dropReturn cs else cs))

def decodeLine (line : List UInt8 × Bool) : Except FileFault String := do
  let text ← decodeText ⟨line.1.toArray⟩
  return lineText line.2 text.toList

inductive InputFault where
  | interrupted
  | unreadable (fault : FileFault)
  deriving DecidableEq, Repr

def interruptHint : String := "Use :quit or Ctrl-D to exit\n"

/-- What the session prints for the lines, and the fault that ended it, if one did. It goes on after
an interruption. -/
def converse (s : Session) : List (Except InputFault String) → String × Option FileFault
  | [] => ("", none)
  | .error .interrupted :: lines =>
    let (printed, fault) := converse s lines
    (interruptHint ++ printed, fault)
  | .error (.unreadable fault) :: _ => ("", some fault)
  | .ok line :: lines =>
    match s.hear line with
    | none => ("", none)
    | some (text, s) =>
      let (printed, fault) := converse s lines
      (text ++ printed, fault)

structure Outcome where
  output : String
  report : Option Report

def inputReport (fault : FileFault) : Report :=
  ⟨"reading input", [fault.message, fault.message]⟩

def run (arguments : List String) (readFile : String → Except FileFault ByteArray)
    (input : ByteArray) : Outcome :=
  let path := configPath arguments
  match load path (readFile path) with
  | .error report => ⟨"", some report⟩
  | .ok session =>
    let lines := (splitLines input.toList).map fun line => (decodeLine line).mapError .unreadable
    let (printed, fault) := converse session lines
    ⟨banner path session ++ printed, fault.map inputReport⟩

end Program

end RowSpec
