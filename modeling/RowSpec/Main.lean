import RowSpec.Program

/-! The command line. -/
namespace RowSpec

def readConfigFile (path : String) : IO (Except FileFault ByteArray) := do
  try
    return .ok (← IO.FS.readBinFile path)
  catch
    | .noFileOrDirectory .. => return .error .notFound
    | _ => return .error .isDirectory

def readLine (input : IO.FS.Stream) : IO (Except FileFault String) := do
  try
    return .ok (← input.getLine)
  catch _ => return .error .notUtf8

partial def dialogue (input : IO.FS.Stream) (s : Session) : IO (Option FileFault) := do
  match ← readLine input with
  | .error fault => return some fault
  | .ok line =>
    let cs := line.toList
    if cs = [] then return none
    let ended := cs.getLast? = some '\n'
    match s.hear (Program.lineText ended (if ended then cs.dropLast else cs)) with
    | none => return none
    | some (text, s) => do
      IO.print text
      dialogue input s

def fail (report : Report) : IO UInt32 := do
  IO.eprint report.render
  return 1

end RowSpec

open RowSpec in
def main (arguments : List String) : IO UInt32 := do
  let path := Program.configPath arguments
  match Program.load path (← readConfigFile path) with
  | .error report => fail report
  | .ok session => do
    IO.print (Program.banner path session)
    match ← dialogue (← IO.getStdin) session with
    | some fault => fail (Program.inputReport fault)
    | none => return 0
