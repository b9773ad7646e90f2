import Notebook.CommandLine.Outcome

/-! The command line program. -/
namespace Notebook.Main
open CommandLine

def visit (files : FileTree) (place : Place) : IO FileTree := do
  try
    return files.put place (← IO.FS.readBinFile (Workspace.absolute place))
  catch
    | .inappropriateType .. => return { files with directories := place :: files.directories }
    | _ => return files

def usage (program : String) : String :=
  "Compile annotated markdown into reactive notebook modules\n\n" ++
  "Usage: " ++ program ++ " [-v] compile <DOCUMENT> [--root <ROOT>] [--owner <OWNER>]\n" ++
  "         [--repo <REPO>] [--ref <REF>] [-o <OUTPUT>] [--config <CONFIG>]\n" ++
  "         [--define-prefix <PREFIX>] [--base-url <URL>]\n" ++
  "       " ++ program ++ " [-v] chunks <DOCUMENT>\n"

def milliseconds (micros : Nat) : String :=
  let hundredths := (micros + 5) / 10
  let places := toString (hundredths % 100)
  toString (hundredths / 100) ++ "." ++ (if places.length < 2 then "0" else "") ++ places ++ "ms"

def about : About where
  usage := usage "notebook"
  version := "notebook 0.1.0\n"

/-- The outcome of a call, with the workspace that it needs: as long as the call looks at places
that have not been visited, they are visited and the call is repeated. -/
partial def explore (args : List String) (visited : List Place) (w : Workspace) :
    IO (Workspace × Outcome) := do
  let outcome := outcome about w args
  let places := (outcome.paths.flatMap w.along).eraseDups.filter (!visited.contains ·)
  if places.isEmpty then return (w, outcome)
  else explore args (visited ++ places) { w with files := ← places.foldlM visit w.files }

def save (w : Workspace) (outcome : Outcome) : IO Unit :=
  outcome.world.reports.forM fun
    | .compiled _ output _ =>
      match w.target output with
      | .ok place => IO.FS.writeBinFile output ((outcome.files.file? place).getD .empty)
      | .error _ => pure ()
    | _ => pure ()

end Notebook.Main

open Notebook Main CommandLine in
def main (args : List String) : IO UInt32 := do
  let start ← IO.monoNanosNow
  let path := toString (← IO.FS.realPath (← IO.currentDir))
  let directory := (FileTree.parts path).filter (· != "")
  let (w, outcome) ← explore args [] ⟨directory, {}⟩
  save w outcome
  let elapsed := milliseconds (((← IO.monoNanosNow) - start) / 1000)
  IO.print outcome.stdout
  IO.eprint (outcome.stderr elapsed)
  return outcome.status.toUInt32
