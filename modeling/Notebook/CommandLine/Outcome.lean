import Notebook.CommandLine.Run

/-! A call of the program: its exit status, and the world that it leaves. -/
namespace Notebook.CommandLine

structure About where
  usage : String
  version : String

def halt (about : About) : Stop → StateM World Nat
  | .usage => do
    modify (·.report (.usage about.usage))
    return 2
  | .help => do
    modify (·.print about.usage)
    return 0
  | .version => do
    modify (·.print about.version)
    return 0

/-- Ends a call whose command has succeeded or failed. -/
def conclude : Except Fault Unit → StateM World Nat
  | .ok () => return 0
  | .error fault => do
    modify (·.report (.failed fault))
    return 1

/-- Runs the program on its arguments, up to its exit status. -/
def call (about : About) (args : List String) : StateM World Nat :=
  match invocation {} args with
  | .error stop => halt about stop
  | .ok i => do conclude (← (run i).run)

structure Outcome where
  status : Nat
  world : World

def outcome (about : About) (w : Workspace) (args : List String) : Outcome :=
  let ended := (call about args).run { workspace := w }
  ⟨ended.1, ended.2⟩

namespace Outcome

def stdout (o : Outcome) : String :=
  o.world.stdout

def stderr (o : Outcome) (elapsed : String) : String :=
  String.join (o.world.reports.map (Report.text elapsed))

def files (o : Outcome) : FileTree :=
  o.world.workspace.files

def paths (o : Outcome) : List String :=
  o.world.paths

end Outcome

end Notebook.CommandLine
