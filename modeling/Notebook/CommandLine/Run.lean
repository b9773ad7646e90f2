import Notebook.CommandLine.Arguments
import Notebook.CommandLine.Shell
import Notebook.Compile

/-! The two commands: to compile a document, and to list its chunks. -/
namespace Notebook.CommandLine
open Shell

def documentPath (root : Place) (resource : Resource) : String :=
  Workspace.stem root ++ "/" ++ resource.path

def library (w : Workspace) (root : Place) : Library where
  locate := fun _ => Library.relative
  fetch := fun _ resource =>
    match w.read (documentPath root resource) with
    | .ok text => .ok text
    | .error .notFound => .error (.notFound (documentPath root resource))
    | .error fault => .error (.io fault.message)

def configFile (w : Workspace) (path : String) : Except Error Config :=
  match w.read path with
  | .ok text => Config.ofJson text
  | .error fault => .error (.config (.unreadable path fault.message))

/-- The configuration of a compile: from a file if one is given, then changed by options. -/
def loadConfig (w : Workspace) (options : CompileOptions) : Except Error Config := do
  let config ← options.config.elim (.ok {}) (configFile w)
  let config := { config with
    defineStem := options.defineStem.getD config.defineStem
    rawBaseUrl := options.baseUrl.getD config.rawBaseUrl }
  config.validate
  return config

structure Plan where
  root : Place
  resource : Resource
  config : Config
deriving Repr, DecidableEq

def relativePath? (root place : Place) : Option String :=
  if root.isPrefixOf place && root.length < place.length then
    some (Text.joined "/" (place.drop root.length))
  else none

def find (document : String) : Shell Unit := do
  unless ← isFile document do throw (.documentNotFound document)

def plan (options : CompileOptions) : Shell Plan := do
  find options.document
  let document ← resolve options.document
  let root ← options.root.elim (pure document.dropLast) resolve
  match relativePath? root document with
  | none => throw (.outsideRoot (Workspace.absolute document) (Workspace.absolute root))
  | some path =>
    lookUp options.config.toList
    let config ← ofCompile (loadConfig (← workspace) options)
    return ⟨root, ⟨options.owner, options.repo, path, options.revision⟩, config⟩

def fetchedPath? (root : Place) : Call → Option String
  | .fetch resource => some (documentPath root resource)
  | .locate _ _ => none

/-- Compiles a document and its imports. A chain of imports longer than the number of files comes
back to a document, so it is not followed further. -/
def makeModule (verbose : Bool) (p : Plan) : Shell String := do
  let w ← workspace
  let compiler : Compiler := ⟨library w p.root, p.config⟩
  let compiled := (compiler.compileResource w.files.files.length p.resource).run.run {}
  lookUp (compiled.2.calls.filterMap (fetchedPath? p.root))
  -- The log tells what has been done, also if an error has ended it.
  report (.log (logText verbose (Workspace.stem p.root) compiled.2.notes))
  ofCompile compiled.1

def deliver (resource : Resource) (source : String) : (output : Option String) → Shell Unit
  | none => print (source ++ "\n")
  | some output => do
    write output source
    report (.compiled resource output source.utf8ByteSize)

def runCompile (verbose : Bool) (options : CompileOptions) : Shell Unit := do
  let p ← plan options
  let source ← makeModule verbose p
  deliver p.resource source options.output

def runChunks (verbose : Bool) (document : String) : Shell Unit := do
  find document
  let text ← read document
  let content ← ofCompile (Content.ofText text)
  report (.log (logText verbose "" [.discovered content.chunks.length]))
  let json ← lift (content.toJson.mapError .key)
  print (json.pretty ++ "\n")
  report (.listed content.chunks.length document)

def run (i : Invocation) : Shell Unit :=
  match i.command with
  | .compile options => runCompile i.verbose options
  | .chunks document => runChunks i.verbose document

end Notebook.CommandLine
