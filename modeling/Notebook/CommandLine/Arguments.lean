import Notebook.Text.Split

/-! Reading the arguments of the command line. -/
namespace Notebook.CommandLine

/-- An option: its long name, its letter if it has one, and whether a value follows it. -/
structure OptionSpec where
  name : String
  letter : Option Char := none
  takesValue : Bool := true
deriving Repr, DecidableEq

inductive Stop where
  | usage
  | help
  | version
deriving Repr, DecidableEq

structure Arguments where
  flags : List String := []
  values : List (String × String) := []
  positionals : List String := []
  /-- The option whose value comes next. -/
  pending : Option String := none
deriving Repr, DecidableEq

namespace Arguments

def hasFlag (a : Arguments) (name : String) : Bool :=
  a.flags.contains name

def value? (a : Arguments) (name : String) : Option String :=
  a.values.lookup name

/-- Adds a flag. Flags that ask for help or the version stop at once; no option occurs twice, and
none may wait for a value. -/
def addFlag (name : String) (a : Arguments) : Except Stop Arguments :=
  if a.pending.isSome || a.hasFlag name then .error .usage
  else if name = "help" then .error .help
  else if name = "version" then .error .version
  else .ok { a with flags := a.flags ++ [name] }

def addValue (name value : String) (a : Arguments) : Except Stop Arguments :=
  if a.pending.isSome || (a.value? name).isSome then .error .usage
  else .ok { a with values := a.values ++ [(name, value)] }

def await (name : String) (a : Arguments) : Except Stop Arguments :=
  if a.pending.isSome || (a.value? name).isSome then .error .usage
  else .ok { a with pending := some name }

/-- Adds an argument that is no option: the value that is waited for, or else a positional one, of
which there are at most `limit`. -/
def addPlain (limit : Nat) (text : String) (a : Arguments) : Except Stop Arguments :=
  match a.pending with
  | some name => { a with pending := none }.addValue name text
  | none =>
    if a.positionals.length < limit then .ok { a with positionals := a.positionals ++ [text] }
    else .error .usage

def addLong (specs : List OptionSpec) (cs : List Char) (a : Arguments) :
    Except Stop Arguments :=
  let (name, value) := match Text.cutAt? ['='] cs with
    | some (name, value) => (String.ofList name, some (String.ofList value))
    | none => (String.ofList cs, none)
  match specs.find? (·.name == name), value with
  | none, _ => .error .usage
  | some spec, none => if spec.takesValue then a.await name else a.addFlag name
  | some spec, some value => if spec.takesValue then a.addValue name value else .error .usage

/-- The letters after a dash. What follows a letter that takes a value is its value, without an
equals sign in front. -/
def addLetters (specs : List OptionSpec) : List Char → Arguments → Except Stop Arguments
  | [], a => .ok a
  | c :: cs, a =>
    match specs.find? (·.letter == some c) with
    | none => .error .usage
    | some spec =>
      if !spec.takesValue then do addLetters specs cs (← a.addFlag spec.name)
      else match cs with
        | [] => a.await spec.name
        | '=' :: value => a.addValue spec.name (String.ofList value)
        | value => a.addValue spec.name (String.ofList value)

/-- Reads all arguments of a command. After `--` every argument is positional. -/
def read (specs : List OptionSpec) (limit : Nat) :
    (onlyPlain : Bool) → List String → Arguments → Except Stop Arguments
  | _, [], a => if a.pending.isSome then .error .usage else .ok a
  | true, arg :: args, a => do read specs limit true args (← a.addPlain limit arg)
  | false, arg :: args, a =>
    match arg.toList with
    | ['-', '-'] =>
      if a.pending.isSome then .error .usage else read specs limit true args a
    | '-' :: '-' :: name => do read specs limit false args (← a.addLong specs name)
    | '-' :: c :: letters => do read specs limit false args (← a.addLetters specs (c :: letters))
    | _ => do read specs limit false args (← a.addPlain limit arg)

end Arguments

structure CompileOptions where
  document : String
  root : Option String := none
  owner : String := ""
  repo : String := ""
  revision : Option String := none
  output : Option String := none
  config : Option String := none
  defineStem : Option String := none
  baseUrl : Option String := none
deriving Repr, DecidableEq

inductive Command where
  | compile (options : CompileOptions)
  | chunks (document : String)
deriving Repr, DecidableEq

structure Invocation where
  command : Command
  verbose : Bool
deriving Repr, DecidableEq

def helpSpec : OptionSpec :=
  ⟨"help", some 'h', false⟩

def verboseSpec : OptionSpec :=
  ⟨"verbose", some 'v', false⟩

def topSpecs : List OptionSpec :=
  [helpSpec, ⟨"version", some 'V', false⟩, verboseSpec]

def chunksSpecs : List OptionSpec :=
  [helpSpec, verboseSpec]

def compileSpecs : List OptionSpec :=
  chunksSpecs ++
    [⟨"root", none, true⟩, ⟨"owner", none, true⟩, ⟨"repo", none, true⟩, ⟨"ref", none, true⟩,
      ⟨"output", some 'o', true⟩, ⟨"config", none, true⟩, ⟨"define-prefix", none, true⟩,
      ⟨"base-url", none, true⟩]

def compileCommand (args : List String) : Except Stop Invocation := do
  let a ← Arguments.read compileSpecs 1 false args {}
  match a.positionals with
  | [document] =>
    let options : CompileOptions :=
      { document := document
        root := a.value? "root"
        owner := (a.value? "owner").getD ""
        repo := (a.value? "repo").getD ""
        revision := a.value? "ref"
        output := a.value? "output"
        config := a.value? "config"
        defineStem := a.value? "define-prefix"
        baseUrl := a.value? "base-url" }
    return ⟨.compile options, a.hasFlag "verbose"⟩
  | _ => .error .usage

def chunksCommand (args : List String) : Except Stop Invocation := do
  let a ← Arguments.read chunksSpecs 1 false args {}
  match a.positionals with
  | [document] => return ⟨.chunks document, a.hasFlag "verbose"⟩
  | _ => .error .usage

/-- Whether arguments after `help` name commands one inside the other; no command has further ones. -/
def namesCommand : List String → Bool
  | [] => true
  | [name] => ["compile", "chunks", "help"].contains name
  | _ => false

def Invocation.under (top : Arguments) (i : Invocation) : Invocation :=
  { i with verbose := i.verbose || top.hasFlag "verbose" }

/-- The invocation that the arguments of the program write: options for all commands, then a
command with its own arguments. -/
def invocation (top : Arguments) : List String → Except Stop Invocation
  | [] => .error .usage
  | arg :: args =>
    if arg = "compile" then (compileCommand args).map (Invocation.under top)
    else if arg = "chunks" then (chunksCommand args).map (Invocation.under top)
    else if arg = "help" then .error (if namesCommand args then .help else .usage)
    else match arg.toList with
      | '-' :: '-' :: c :: name => do invocation (← top.addLong topSpecs (c :: name)) args
      | ['-', '-'] => .error .usage
      | '-' :: c :: letters => do invocation (← top.addLetters topSpecs (c :: letters)) args
      | _ => .error .usage

end Notebook.CommandLine
