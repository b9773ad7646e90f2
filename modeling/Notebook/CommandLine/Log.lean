import Notebook.Library
import Notebook.Text.Digits
import Notebook.Text.Quoted

/-! The log lines of a command. -/
namespace Notebook.CommandLine

inductive Severity where
  | debug
  | info
  | warn
deriving Repr, DecidableEq

def Severity.label : Severity → String
  | debug => "DEBUG"
  | info => " INFO"
  | warn => " WARN"

def severity : Note → Severity
  | .compiled _ _ _ _ => .info
  | .collision _ _ => .warn
  | _ => .debug

/-- The text of a note, where documents are read below the absolute path `root`. -/
def noteText (root : String) : Note → String
  | .fetching resource => "Reading " ++ root ++ "/" ++ resource.path
  | .compiling resource level =>
    "Compiling " ++ resource.text ++ " at level " ++ Text.quoted level
  | .discovered chunks => "Discovered " ++ toString chunks ++ " chunks"
  | .registered fragments modules =>
    "Generated " ++ toString fragments ++ " import fragments; " ++ toString modules ++
      " modules registered"
  | .located specifier resource => "Resolved `" ++ specifier ++ "` to " ++ resource.text
  | .compiled resource chunks fragments modules =>
    "Compiled " ++ resource.text ++ " (" ++ toString chunks ++ " chunks, " ++
      toString fragments ++ " fragments, " ++ toString modules ++ " imported modules)"
  | .collision name resource =>
    "`" ++ name ++ "` is defined more than once in " ++ resource.text ++
      "; import namespaces collide"

/-- A character of a log line. Characters that steer a terminal are written by their codes. -/
def logChar (c : Char) : List Char :=
  let hex := Nat.toDigits 16 c.toNat
  if ['\x07', '\x08', '\x0c', '\x1b', '\x7f'].contains c then
    ['\\', 'x'] ++ List.replicate (2 - hex.length) '0' ++ hex
  else if 0x80 ≤ c.toNat && c.toNat ≤ 0x9f then ['\\', 'u', '{'] ++ hex ++ ['}']
  else [c]

def logLine (root : String) (note : Note) : String :=
  (severity note).label ++ " " ++ String.ofList ((noteText root note).toList.flatMap logChar) ++ "\n"

def logText (verbose : Bool) (root : String) (notes : List Note) : String :=
  let shown := notes.filter fun n => verbose || severity n = .warn
  String.join (shown.map (logLine root))

end Notebook.CommandLine
