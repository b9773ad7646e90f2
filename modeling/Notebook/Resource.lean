import Notebook.Text.Split

/-! Locations of documents. -/
namespace Notebook

/-- Where a document is: a path in a repository, and a revision if one is named. -/
structure Resource where
  owner : String := ""
  repo : String := ""
  path : String := ""
  revision : Option String := none
deriving Repr, DecidableEq

namespace Resource

def segments (path : String) : List (List Char) :=
  (Text.split (· == '/') path.toList).filter fun segment => !segment.isEmpty

/-- Follows one segment from a directory: `.` stays, `..` goes up and stops at the root. -/
def step (directory : List (List Char)) (segment : List Char) : List (List Char) :=
  if segment = ['.'] then directory
  else if segment = ['.', '.'] then directory.dropLast
  else directory ++ [segment]

/-- The directory from which a relative path starts: that of the document, or the root if the path
begins with a slash. -/
def directory (r : Resource) (relative : String) : List (List Char) :=
  if relative.toList.head? = some '/' then [] else (segments r.path).dropLast

def join (r : Resource) (relative : String) : Resource :=
  let target := (segments relative).foldl step (r.directory relative)
  { r with path := Text.joined "/" (target.map String.ofList) }

def atRevision (r : Resource) (revision : String) : Resource :=
  { r with revision := some revision }

/-- The resource as text: `owner/repo/path@revision`, without what is missing. -/
def text (r : Resource) : String :=
  (if r.owner.isEmpty && r.repo.isEmpty then "" else r.owner ++ "/" ++ r.repo ++ "/") ++
    r.path ++ r.revision.elim "" ("@" ++ ·)

end Resource

end Notebook
