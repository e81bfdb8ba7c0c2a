import SicXe.Text.Words

/-!
# Files

What a run of the program can tell of the files around it. A directory without subdirectories is the
simplest such surrounding: a path in it leads to a file or nowhere.
-/
namespace SicXe.CommandLine

/-- The content of the files that can be read, and which paths can be written. -/
structure Files where
  read? : String → Option ByteArray
  canWrite : String → Bool

/-- Files by name. -/
structure Directory where
  files : List (String × ByteArray)

namespace Directory

/-- The name of the file that a relative path leads to, if it leads to no other directory. -/
def fileName? (path : String) : Option String :=
  match (Text.splitAt '/' path.toList).reverse with
  | [] => none
  | name :: parents =>
    if name = [] ∨ name = ['.'] ∨ name = ['.', '.'] ∨ parents.getLast? = some [] then none
    else if parents.all fun part => part = [] ∨ part = ['.'] then some (String.ofList name)
    else none

def content? (d : Directory) (name : String) : Option ByteArray :=
  (d.files.find? (·.1 = name)).map Prod.snd

/-- The files as seen from inside the directory. -/
def view (d : Directory) : Files where
  read? := fun path => (fileName? path).bind d.content?
  canWrite := fun path => (fileName? path).isSome

/-- The name of the file that writing to a path would add to the directory. -/
def newName? (d : Directory) (path : String) : Option String :=
  (fileName? path).filter fun name => (d.content? name).isNone

end Directory

end SicXe.CommandLine
