/-!
Why an operation on files did not work.
-/

namespace ChainRunner.Files

inductive Errno
  | noEntry
  | denied
  | alreadyThere
  | notDirectory
  | isDirectory
  | notEmpty
  | tooManyLinks
deriving DecidableEq, Repr

namespace Errno

def number : Errno → Nat
  | .noEntry => 2
  | .denied => 13
  | .alreadyThere => 17
  | .notDirectory => 20
  | .isDirectory => 21
  | .notEmpty => 39
  | .tooManyLinks => 40

def text : Errno → String
  | .noEntry => "No such file or directory"
  | .denied => "Permission denied"
  | .alreadyThere => "File exists"
  | .notDirectory => "Not a directory"
  | .isDirectory => "Is a directory"
  | .notEmpty => "Directory not empty"
  | .tooManyLinks => "Too many levels of symbolic links"

def message (e : Errno) : String := s!"{e.text} (os error {e.number})"

end Errno

end ChainRunner.Files
