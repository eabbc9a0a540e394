/-!
The command language in which scripts are written: words, redirections and commands.
-/

namespace ChainRunner.Shell

/-- A part of a word. What comes from a quoted part is never cut at blanks. -/
inductive Part
  | text (s : String)
  | quoted (s : String)
  /-- A value that has been put in; it is cut at blanks. -/
  | value (s : String)
  | variable (name : String) (isQuoted : Bool)
  | arithmetic (expr : String) (isQuoted : Bool)
  /-- What a command writes. -/
  | output (source : String) (isQuoted : Bool)
deriving DecidableEq, Repr, Inhabited

abbrev Word := List Part

inductive Direction
  | input
  | output
  | append
  /-- Leads where another descriptor leads; `-` closes. -/
  | duplicate
deriving DecidableEq, Repr

structure Redirect where
  descriptor : Nat
  direction : Direction
  target : Word
deriving DecidableEq, Repr

inductive Command
  | nothing
  | simple (assigns : List (String × Word)) (words : List Word) (redirects : List Redirect)
  | seq (a b : Command)
  | both (a b : Command)
  | either (a b : Command)
  | negate (a : Command)
  | pipe (a b : Command)
  | branch (test yes no : Command)
  /-- Repeats while the test holds, or until it does. -/
  | loop (untilHolds : Bool) (test body : Command)
  | each (name : String) (words : List Word) (body : Command)
  | subshell (a : Command)
  | redirected (a : Command) (redirects : List Redirect)
deriving Repr, Inhabited

end ChainRunner.Shell
