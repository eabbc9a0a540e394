import ChainRunner.CommandLine.Option

/-!
Command lines with the options in front.

Options may stand anywhere among the chain words. Sorting takes them out, with their values, in
their order; the chain words follow a `--`.
-/

namespace ChainRunner.CommandLine

/-- The token is left to an option before it. -/
def isValue (token : String) : Bool := (Key.ofToken? token).isNone

/-- The options with their values, and the chain words. All that follows a `--` is chain, unless
the `--` itself is the value of an option that is `waiting` for one. -/
def sort (waiting : Bool) : List String → List String × List String
  | [] => ([], [])
  | t :: rest =>
    if waiting && isValue t then
      let r := sort false rest
      (t :: r.1, r.2)
    else if t = "--" then ([], rest)
    else
      match Key.ofToken? t with
      | none =>
        let r := sort false rest
        (r.1, t :: r.2)
      | some k =>
        let r := sort (k.takesValue && (tokenValue? t).isNone) rest
        (t :: r.1, r.2)

/-- The whole command line, the program's name in front. -/
def sorted (argv : List String) : List String :=
  let r := sort false (argv.drop 1)
  argv.take 1 ++ r.1 ++ "--" :: r.2

end ChainRunner.CommandLine
