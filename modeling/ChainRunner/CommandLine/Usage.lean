import ChainRunner.CommandLine.Option

/-!
The help text: one line for each option.
-/

namespace ChainRunner.CommandLine

/-- What stands for the value of an option in the help text. -/
def Key.placeholder : Key → String
  | .projects => " <NAME,...>"
  | .flavors => " <NAME,...>"
  | .watch => " [DIR]"
  | .config => " <FILE>"
  | .logLevel => " <LEVEL>"
  | _ => ""

def Key.summary : Key → String
  | .projects => "projects to run for"
  | .flavors => "flavors to run for"
  | .watch => "watch a directory and run again on changes"
  | .config => "the manifest to use"
  | .logLevel => "error, warn, info, debug or trace"
  | .polling => "look for changes in place of listening for events"
  | .verbose => "say more"
  | .dryRun => "print the plan and run nothing"
  | .help => "print this text"
  | .version => "print the version"

def Key.usage (k : Key) : String :=
  let short := match k.short? with
    | some c => s!"-{c}, "
    | none => "    "
  let spelling := s!"  {short}--{k.long}{k.placeholder}"
  spelling ++ "".pushn ' ' (30 - spelling.length) ++ k.summary

def usage : String :=
  "\n".intercalate ("usage: runna [OPTIONS] [--] CHAIN..." :: "" :: Key.all.map Key.usage)

end ChainRunner.CommandLine
