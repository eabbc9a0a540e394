import ChainRunner.CommandLine.Arguments
import ChainRunner.Text.Blank

/-!
Which messages are let through.
-/

namespace ChainRunner.Program

/-- The level that the environment names, blanks around it and upper case aside. -/
def levelOfEnvironment? (value : Option String) : Option Level :=
  value.bind fun v => Level.ofName? ((Text.trimString v).map Char.toLower)

/-- The level of the command line, else that of the environment, else `info`. -/
def threshold (args : CommandLine.Arguments) (environment : Option String) : Level :=
  (args.level?.or (levelOfEnvironment? environment)).getD .info

/-- The levels that pass a threshold. -/
def heard (limit : Level) (said : List Level) : List Level :=
  said.filter fun l => l.rank ≤ limit.rank

end ChainRunner.Program
