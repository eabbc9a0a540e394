import ChainRunner.NameMap

/-!
Display names within one run.
-/

namespace ChainRunner.Run

/-- How often each name was asked for. -/
abbrev Names := NameMap Nat

/-- The name itself the first time; later `#` and the number of the request follow it. -/
def Names.unique (ns : Names) (name : String) : String × Names :=
  let n := (NameMap.get? ns name).getD 0 + 1
  (if n = 1 then name else s!"{name}#{n}", NameMap.insert ns name n)

end ChainRunner.Run
