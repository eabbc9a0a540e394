/-!
What a run of a chain tells when it is over.
-/

namespace ChainRunner.Run

/-- How one instance, nested chain or unknown step of a run ended. -/
structure Entry where
  name : String
  background : Bool
  /-- False for a background instance that outlives the run. -/
  ended : Bool
  failed : Bool
  code : Option Int
deriving DecidableEq, Repr

structure Report where
  chain : String
  /-- Some entry that is not in the background failed. -/
  failed : Bool
  entries : List Entry
deriving DecidableEq, Repr

/-- The first entry of a name. -/
def Report.entry? (r : Report) (name : String) : Option Entry := r.entries.find? (·.name = name)

/-- Why a run gave up. -/
inductive Failure
  | unknownScript (name : String)
  | stepFailed (name : String) (code : Option Int)
  /-- A nested run was torn down without an answer. -/
  | memberLost
deriving DecidableEq, Repr

def showCode : Option Int → String
  | some n => s!"Some({n})"
  | none => "None"

def Failure.message : Failure → String
  | .unknownScript n => s!"Unknown script: {n}"
  | .stepFailed n code => s!"Script {n} failed (exit code {showCode code})"
  | .memberLost => "barrier task failed"

/-- What a dispatch cycle did: the paths it took and the runs that came to an end, in the order
in which they did. -/
structure CycleReport where
  paths : List String
  runs : List Report
deriving DecidableEq, Repr

def CycleReport.failed (r : CycleReport) : Bool := r.runs.any Report.failed

end ChainRunner.Run
