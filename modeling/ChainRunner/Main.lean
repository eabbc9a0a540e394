import ChainRunner.CommandLine.Usage
import ChainRunner.Program.Logging
import ChainRunner.Program.Surroundings

/-!
The command line. The working directory and that of the manifest are copied into memory, the
invocation runs on the copy in step with the clock, and what changes on one side is carried over
to the other.
-/

namespace ChainRunner.Program

open Files

/-- Directories that are not copied. -/
def isLeftOut (name : String) : Bool := name.startsWith "." || name = "node_modules"

/-- Copy an entry of a directory and what is below it; links are left out. -/
partial def copyEntry (dir : Place) (d : Disk) (e : IO.FS.DirEntry) : IO Disk := do
  let place := dir ++ [e.fileName]
  match (← e.path.symlinkMetadata).type with
  | .dir =>
    if isLeftOut e.fileName then return d
    (← e.path.readDir).foldlM (copyEntry place) (d.lay place .dir)
  | .file =>
    let bytes := (← IO.FS.readBinFile e.path).toList
    return d.lay place (.file bytes (bytes.take 2 = Text.encode "#!"))
  | _ => return d

/-- The directories that matter to an invocation. -/
def homes (argv : List String) : IO (List String) := do
  let cwd := (← IO.currentDir).toString
  let config := (CommandLine.parse ("runna" :: argv)).toOption.bind (·.config)
  let other := config.bind fun p => Path.parent? (Path.join cwd p)
  return cwd :: other.toList

def copyHomes (dirs : List String) : IO Disk :=
  dirs.foldlM (fun d (dir : String) => do
    let real ← IO.FS.realPath dir
    let place := (Disk.names real.toString).filter (· ≠ "")
    (← real.readDir).foldlM (copyEntry place) (d.lay place .dir)) {}

/-- Carry out on the machine what became of the copy. -/
def carryOut (before after : Disk) : IO Unit := do
  for (key, node) in after.nodes.entries do
    if before.nodes.get? key ≠ some node then
      match node with
      | .file content _ => IO.FS.writeBinFile (Place.path (Disk.names key)) ⟨content.toArray⟩
      | .dir => IO.FS.createDirAll (Place.path (Disk.names key))
      | .link _ => pure ()
  for (key, node) in before.nodes.entries do
    if (after.nodes.get? key).isNone then
      match node with
      | .file _ _ => IO.FS.removeFile (Place.path (Disk.names key))
      | _ => pure ()

/-- Bring the copy up to date. -/
def takeIn (now old : Disk) : Disk :=
  let changed := now.nodes.entries.filter fun e => old.nodes.get? e.1 ≠ some e.2
  let gone := old.nodes.keys.filter fun k => (now.nodes.get? k).isNone
  let d := changed.foldl (fun d e => d.put (Disk.names e.1) e.2) old
  gone.foldl (fun d k => d.remove (Disk.names k)) d

/-- Print the lines that processes wrote, if the level lets them through. -/
def printLines (limit : Level) (v : Invocation) (shown : Nat) : IO Unit :=
  for (p, isError, line) in v.site.lines.drop shown do
    let level := if isError then Level.warn else .info
    let name := ((v.site.state.launch? p).map Run.Launch.name).getD ""
    if heard limit [level] = [level] then
      IO.eprintln s!"{level.name.toUpper} {name}: {line}"

/-- Run in step with the clock, which showed `began` at the start. -/
partial def follow (dirs : List String) (limit : Level) (began : Nat) (v : Invocation) :
    IO Invocation := do
  let next := v.passTo (1000 * ((← IO.monoMsNow) - began))
  carryOut v.site.disk next.site.disk
  printLines limit next v.site.lines.length
  if next.isOver then return next
  IO.sleep 10
  let disk := takeIn (← copyHomes dirs) next.site.disk
  follow dirs limit began ({ next with site := { next.site with disk } }).progress

def printOutput : Output → IO Unit
  | .help => IO.println CommandLine.usage
  | .version => IO.println "runna 0.1.0"
  | .text s => IO.print s

/-- Print what there is to say at the end. -/
def conclude (output : Output) (exit : Nat) (problem : Option Problem) : IO UInt32 := do
  printOutput output
  if let some p := problem then IO.eprintln s!"runna error: {p.message}"
  return exit.toUInt32

end ChainRunner.Program

open ChainRunner Program in
def main (argv : List String) : IO UInt32 := do
  let dirs ← homes argv
  let disk ← copyHomes dirs
  let cwd := (Files.Disk.names (dirs.headD "")).filter (· ≠ "")
  match start disk cwd argv with
  | .done output exit problem => conclude output exit problem
  | .begun v =>
    let limit := threshold v.args (← IO.getEnv "RUNNA_LOG")
    carryOut disk v.site.disk
    printLines limit v 0
    let v ← follow dirs limit (← IO.monoMsNow) v
    conclude v.output (v.exit?.getD 0) v.problem
