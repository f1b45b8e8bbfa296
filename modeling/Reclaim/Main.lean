import Reclaim.Command.Run
import Std.Time

/-!
# The program

Everything a command may look at is read from the file system first; then the command is carried
out on that; and then whatever it changed is written back.
-/

namespace Reclaim.Shell

/-- the paths a command looks at, and how deep it looks below them -/
def reach : Command → List (Path × Nat)
  | .extract descriptor output => (descriptor, 0) :: output.toList.map fun p => (p, 0)
  | .recover input output hosts _ =>
    [(input, 0), (output, 0), (Command.partPath output, 0), (hosts.hostsDir, 2), (hosts.dataDir, 1)]
  | .check descriptor hosts output =>
    [(descriptor, 0), (output.getD (Command.reportPath descriptor hosts.dataDir), 0),
      (hosts.hostsDir, 2), (hosts.dataDir, 1)]
  | .contracts dataDir _ => [(dataDir, 1)]

def placeText (p : Place) : String := "/" ++ "/".intercalate p.reverse

def workingPlace : IO Place := do
  return ((← IO.currentDir).components.filter fun s => !Path.leadsNowhere s).reverse

/-! ## before -/

def fetch (p : Place) (d : Disk) : IO Disk := do
  try
    let b ← IO.FS.readBinFile (placeText p)
    return d.put p (.file b.toList)
  catch e =>
    match e with
    | .inappropriateType _ _ _ => return d.put p .folder
    | _ => return d

/-- read what is below a place, so many folders deep -/
def fetchBelow (p : Place) (d : Disk) : Nat → IO Disk
  | 0 => return d
  | depth + 1 => do
    if d.node? p ≠ some .folder then return d
    let names ← (← IO.FS.realPath (placeText p)).readDir
    names.toList.foldlM (fun d e => do
      let place := e.fileName :: p
      fetchBelow place (← fetch place d) depth) d

/-- read all that lies on the way of a path's parts, and some of what is below its end -/
def fetchAlong (depth : Nat) (here : Place) (d : Disk) : List String → IO Disk
  | [] => fetchBelow here d depth
  | s :: r => do
    if Path.leadsNowhere s then fetchAlong depth here d r
    else if s = ".." then fetchAlong depth here.tail d r
    else fetchAlong depth (s :: here) (← fetch (s :: here) d) r

def fetchAll (c : Command) : IO Disk := do
  let base ← workingPlace
  let start ← fetchAlong 0 [] { Disk.empty with base := base } base.reverse
  (reach c).foldlM (fun d t =>
    match t.1.parts with
    | "" :: r => fetchAlong t.2 [] d r
    | parts => fetchAlong t.2 base d parts) start

/-! ## after -/

/-- write what a command changed, outer folders first -/
def storeChanges (before after : Disk) : IO Unit := do
  for e in before.entries do
    if after.node? e.1 = none then IO.FS.removeFile (placeText e.1)
  let entries := after.entries.mergeSort fun a b => decide (a.1.length ≤ b.1.length)
  for e in entries do
    if before.node? e.1 ≠ some e.2 then
      match e.2 with
      | .folder => IO.FS.createDirAll (placeText e.1)
      | .file b => IO.FS.writeBinFile (placeText e.1) b.toByteArray

/-- the values of the variables that options may come from -/
def environment : IO (List (String × String)) := do
  let names := Command.hostOptions.filterMap CommandOption.fallback
  let values ← names.mapM fun n => do return (← IO.getEnv n).map fun v => (n, v)
  return values.filterMap id

def now : IO String := do
  let t ← Std.Time.Timestamp.now
  return (Std.Time.DateTime.ofTimestampWithZone t Std.Time.TimeZone.UTC).format
    "uuuu-MM-dd'T'HH:mm:ss.SSSSSSSSSxxx"

def run (words : List String) : IO UInt32 := do
  let vars ← environment
  let env (k : String) : Option String := vars.lookup k
  let before ← match Command.parse env words with
    | .ok c => fetchAll c
    | .error _ => pure Disk.empty
  let (exit, after) := runLine Run.Orders.byTime (← now) env words before
  storeChanges before after
  let out ← IO.getStdout
  out.write exit.speech.out.toByteArray
  out.flush
  IO.eprint exit.speech.err
  return exit.code.toUInt32

end Reclaim.Shell

def main (words : List String) : IO UInt32 := Reclaim.Shell.run words
