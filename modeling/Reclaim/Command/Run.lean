import Reclaim.Command.Basic
import Reclaim.Descriptor.Image
import Reclaim.Health
import Reclaim.Host.Folder

/-!
# Carrying out commands

A command reads and changes a disk, and says something in the end.  A recovered file is first
written beside the place where it is wanted, and put there when it is complete.

* `loadDescriptor` a descriptor in either of its forms;
* `Command.run` what a command says and leaves on the disk.
-/

namespace Reclaim

inductive CommandError where
  | openFile (p : Path)
  | mapFile (p : Path)
  | decode (p : Path) (asTopology asImage : DecodeError)
  | store (e : StoreError)
  | hosts (e : Folder.Error)
  | create (p : Path)
  | recovery (e : RecoveryError)
  /-- the file that is recovered into does not take its bytes -/
  | unwritten (e : DiskError)
  | check (e : RecoveryError)
  | sync (e : DiskError)
  | place (p : Path)
  | write (p : Path)

/-- what is said of a failure, and of its causes -/
def CommandError.messages : CommandError → List String
  | .openFile p => [s!"open {p}"]
  | .mapFile p => [s!"map {p}"]
  | .decode p t i =>
    [s!"decode {p}", s!"not topology JSON ({t.message}) nor a descriptor", i.message]
  | .store e => [e.message]
  | .hosts e => [e.message]
  | .create p => [s!"create {p}"]
  | .recovery e => ["recovery failed", e.message]
  | .unwritten e => ["recovery failed", s!"writing recovered data: {e.message}", e.message]
  | .check e => [e.message]
  | .sync e => [e.message]
  | .place p => [s!"rename into {p}"]
  | .write p => [s!"write {p}"]

def CommandError.message (e : CommandError) : String := e.messages.headD ""

/-! ## descriptors -/

/-- the descriptor in a file: a topology document if it can be read as one, otherwise an image -/
def loadDescriptor (p : Path) (d : Disk) : Except CommandError Descriptor :=
  match d.read p with
  | .error .isFolder => .error (.mapFile p)
  | .error _ => .error (.openFile p)
  | .ok b =>
    match Descriptor.ofTopology b with
    | .ok desc => .ok desc
    | .error t =>
      match Descriptor.ofImage b with
      | .ok desc => .ok desc
      | .error i => .error (.decode p t i)

/-! ## outcomes -/

structure Speech where
  out : Bytes
  err : String
deriving DecidableEq

def lines (l : List String) : Bytes := l.flatMap fun s => utf8 s ++ [10]

namespace Command

/-- the hosts in the given folder with the contracts that are held -/
def openHosts (o : HostOptions) (d : Disk) : Except CommandError Folder.Hosts × Disk :=
  match ContractStore.openIn o.dataDir (UInt64.ofNat o.height) d with
  | (.error e, d) => (.error (.store e), d)
  | (.ok s, d) =>
    match Folder.openHosts o.hostsDir s d with
    | (.error e, d) => (.error (.hosts e), d)
    | (.ok h, d) => (.ok h, d)

def runExtract (descriptor : Path) (output : Option Path) (d : Disk) :
    Except CommandError Speech × Disk :=
  match loadDescriptor descriptor d with
  | .error e => (.error e, d)
  | .ok desc =>
    match output with
    | none => (.ok ⟨desc.toTopology ++ [10], ""⟩, d)
    | some p =>
      match Disk.write p desc.toTopology d with
      | (.error _, d) => (.error (.write p), d)
      | (.ok _, d) =>
        (.ok ⟨[], s!"Wrote topology for {desc.chunks.length} chunks to {p}\n"⟩, d)

/-- where a file is written before it is complete -/
def partPath (output : Path) : Path := output.sibling (output.name?.getD "" ++ ".part")

/-- the failure of a recovery into a file, which runs out of room only by a write that fails -/
def failure : RecoveryError → CommandError
  | .erasure .sinkFull => .unwritten .fault
  | e => .recovery e

/-- Write what is held back of a recovery into its file.  That is done whatever the recovery came to;
a recovery that succeeded has failed after all if that fails. -/
def writeOut (file : Place) (r : Recovery.Outcome Folder.Hosts RecoveryReport) :
    Except CommandError (RecoveryReport × Bytes) × Disk :=
  match r.result, Disk.fill file r.sink.bytes r.run.wire.net.disk with
  | .error e, (_, d) => (.error (failure e), d)
  | .ok _, (.error e, d) => (.error (.unwritten e), d)
  | .ok report, (.ok _, d) => (.ok (report, r.sink.bytes), d)

/-- recover a file into an open one -/
def recoverInto (file : Place) (orders : Run.Orders) (c : Settings) (f : Descriptor)
    (progress : Bool) (h : Folder.Hosts) : Except CommandError (RecoveryReport × Bytes) × Disk :=
  let room := h.disk.draw
  let counters := if progress then some Progress.zero else none
  writeOut file (Recovery.recover Folder.network c orders f (Sink.ofLimit room.1)
    (Run.fresh { h with disk := room.2 } counters))

/-- put a file that was recovered where it is wanted -/
def deliver (part output : Path) (d : Disk) : Except CommandError Unit × Disk :=
  match Disk.sync d with
  | (.error e, d) => (.error (.sync e), d)
  | (.ok _, d) =>
    match Disk.rename part output d with
    | (.error _, d) => (.error (.place output), d)
    | (.ok _, d) => (.ok (), d)

def runRecover (orders : Run.Orders) (input output : Path) (o : HostOptions) (progress : Bool)
    (d : Disk) : Except CommandError Speech × Disk :=
  match loadDescriptor input d with
  | .error e => (.error e, d)
  | .ok desc =>
    match openHosts o d with
    | (.error e, d) => (.error e, d)
    | (.ok h, d) =>
      let part := partPath output
      match Disk.create part d with
      | (.error _, d) => (.error (.create part), d)
      | (.ok file, d) =>
        match recoverInto file orders o.settings desc progress { h with disk := d } with
        | (.error e, d) => (.error e, (Disk.remove part d).2)
        | (.ok (report, bytes), d) =>
          match deliver part output d with
          | (.error e, d) => (.error e, d)
          | (.ok _, d) =>
            (.ok ⟨lines [s!"Recovered {report.bytesWritten} bytes to {output}",
              s!"blake3 {(Blake3.hash bytes).text}"], ""⟩, d)

/-- where a report is written if nothing else is said -/
def reportPath (descriptor dataDir : Path) : Path := dataDir.join (descriptor.stem ++ ".health.json")

/-- what is said of the chunks of a file, counted from one -/
def chunkLines (h : FileHealth) : List String :=
  h.chunks.zipIdx.map fun c =>
    s!"Chunk {c.2 + 1}: {c.1.availablePieces}/{c.1.minPieces} pieces available"

def runCheck (orders : Run.Orders) (now : String) (descriptor : Path) (o : HostOptions)
    (output : Option Path) (d : Disk) : Except CommandError Speech × Disk :=
  match loadDescriptor descriptor d with
  | .error e => (.error e, d)
  | .ok desc =>
    match openHosts o d with
    | (.error e, d) => (.error e, d)
    | (.ok h, d) =>
      let r := Health.check Folder.network o.settings (orders 0) desc (Wire.fresh { h with disk := d })
      let d := r.2.net.disk
      match r.1 with
      | .error e => (.error (.check e), d)
      | .ok health =>
        let path := output.getD (reportPath descriptor o.dataDir)
        let d := match path.parent? with
          | none => d
          | some q => (Disk.makeFolders q d).2
        match Disk.write path (health.toDocument now) d with
        | (.error _, d) => (.error (.write path), d)
        | (.ok _, d) =>
          let verdict :=
            if health.recoverable then "File is recoverable" else "File is not recoverable"
          (.ok ⟨lines (chunkLines health ++ [verdict]), s!"Report written to {path}\n"⟩, d)

def runContracts (dataDir : Path) (height : Nat) (d : Disk) : Except CommandError Speech × Disk :=
  match ContractStore.openIn dataDir (UInt64.ofNat height) d with
  | (.error e, d) => (.error (.store e), d)
  | (.ok s, d) =>
    let list := s.list.map fun c => s!"{c.host} {c.id.text} expires {c.expirationHeight}"
    (.ok ⟨lines (list ++ [s!"{s.list.length} contracts"]), ""⟩, d)

/-- carry out a command at a given time -/
def run (orders : Run.Orders) (now : String) (c : Command) (d : Disk) :
    Except CommandError Speech × Disk :=
  match c with
  | .extract descriptor output => runExtract descriptor output d
  | .recover input output hosts progress => runRecover orders input output hosts progress d
  | .check descriptor hosts output => runCheck orders now descriptor hosts output d
  | .contracts dataDir height => runContracts dataDir height d

end Command

/-! ## whole command lines -/

structure Exit where
  code : UInt8
  speech : Speech

/-- the report of a failure and its causes -/
def failureText : List String → String
  | [] => ""
  | [m] => s!"Error: {m}\n"
  | [m, cause] => s!"Error: {m}\n\nCaused by:\n    {cause}\n"
  | m :: causes =>
    let numbered := causes.zipIdx.map fun c => s!"    {c.2}: {c.1}\n"
    s!"Error: {m}\n\nCaused by:\n" ++ String.join numbered

/-- what a wish for help is answered with -/
def helpLines : List String :=
  ["Recover erasure-coded files straight from storage hosts",
   "",
   "Usage: salvage [OPTIONS] <COMMAND>",
   "",
   "Commands:",
   "  extract    Decode a descriptor into topology JSON",
   "  recover    Recover a file from its descriptor (or topology JSON)",
   "  check      Report which hosts still hold each sector",
   "  contracts  List stored contracts",
   "  help       Print this message or the help of the given subcommand(s)",
   "",
   "Options:",
   "  -v, --verbose...  More log output (-v debug, -vv trace)",
   "  -h, --help        Print help",
   "  -V, --version     Print version"]

def versionLine : String := "salvage 0.1.0"

def usageText : String := "Usage: salvage [OPTIONS] <COMMAND>\n"

def runLine (orders : Run.Orders) (now : String) (env : String → Option String)
    (words : List String) (d : Disk) : Exit × Disk :=
  match Command.parse env words with
  | .error .usage => (⟨2, ⟨[], usageText⟩⟩, d)
  | .error .help => (⟨0, ⟨lines helpLines, ""⟩⟩, d)
  | .error .version => (⟨0, ⟨lines [versionLine], ""⟩⟩, d)
  | .ok c =>
    match c.run orders now d with
    | (.error e, d) => (⟨1, ⟨[], failureText e.messages⟩⟩, d)
    | (.ok s, d) => (⟨0, s⟩, d)

end Reclaim
