import Reclaim.Command.Words
import Reclaim.Disk.Path
import Reclaim.Host.Exchange

/-!
# Commands

The four commands and how a command line spells them.

* `Command.parse` the command that the words of a command line and the variables give.
-/

namespace Reclaim

/-- where hosts and contracts are, and how hosts are asked -/
structure HostOptions where
  hostsDir : Path
  dataDir : Path
  /-- contracts up to which height have expired -/
  height : Nat
  workers : Nat
  sectorSize : Nat
  dialSeconds : Nat
  settingsSeconds : Nat
  readSeconds : Nat
  checkSeconds : Nat
deriving DecidableEq

/-- how hosts are asked; at least one at a time -/
def HostOptions.settings (o : HostOptions) : Settings :=
  ⟨max o.workers 1, o.sectorSize, 1000 * o.dialSeconds, 1000 * o.settingsSeconds,
    1000 * o.readSeconds, 1000 * o.checkSeconds⟩

inductive Command where
  /-- write a descriptor as a topology document -/
  | extract (descriptor : Path) (output : Option Path)
  /-- get a file back from its hosts -/
  | recover (input output : Path) (hosts : HostOptions) (progress : Bool)
  /-- find out which hosts still serve a file -/
  | check (descriptor : Path) (hosts : HostOptions) (output : Option Path)
  /-- list the contracts that are held -/
  | contracts (dataDir : Path) (height : Nat)
deriving DecidableEq

namespace Command

/-! ## options -/

def pathOption (name : String) (letter : Option Char) (fallback : Option String) : CommandOption :=
  ⟨name, letter, fallback, some .path, false⟩

def numberOption (name : String) (fallback : Option String) : CommandOption :=
  ⟨name, none, fallback, some .number, false⟩

def verbose : CommandOption := ⟨"verbose", some 'v', none, none, true⟩

def progress : CommandOption := ⟨"progress", none, none, none, false⟩

def input : CommandOption := pathOption "input" (some 'i') none

def output : CommandOption := pathOption "output" (some 'o') none

def hostsDir : CommandOption := pathOption "hosts-dir" none (some "SALVAGE_HOSTS_DIR")

def dataDir : CommandOption := pathOption "data-dir" none (some "SALVAGE_DATA_DIR")

def height : CommandOption := numberOption "height" (some "SALVAGE_HEIGHT")

def workers : CommandOption := numberOption "workers" (some "SALVAGE_WORKERS")

def sectorSize : CommandOption := numberOption "sector-size" none

def dialSeconds : CommandOption := numberOption "dial-timeout-secs" (some "SALVAGE_DIAL_TIMEOUT")

def settingsSeconds : CommandOption :=
  numberOption "settings-timeout-secs" (some "SALVAGE_SETTINGS_TIMEOUT")

def readSeconds : CommandOption := numberOption "read-timeout-secs" (some "SALVAGE_READ_TIMEOUT")

def checkSeconds : CommandOption := numberOption "check-timeout-secs" (some "SALVAGE_CHECK_TIMEOUT")

def hostOptions : List CommandOption :=
  [hostsDir, dataDir, height, workers, sectorSize, dialSeconds, settingsSeconds, readSeconds,
    checkSeconds]

/-! ## values -/

/-- the value of an option: from the words, or else from its variable -/
def value? (env : String → Option String) (g : Given) (o : CommandOption) :
    Except Stop (Option String) :=
  match g.options.lookup o.name with
  | some v => .ok (some v)
  | none =>
    match o.fallback.bind env, o.value with
    | some v, some k => if k.accepts v then .ok (some v) else .error .usage
    | _, _ => .ok none

def path? (env : String → Option String) (g : Given) (o : CommandOption) :
    Except Stop (Option Path) :=
  (value? env g o).map fun v => v.map Path.ofText

def path (env : String → Option String) (g : Given) (o : CommandOption) : Except Stop Path :=
  match path? env g o with
  | .error e => .error e
  | .ok none => .error .usage
  | .ok (some p) => .ok p

def pathOr (default : String) (env : String → Option String) (g : Given) (o : CommandOption) :
    Except Stop Path :=
  (path? env g o).map fun p => p.getD (Path.ofText default)

def numberOr (default : Nat) (env : String → Option String) (g : Given) (o : CommandOption) :
    Except Stop Nat :=
  (value? env g o).map fun v => (v.bind number?).getD default

def hosts (env : String → Option String) (g : Given) : Except Stop HostOptions := do
  let dirs ← path env g hostsDir
  let data ← pathOr ".salvage" env g dataDir
  let from? ← numberOr 0 env g height
  let width ← numberOr 100 env g workers
  let size ← numberOr 4194304 env g sectorSize
  let dial ← numberOr 60 env g dialSeconds
  let prices ← numberOr 60 env g settingsSeconds
  let read ← numberOr 120 env g readSeconds
  let whole ← numberOr 60 env g checkSeconds
  return ⟨dirs, data, from?, width, size, dial, prices, read, whole⟩

def argument (g : Given) : Except Stop Path :=
  match g.arguments with
  | [p] => .ok (Path.ofText p)
  | _ => .error .usage

/-! ## commands -/

def parseExtract (env : String → Option String) (words : List String) : Except Stop Command := do
  let g ← Words.read ⟨[verbose, output], 1, false⟩ words
  return .extract (← argument g) (← path? env g output)

def parseRecover (env : String → Option String) (words : List String) : Except Stop Command := do
  let g ← Words.read ⟨verbose :: input :: output :: progress :: hostOptions, 0, false⟩ words
  return .recover (← path env g input) (← path env g output) (← hosts env g)
    (g.options.lookup progress.name).isSome

def parseCheck (env : String → Option String) (words : List String) : Except Stop Command := do
  let g ← Words.read ⟨verbose :: output :: hostOptions, 1, false⟩ words
  return .check (← argument g) (← hosts env g) (← path? env g output)

def parseContracts (env : String → Option String) (words : List String) : Except Stop Command := do
  let g ← Words.read ⟨[verbose, dataDir, height], 0, false⟩ words
  return .contracts (← pathOr ".salvage" env g dataDir) (← numberOr 0 env g height)

def names : List String := ["extract", "recover", "check", "contracts", "help"]

/-- the command that the words of a command line and the variables give -/
def parse (env : String → Option String) : List String → Except Stop Command
  | [] => .error .usage
  | word :: r =>
    if Words.isOption word then
      match Words.option ⟨[verbose], 0, true⟩ ⟨[], []⟩ word with
      | .error e => .error e
      | .ok _ => parse env r
    else
      match word with
      | "extract" => parseExtract env r
      | "recover" => parseRecover env r
      | "check" => parseCheck env r
      | "contracts" => parseContracts env r
      | "help" =>
        match r with
        | [] => .error .help
        | [name] => .error (if names.contains name then .help else .usage)
        | _ => .error .usage
      | _ => .error .usage

end Command

end Reclaim
