/-
A run of the command line program, without its effects.

A run configures a profiler, starts the samplers that are asked for, lets the workload run
until it is told to stop, and ends by reporting what was found.  What happens in between
takes real time and belongs to the caller.  So the run is given as its two ends: `opening`
says what is printed at the start and gives the running process, and `closing` stops and
exports and says what is printed and saved at the end.
-/
import SamplingProfiler.CommandLine.Arguments
import SamplingProfiler.Hotspot
import SamplingProfiler.Document.Text

namespace SamplingProfiler

namespace Run

/-- The version that is announced. -/
def version : String := "0.1.0"

/-- How many frames the workload's call stack can store. -/
def stackCapacity : Nat := 256

/-- Exit codes. -/
inductive ExitCode where
  | success
  | failure
  /-- The arguments or the configuration are not acceptable. -/
  | usage
  /-- The program gave up. -/
  | gaveUp
deriving DecidableEq, Inhabited

/-- The number of an exit code. -/
def ExitCode.number : ExitCode → Nat
  | success => 0
  | failure => 1
  | usage => 2
  | gaveUp => 101

/-- The exit code of a program whose arguments are not accepted.  To ask for help is no
mistake. -/
def ExitCode.ofArgumentError : ArgumentError → ExitCode
  | .displayHelp => success
  | _ => usage

/-- What a run prints and saves. -/
structure Output where
  /-- What is printed. -/
  printed : String := ""
  /-- What is printed about errors and progress. -/
  told : String := ""
  /-- The file that is saved, and its text. -/
  saved : Option (String × String) := none
deriving DecidableEq, Inhabited

namespace Output

/-- Prints. -/
def print (o : Output) (text : String) : Output := { o with printed := o.printed ++ text }

/-- Prints an error or progress. -/
def tell (o : Output) (text : String) : Output := { o with told := o.told ++ text }

/-- Prints why the run fails. -/
def tellError (o : Output) (text : String) : Output := o.tell ("error: " ++ text ++ "\n")

end Output

/-- Why the run is over before it has an end to report. -/
structure Failure where
  /-- The exit code. -/
  code : ExitCode
  /-- What has been printed. -/
  output : Output
deriving Inhabited

/-- Starts one sampler; the answer is the line that announces it. -/
def startSampler (args : Arguments) : SamplerKind → Action Unit (Except SamplerError String)
  | .cpu => do
    match ← Action.startCpu .quiet (Weight.ofNat args.interval) with
    | .ok () => return .ok ("CPU sampling: every " ++ toString args.interval ++ "ms of CPU time\n")
    | .error e => return .error e
  | .memory => do
    match ← Action.startMemory .quiet with
    | .ok () =>
      return .ok (match args.config.allocSampleBytes with
        | 0 => "memory sampling: every allocation\n"
        | bytes => "memory sampling: every " ++ toString bytes ++ " bytes\n")
    | .error e => return .error e

/-- What stands before the reason why a sampler does not start. -/
def startContext : SamplerKind → String
  | .cpu => "Failed to start CPU profiler: "
  | .memory => "Failed to start memory profiler: "

/-- Starts samplers one after the other. -/
def startSamplers (args : Arguments) :
    List SamplerKind → Output → Process Unit → Except Failure (Output × Process Unit)
  | [], output, p => .ok (output, p)
  | kind :: rest, output, p =>
    match startSampler args kind p with
    | (.ok (.ok line), p) =>
      startSamplers args rest (if args.quiet then output else output.print line) p
    | (.ok (.error e), _) =>
      .error ⟨.failure, output.tellError (startContext kind ++ e.message)⟩
    | (.error (.panic message), _) => .error ⟨.gaveUp, output.tell ("\n" ++ message ++ "\n")⟩
    | (.error .deadlock, _) => .error ⟨.gaveUp, output⟩

/-- The beginning of a run. -/
def opening (args : Arguments) : Except Failure (Output × Process Unit) :=
  match Process.idle args.config stackCapacity true .mixing () with
  | .error e =>
    .error ⟨.usage, ({} : Output).tellError ("Invalid profiler configuration: " ++ e.message)⟩
  | .ok p =>
    let output : Output :=
      if args.quiet then {}
      else { printed := "sprof v" ++ version ++ "\nmode: " ++ args.mode.label ++ "\n" }
    startSamplers args args.mode.kinds output p

/-- Stops both samplers and exports the profiles that were asked for. -/
def collect (args : Arguments) : Action Unit (List Snapshot) := do
  let _ ← Action.stopCpu .quiet
  let _ ← Action.stopMemory
  args.mode.kinds.mapM (Action.exportKind .quiet)

/-- The text that snapshots are saved as: a document, or an array of several. -/
def fileText (snapshots : List Snapshot) : String :=
  let exporter : Exporter := ⟨Function.frameNames⟩
  let json : Json := match snapshots with
    | [snapshot] => (exporter.document snapshot).toJson
    | snapshots => .array (snapshots.map fun s => (exporter.document s).toJson)
  String.ofList (json.pretty ++ ['\n'])

/-- Why a file is not saved. -/
inductive SaveFailure where
  /-- It cannot be created. -/
  | notCreated (why : String)
  /-- It was created, but its text cannot be written. -/
  | notWritten (why : String)
deriving DecidableEq

/-- The failure to save to a path, in words. -/
def SaveFailure.message (path : String) : SaveFailure → String
  | notCreated why => "Failed to create " ++ path ++ ": " ++ why
  | notWritten why => "Failed to export profile: " ++ why

/-- Where a saved text goes. -/
inductive Destination where
  /-- Into a file, or to a device. -/
  | file
  /-- To what the program prints. -/
  | printed
  /-- To what the program prints about errors. -/
  | told
deriving DecidableEq

/-- Stops the samplers and reports on their profiles.  `reason` says why the workload was
stopped. -/
def reporting (args : Arguments) (reason : String) (output : Output) (p : Process Unit) :
    Except Failure (Output × List Snapshot) :=
  let output := if args.quiet then output else output.tell ("\n" ++ reason ++ "\n")
  match collect args p with
  | (.error (.panic message), _) => .error ⟨.gaveUp, output.tell ("\n" ++ message ++ "\n")⟩
  | (.error .deadlock, _) => .error ⟨.gaveUp, output⟩
  | (.ok snapshots, _) =>
    let reports := snapshots.map fun s => report Function.frameNames s args.top
    .ok (output.print (String.join reports), snapshots)

/-- Saves the profiles, if a path is given.  `save` says where a text that is saved to a path
goes. -/
def saving (args : Arguments) (save : String → Except SaveFailure Destination)
    (output : Output) (snapshots : List Snapshot) : ExitCode × Output :=
  match args.exportPath with
  | none => (.success, output)
  | some path =>
    match save path with
    | .error failure => (.failure, output.tellError (failure.message path))
    | .ok destination =>
      let text := fileText snapshots
      let output := match destination with
        | .file => { output with saved := some (path, text) }
        | .printed => output.print text
        | .told => output.tell text
      (.success, if args.quiet then output else output.print ("saved: " ++ path ++ "\n"))

/-- The reason why a run that was interrupted stopped. -/
def interrupted : String := "interrupted"

/-- A run that is interrupted before anything is sampled. -/
def interruptedAtOnce (args : Arguments) (save : String → Except SaveFailure Destination) :
    ExitCode × Output :=
  match opening args with
  | .error f => (f.code, f.output)
  | .ok (output, p) =>
    match reporting args interrupted output p with
    | .error f => (f.code, f.output)
    | .ok (output, snapshots) => saving args save output snapshots

end Run

end SamplingProfiler
