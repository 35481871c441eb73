/-
The command line program.

The workload runs in this process.  Between two of its runs the clock is read, and every
interval that has passed is delivered as a tick, with the program's main function on the
call stack.  The run ends when its time is up or when the standard input does.
-/
import SamplingProfiler.CommandLine.Run

namespace SamplingProfiler

namespace Main

/-- What `--help` prints. -/
def usage : String :=
  "Sample CPU time and allocations of a small interpreted workload\n\n"
    ++ "Usage: sprof [OPTIONS]\n\nOptions:\n"
    ++ "      --mode <MODE>                   Samplers to run: cpu, memory or both [default: cpu]\n"
    ++ "  -i, --interval <MS>                 CPU sampling interval in milliseconds [default: 10]\n"
    ++ "      --duration <SECONDS>            Stop after so many seconds (0 = until interrupted)\n"
    ++ "      --log-capacity <N>              Distinct call stacks each log can hold [default: 10000]\n"
    ++ "      --max-stack-depth <N>           Frames recorded per call stack [default: 16]\n"
    ++ "      --alloc-sample-bytes <BYTES>    Bytes per memory sample (0 = every allocation)\n"
    ++ "      --export <FILE>                 Write the exported profiles to a JSON file\n"
    ++ "      --top <N>                       Heaviest call stacks to print [default: 10]\n"
    ++ "  -q, --quiet                         Suppress non-essential output\n"
    ++ "  -h, --help                          Print help\n"

/-- An argument error in words. -/
def complaint : ArgumentError → String
  | .invalidValue => "a value is missing or not one of the possible values"
  | .valueValidation => "a value is not a number in range"
  | .unknownArgument => "unexpected argument"
  | .argumentConflict => "an option cannot be used multiple times"
  | .tooManyValues => "a flag takes no value"
  | .displayHelp => usage

/-- Delivers the ticks that are due, under the main function of the workload. -/
def deliverTicks (count : Nat) : Action Unit Unit :=
  Action.call .main (Action.times count (Action.tick .quiet))

/-- Runs the workload until the time is up or the standard input ends.  The answer is the
process and how often the workload ran. -/
partial def work (args : Arguments) (started : Nat) (stopped : IO (Bool)) (runs ticks : Nat)
    (p : Process Unit) : IO (Process Unit × Nat) := do
  let elapsed := (← IO.monoMsNow) - started
  let due := elapsed / args.interval
  let (_, p) := deliverTicks (due - ticks) p
  if (← stopped) || (0 < args.duration && args.duration * 1000 ≤ elapsed) then
    return (p, runs)
  let (_, p) := Action.runProgram .quiet p
  work args started stopped (runs + 1) due p

/-- Saves a text. -/
def save (path text : String) : IO (Except Run.SaveFailure Run.Destination) := do
  match ← (IO.FS.Handle.mk path .write).toBaseIO with
  | .error e => return .error (.notCreated (toString e))
  | .ok file =>
    match ← (do file.putStr text; file.flush : IO Unit).toBaseIO with
    | .error e => return .error (.notWritten (toString e))
    | .ok () => return .ok .file

/-- Prints what a run printed. -/
def showOutput (output : Run.Output) : IO Unit := do
  (← IO.getStdout).putStr output.printed
  (← IO.getStderr).putStr output.told

/-- Does a run and gives its exit code. -/
def run (args : Arguments) : IO Run.ExitCode := do
  match Run.opening args with
  | .error failure =>
    showOutput failure.output
    return failure.code
  | .ok (output, p) =>
    showOutput output
    let input ← IO.asTask ((← IO.getStdin).getLine)
    let started ← IO.monoMsNow
    let (p, runs) ← work args started (IO.hasFinished input) 0 0 p
    let elapsed := (← IO.monoMsNow) - started
    let reason := if ← IO.hasFinished input then Run.interrupted else "duration limit reached"
    let tally := ": " ++ toString (elapsed / 1000) ++ "." ++ toString (elapsed % 1000 / 100)
      ++ "s, " ++ toString runs ++ " program runs"
    match Run.reporting args (reason ++ tally) {} p with
    | .error failure =>
      showOutput failure.output
      return failure.code
    | .ok (output, snapshots) =>
      showOutput output
      let saved ← match args.exportPath with
        | some path => save path (Run.fileText snapshots)
        | none => pure (.ok .file)
      let (code, output) := Run.saving args (fun _ => saved) {} snapshots
      showOutput output
      return code

end Main

end SamplingProfiler

/-- Reads the arguments and does a run. -/
def main (texts : List String) : IO UInt32 := do
  match SamplingProfiler.Arguments.ofList texts with
  | .error e =>
    match e with
    | .displayHelp => IO.print (SamplingProfiler.Main.complaint e)
    | _ => IO.eprintln ("error: " ++ SamplingProfiler.Main.complaint e)
    return UInt32.ofNat (SamplingProfiler.Run.ExitCode.ofArgumentError e).number
  | .ok args => return UInt32.ofNat (← SamplingProfiler.Main.run args).number
