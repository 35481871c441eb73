/-
Saving a file from an empty working directory.

A path leads from the root or from the working directory, step by step, through directories
to a name.  Around the working directory stands as much of a file system as its paths can
be counted on to meet: the directories under the root, and the devices among them.  One
device takes any text and keeps nothing, one never has room, and two stand for what the
program prints.

What stops a path is settled from the left.  Every step but the last has to lead to a
directory.  At the last step a path that names a directory, or that ends with a slash, is no
file; whether its name is too long comes only after that.
-/
import SamplingProfiler.CommandLine.Run

namespace SamplingProfiler

namespace EmptyDirectory

/-! ### The file system -/

/-- A directory. -/
inductive Directory where
  | root
  /-- The working directory; it is empty. -/
  | working
  /-- The directory of temporary files, with the working directory in it. -/
  | temporary
  | devices
  /-- The directory of the open streams of the program. -/
  | streams
  | processes
  /-- The directory of the settings of the system. -/
  | settings
  | other
deriving DecidableEq, Inhabited

/-- What a name in a directory stands for. -/
inductive Item where
  | directory (d : Directory)
  /-- A file of the system. -/
  | file
  /-- A device that takes any text and keeps nothing. -/
  | sink
  /-- A device that never has room. -/
  | full
  /-- The terminal; the program has none. -/
  | terminal
  /-- What the program prints. -/
  | printed
  /-- What the program prints about errors. -/
  | told
deriving DecidableEq, Inhabited

namespace Directory

/-- The directories under the root of which nothing more is known. -/
def others : List String :=
  ["bin", "boot", "home", "lib", "media", "mnt", "opt", "root", "run", "sbin", "srv", "sys",
    "usr", "var"]

/-- What is in a directory under a name. -/
def item? : Directory → String → Option Item
  | root, "dev" => some (.directory devices)
  | root, "etc" => some (.directory settings)
  | root, "proc" => some (.directory processes)
  | root, "tmp" => some (.directory temporary)
  | root, name => if name ∈ others then some (.directory other) else none
  | devices, "null" => some .sink
  | devices, "zero" => some .sink
  | devices, "random" => some .sink
  | devices, "urandom" => some .sink
  | devices, "full" => some .full
  | devices, "tty" => some .terminal
  | devices, "stdin" => some .sink
  | devices, "stdout" => some .printed
  | devices, "stderr" => some .told
  | devices, "fd" => some (.directory streams)
  | devices, "shm" => some (.directory other)
  | devices, "pts" => some (.directory other)
  | devices, "mqueue" => some (.directory other)
  | streams, "0" => some .sink
  | streams, "1" => some .printed
  | streams, "2" => some .told
  | settings, "passwd" => some .file
  | settings, "group" => some .file
  | settings, "hosts" => some .file
  | settings, "hostname" => some .file
  | _, _ => none

/-- The directory that a directory is in; the root is in itself. -/
def parent : Directory → Directory
  | working => temporary
  | streams => processes
  | _ => root

/-- Can files be made in the directory? -/
def takesFiles : Directory → Bool
  | streams => false
  | processes => false
  | _ => true

end Directory

/-! ### Following a path -/

/-- What the system says of a path that leads through nothing. -/
def noSuchFile : String := "No such file or directory (os error 2)"

/-- What the system says of a terminal when there is none. -/
def noSuchDevice : String := "No such device or address (os error 6)"

/-- What the system says of a path that leads through a file. -/
def notDirectory : String := "Not a directory (os error 20)"

/-- What the system says of a file that is a directory. -/
def isDirectory : String := "Is a directory (os error 21)"

/-- What the system says when there is no room. -/
def noSpace : String := "No space left on device (os error 28)"

/-- What the system says of a path or a step of it that is too long. -/
def nameTooLong : String := "File name too long (os error 36)"

/-- The most bytes in a step. -/
def maxNameBytes : Nat := 255

/-- The most bytes in a path. -/
def maxPathBytes : Nat := 4095

/-- The steps of a path; slashes in a row count as one. -/
def steps (path : String) : List String :=
  ((path.toList.splitOn '/').filter (!·.isEmpty)).map String.ofList

/-- Looks a step up that is a name. -/
def lookUp (d : Directory) (name : String) : Except String (Option Item) :=
  if name.utf8ByteSize > maxNameBytes then .error nameTooLong else .ok (d.item? name)

/-- The directory that a step leads to, or why it leads to none. -/
def enter (d : Directory) (step : String) : Except String Directory :=
  if step = "." then .ok d
  else if step = ".." then .ok d.parent
  else
    match lookUp d step with
    | .error why => .error why
    | .ok none => .error noSuchFile
    | .ok (some (.directory d)) => .ok d
    | .ok (some _) => .error notDirectory

/-- What a path to be written to leads to. -/
inductive Target where
  | there (item : Item)
  | fresh (d : Directory) (name : String)
deriving DecidableEq, Inhabited

/-- What the last step leads to.  `closed` says whether a slash follows it. -/
def arrive (d : Directory) (closed : Bool) (step : String) : Except String Target :=
  if step = "." || step = ".." || closed then .error isDirectory
  else
    match lookUp d step with
    | .error why => .error why
    | .ok (some (.directory _)) => .error isDirectory
    | .ok (some .terminal) => .error noSuchDevice
    | .ok (some item) => .ok (.there item)
    | .ok none => if d.takesFiles then .ok (.fresh d step) else .error noSuchFile

/-- What steps lead to from a directory.  No step at all leads to the directory itself. -/
def follow (closed : Bool) : Directory → List String → Except String Target
  | _, [] => .error isDirectory
  | d, [last] => arrive d closed last
  | d, step :: rest =>
    match enter d step with
    | .error why => .error why
    | .ok d => follow closed d rest

/-- What a path leads to, or why it leads to nothing that can be written. -/
def target (path : String) : Except String Target :=
  if path.utf8ByteSize > maxPathBytes then .error nameTooLong
  else
    let start := if path.toList.head? = some '/' then Directory.root else Directory.working
    follow (path.toList.getLast? = some '/') start (steps path)

/-! ### Saving -/

/-- Where a text that is saved to a path goes. -/
def save (path : String) : Except Run.SaveFailure Run.Destination :=
  match target path with
  | .error why => .error (.notCreated why)
  | .ok (.there .full) => .error (.notWritten noSpace)
  | .ok (.there .printed) => .ok .printed
  | .ok (.there .told) => .ok .told
  | .ok _ => .ok .file

/-- The name of the file that saving to a path leaves in the working directory, if it leaves
one there. -/
def fileName? (path : String) : Option String :=
  match target path with
  | .ok (.fresh .working name) => some name
  | _ => none

end EmptyDirectory

end SamplingProfiler
