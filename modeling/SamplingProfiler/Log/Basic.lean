/-
The backtrace log: a histogram of call stacks that never grows.

A log has a fixed number of rows.  Each row is taken or free.  A taken row holds one
backtrace with its weight, and a stack of the free rows says which one the next new
backtrace takes: the one freed last.  When a new backtrace comes and no row is free, an
eviction round frees every row whose weight is at or below an approximate median of all
weights; the rows above it keep their place, their backtrace and their weight.

Backtraces are found by hash.  An index gives the first row with a hash, and each row
links to the next row with the same hash; the backtraces in the rows decide.  So the rows,
the stack of free rows, the links and the index describe the same entries in four ways,
and every change has to keep them in step.

Besides its rows a log owns a scratch row.  A source of backtraces writes into it, so that
recording a sample needs no memory of its own.
-/
import SamplingProfiler.Log.Hasher
import SamplingProfiler.Weight
import SamplingProfiler.Median
import Std.Data.TreeMap

namespace SamplingProfiler

/-- A backtrace and the weight recorded under it. -/
structure Entry where
  /-- The backtrace, newest frame first, padded to the depth of its log. -/
  frames : List FrameId
  /-- What has been recorded under it. -/
  weight : Weight
deriving DecidableEq, Inhabited

/-- One row of a log. -/
structure Row where
  /-- The backtrace; all padding in a free row. -/
  frames : List FrameId
  /-- The weight. -/
  weight : Weight
  /-- The hash of the backtrace. -/
  hash : UInt64
  /-- The next row with the same hash. -/
  next : Option Nat
  /-- Is the row taken? -/
  taken : Bool
deriving DecidableEq, Inhabited

namespace Row

/-- A row that nothing has been written to. -/
def blank (depth : Nat) : Row := ⟨List.replicate depth FrameId.null, 0, 0, none, false⟩

/-- What a row holds. -/
def entry? (row : Row) : Option Entry := if row.taken then some ⟨row.frames, row.weight⟩ else none

/-- Is this row taken by an entry that weighs at most `line`? -/
def isDoomed (line : Nat) (row : Row) : Bool := row.taken && row.weight.val ≤ line

end Row

/-- A bounded histogram of backtraces. -/
structure BacktraceLog where
  /-- The length of every backtrace in the log. -/
  depth : Nat
  /-- The rows. -/
  rows : Array Row
  /-- The free rows, the next one to be taken first. -/
  free : List Nat
  /-- The first row with a hash. -/
  index : Std.TreeMap UInt64 Nat
  /-- The hash function. -/
  hasher : Hasher
  /-- Where a source writes the backtrace that is being recorded. -/
  scratch : List FrameId
  /-- How many eviction rounds there have been.  The count has no bound here; it is assumed that
  no log sees 2^64 rounds. -/
  evictions : Nat
deriving Inhabited

namespace BacktraceLog

/-- The most rows a log can have. -/
def maxRows : Nat := 0xFFFFFFFF

/-- The rows that a log asked to hold `capacity` backtraces gets: at least one, at most
`maxRows`. -/
def rowsFor (capacity : Nat) : Nat := max 1 (min capacity maxRows)

/-- The depth that a log asked for backtraces of `depth` frames gets: at least one. -/
def depthFor (depth : Nat) : Nat := max 1 depth

/-- An empty log. -/
def empty (hasher : Hasher) (capacity depth : Nat) : BacktraceLog where
  depth := depthFor depth
  rows := Array.replicate (rowsFor capacity) (.blank (depthFor depth))
  free := List.range (rowsFor capacity)
  index := ∅
  hasher := hasher
  scratch := List.replicate (depthFor depth) FrameId.null
  evictions := 0

/-- How many backtraces the log can hold. -/
def capacity (log : BacktraceLog) : Nat := log.rows.size

/-- The entries in row order. -/
def entries (log : BacktraceLog) : List Entry := log.rows.toList.filterMap Row.entry?

/-- How many entries there are. -/
def len (log : BacktraceLog) : Nat := log.capacity - log.free.length

/-- Is every row free? -/
def isEmpty (log : BacktraceLog) : Bool := log.len == 0

/-- The saturating sum of all weights in the log. -/
def totalWeight (log : BacktraceLog) : Weight := Weight.sum (log.entries.map (·.weight))

/-! ### Finding a backtrace

A hash only says where to begin.  A row counts as found when it holds the backtrace itself, so two
backtraces with one hash are never taken for each other.  The steps are counted because nothing
in the rows says that links come to an end.
-/

/-- Follows links from a row to the first row with this backtrace.  No more rows are looked
at than `steps`. -/
def seek (rows : Array Row) (key : List FrameId) : Nat → Option Nat → Option Nat
  | steps + 1, some r =>
    match rows[r]? with
    | some row => if row.frames = key then some r else seek rows key steps row.next
    | none => none
  | _, _ => none

/-- The row that holds exactly this backtrace.  There are no more links to follow than
rows. -/
def rowOf (log : BacktraceLog) (key : List FrameId) : Option Nat :=
  seek log.rows key log.capacity log.index[log.hasher.hash key]?

/-- The weight recorded under a backtrace of any length, brought to the log's depth. -/
def weightOf (log : BacktraceLog) (frames : List FrameId) : Option Weight := do
  let r ← log.rowOf (Backtrace.normalise log.depth frames)
  let row ← log.rows[r]?
  return row.weight

/-! ### Eviction

The line is drawn before the first row is freed, so it does not move with the weights that are
wiped on the way.  The rows are freed one by one, and each release leaves the links as the next
one needs them.
-/

/-- Follows links from a row to the row that links to `target`.  No more rows are looked at
than `steps`. -/
def linkTo (rows : Array Row) (target : Nat) : Nat → Nat → Option Nat
  | steps + 1, r =>
    match rows[r]?.bind Row.next with
    | some next => if next = target then some r else linkTo rows target steps next
    | none => none
  | 0, _ => none

/-- Takes a row out of the links that start at the index. -/
def unlink (log : BacktraceLog) (r : Nat) (row : Row) : BacktraceLog :=
  match log.index[row.hash]? with
  | none => log
  | some head =>
    if head = r then
      match row.next with
      | none => { log with index := log.index.erase row.hash }
      | some next => { log with index := log.index.insert row.hash next }
    else
      match linkTo log.rows r log.capacity head with
      | none => log
      | some before =>
        { log with rows := log.rows.modify before fun q => { q with next := row.next } }

/-- Frees a row: unlinks it, wipes it, and makes it the next one to be taken. -/
def release (log : BacktraceLog) (r : Nat) : BacktraceLog :=
  match log.rows[r]? with
  | none => log
  | some row =>
    let unlinked := log.unlink r row
    { unlinked with
      rows := unlinked.rows.setIfInBounds r (.blank log.depth)
      free := r :: log.free }

/-- The line that an eviction round draws through the weights, in row order. -/
def evictionLine (log : BacktraceLog) : Nat :=
  approximateMedian (log.rows.toList.map (·.weight.val))

/-- Frees a row if it is taken by an entry that weighs at most `line`. -/
def sweep (line : Nat) (log : BacktraceLog) (r : Nat) : BacktraceLog :=
  if log.rows[r]?.any (Row.isDoomed line) then log.release r else log

/-- One eviction round: every row at or below the line is freed, the highest of them last. -/
def evict (log : BacktraceLog) : BacktraceLog :=
  let swept := (List.range log.capacity).foldl (sweep log.evictionLine) log
  { swept with evictions := log.evictions + 1 }

/-! ### Recording

Only a new backtrace can bring a round about.  A weight is added to a row by the number of the
row, and the number is taken at its word: a round that came in between may have given the row to
another backtrace.
-/

/-- Takes the next free row.  While there is none, eviction rounds are run, at most so
many. -/
def takeRow : Nat → BacktraceLog → Nat × BacktraceLog
  | rounds, log =>
    match log.free, rounds with
    | r :: rest, _ => (r, { log with free := rest })
    | [], rounds + 1 => takeRow rounds log.evict
    | [], 0 => (0, log)

/-- Writes a new backtrace with weight zero into a row, as the first one with its hash. -/
def place (log : BacktraceLog) (r : Nat) (key : List FrameId) : BacktraceLog :=
  let hash := log.hasher.hash key
  { log with
    rows := log.rows.setIfInBounds r ⟨key, 0, hash, log.index[hash]?, true⟩
    index := log.index.insert hash r }

/-- The row of a backtrace.  A new one takes a free row, after an eviction round if there
is none.  No more rounds can be needed than there are rows, as each frees one. -/
def lookupOrCreate (log : BacktraceLog) (frames : List FrameId) : Nat × BacktraceLog :=
  let key := Backtrace.normalise log.depth frames
  match log.rowOf key with
  | some r => (r, log)
  | none =>
    let (r, log) := log.takeRow log.capacity
    (r, log.place r key)

/-- Adds to the weight of a row, taken or free.  A number that is no row takes nothing. -/
def increment (log : BacktraceLog) (r : Nat) (weight : Weight) : BacktraceLog :=
  { log with rows := log.rows.modify r fun row => { row with weight := row.weight + weight } }

/-- Adds to the weight of a backtrace, and says in which row it is. -/
def add (log : BacktraceLog) (frames : List FrameId) (weight : Weight) : Nat × BacktraceLog :=
  let (r, log) := log.lookupOrCreate frames
  (r, log.increment r weight)

/-- A source of backtraces fills a row of frames from the front, newest frame first, and
says how many it filled. -/
abbrev Source := List FrameId → List FrameId × Nat

/-- The source that writes the given frames, as far as the row goes, and claims a number of
its own choice or, if it has none, the number it wrote. -/
def writing (frames : List FrameId) (claim : Option Nat) : Source := fun row =>
  let count := min frames.length row.length
  (frames.take count ++ row.drop count, claim.getD count)

/-- Lets a source write into the scratch row and adds to the weight of what it wrote.  A
source that claims more frames than the row has is believed up to the row's end; what
lies past its claim is cleared, so that nothing of an earlier recording remains. -/
def record (log : BacktraceLog) (source : Source) (weight : Weight) : BacktraceLog :=
  let (written, claimed) := source log.scratch
  let scratch := Backtrace.normalise written.length (written.take claimed)
  { (log.add scratch weight).2 with scratch := scratch }

/-- A log whose scratch row was lost while a source was writing into it. -/
def loseScratch (log : BacktraceLog) : BacktraceLog := { log with scratch := [] }

/-- The log as diagnostics show it. -/
def display (log : BacktraceLog) : String :=
  "BacktraceLog \x7b capacity: " ++ toString log.capacity
    ++ ", depth: " ++ toString log.depth
    ++ ", len: " ++ toString log.len
    ++ ", evictions: " ++ toString log.evictions ++ ", .. \x7d"

end BacktraceLog

end SamplingProfiler
