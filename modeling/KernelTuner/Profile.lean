import KernelTuner.Size

/-!
Contract: counters for cache behaviour and for build and tune scopes.

Owns: the events, the log they are recorded in, the drained counts and the report
table. A cache event is recorded when a lookup has succeeded, a scope when it is
left, whether by success or by failure.
-/

set_option autoImplicit false

namespace KernelTuner

/-- Something that is counted. -/
inductive Event where
  | programCacheHit
  | programCacheMiss
  | registryHit
  | registryMiss
  | programCompile
  | programCacheBuild
  | tune
deriving DecidableEq, Repr

namespace Event

/-- Cache events first, each kind sorted by name. -/
def all : List Event :=
  [programCacheHit, programCacheMiss, registryHit, registryMiss, programCompile,
    programCacheBuild, tune]

def kind : Event → String
  | programCacheHit | programCacheMiss | registryHit | registryMiss => "cache"
  | programCompile | programCacheBuild | tune => "scope"

def name : Event → String
  | programCacheHit => "autokern.program_cache.hit"
  | programCacheMiss => "autokern.program_cache.miss"
  | registryHit => "autokern.registry.hit"
  | registryMiss => "autokern.registry.miss"
  | programCompile => "autokern.program.compile"
  | programCacheBuild => "autokern.program_cache.build"
  | tune => "autokern.tune"

end Event

/-- Events recorded since the last drain, latest first. -/
structure Profile where
  log : List Event := []

namespace Profile

def record (event : Event) (profile : Profile) : Profile := ⟨event :: profile.log⟩

def calls (profile : Profile) (event : Event) : Nat := profile.log.count event

/-- The recorded events with their counts. -/
def counts (profile : Profile) : List (Event × Nat) :=
  (Event.all.map (fun event => (event, profile.calls event))).filter (fun entry => 0 < entry.2)

/-- The counts, and the empty log that draining leaves. -/
def drain (profile : Profile) : List (Event × Nat) × Profile := (profile.counts, {})

theorem calls_record (event other : Event) (profile : Profile) :
    (profile.record event).calls other =
      profile.calls other + if event = other then 1 else 0 := by
  simp [calls, record, List.count_cons]

end Profile

/-- One line of a report. -/
structure ReportRow where
  kind : String
  name : String
  calls : Nat
  nanoseconds : Nat
deriving DecidableEq, Repr

structure Report where
  rows : List ReportRow
deriving DecidableEq, Repr

namespace Report

def isEmpty (report : Report) : Bool := report.rows.isEmpty

/-- Calls of all rows with this name, as a machine word holds their sum. -/
def calls (report : Report) (name : String) : Nat :=
  ((report.rows.filter (fun row => row.name = name)).foldl (fun total row => total + row.calls) 0) %
    Size.wordCount

/-- `text` followed by blanks up to `width` characters. -/
def padRight (width : Nat) (text : String) : String :=
  text ++ String.ofList (List.replicate (width - text.length) ' ')

/-- `text` behind blanks up to `width` characters. -/
def padLeft (width : Nat) (text : String) : String :=
  String.ofList (List.replicate (width - text.length) ' ') ++ text

def line (kind name calls total : String) : String :=
  padRight 6 kind ++ " " ++ padRight 40 name ++ " " ++ padLeft 8 calls ++ " " ++
    padLeft 12 total ++ "\n"

/-- The table of the report, with total times in microseconds. -/
def display (report : Report) : String :=
  line "kind" "name" "calls" "total_us" ++
    String.join (report.rows.map fun row =>
      line row.kind row.name (toString row.calls) (toString (row.nanoseconds / 1000)))

end Report

end KernelTuner
