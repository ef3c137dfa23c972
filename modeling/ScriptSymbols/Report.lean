import ScriptSymbols.Decimal.Fixed
import ScriptSymbols.Total

/-!
# Reports of timed phases

The phases of an indexing run with their durations and the peak of memory in use, as a table for
people or as CSV.

- `Report.human?` is the table; there is none if the durations overflow when they are summed.
- `Report.csv` is the CSV text.
-/

namespace ScriptSymbols

/-- A phase: its name, its duration in nanoseconds, the peak of memory in bytes, and what it did. -/
structure PhaseResult where
  name : String
  nanoseconds : Nat
  peakMemory : Option Nat
  detail : String

namespace Report

/-! ## Numbers -/

/-- A duration with two places, in the largest unit of which it has one: seconds, milliseconds,
microseconds or nanoseconds. -/
def duration (nanoseconds : Nat) : String :=
  if 1000000000 ≤ nanoseconds then Decimal.fixed 2 nanoseconds 1000000000 ++ "s"
  else if 1000000 ≤ nanoseconds then Decimal.fixed 2 nanoseconds 1000000 ++ "ms"
  else if 1000 ≤ nanoseconds then Decimal.fixed 2 nanoseconds 1000 ++ "µs"
  else Decimal.fixed 2 nanoseconds 1 ++ "ns"

/-- A duration in milliseconds, computed in double precision. -/
def milliseconds (nanoseconds : Nat) : Float :=
  let seconds := (nanoseconds / 1000000000).toUInt64.toFloat
  let rest := (nanoseconds % 1000000000).toUInt64.toFloat
  (seconds + rest / 1000000000.0) * 1000.0

/-- A kilobyte. -/
def kilobyte : Nat := 1024

/-- A megabyte. -/
def megabyte : Nat := 1024 * kilobyte

/-- A gigabyte. -/
def gigabyte : Nat := 1024 * megabyte

/-- A number of bytes in the largest unit of which there is one, computed in double precision. -/
def bytes (n : Nat) : String :=
  let part (unit : Nat) : String := Decimal.fixedFloat 1 (n.toUInt64.toFloat / unit.toUInt64.toFloat)
  if gigabyte ≤ n then part gigabyte ++ " GB"
  else if megabyte ≤ n then part megabyte ++ " MB"
  else if kilobyte ≤ n then part kilobyte ++ " KB"
  else toString n ++ " B"

/-! ## The table -/

/-- Spaces that fill a text up to a width. -/
def filling (width : Nat) (text : String) : String :=
  String.ofList (List.replicate (width - text.length) ' ')

/-- A text at the left of a column. -/
def left (width : Nat) (text : String) : String :=
  text ++ filling width text

/-- A text at the right of a column. -/
def right (width : Nat) (text : String) : String :=
  filling width text ++ text

/-- The line of a phase. -/
def phaseLine (p : PhaseResult) : String :=
  let memory :=
    match p.peakMemory with
    | some n => bytes n
    | none => "N/A"
  "  " ++ left 8 p.name ++ " " ++ right 10 (duration p.nanoseconds) ++ "   RSS: " ++ left 10 memory
    ++ "  (" ++ p.detail ++ ")\n"

/-- The line of the total. -/
def totalLine (nanoseconds : Nat) : String :=
  "\n  " ++ left 8 "TOTAL" ++ " " ++ right 10 (duration nanoseconds) ++ "\n"

/-- The whole seconds that a sum of durations may have at most. -/
def maxSeconds : Nat := UInt64.size - 1

/-- The phases as a table. From two phases on there is a total; if it overflows there is no table. -/
def human? (phases : List PhaseResult) : Option String :=
  let sum := total (·.nanoseconds) phases
  let head := "=== hotscope Index Stats ===\n\n" ++ String.join (phases.map phaseLine)
  if 1 < phases.length then
    if maxSeconds < sum / 1000000000 then none else some (head ++ totalLine sum ++ "\n")
  else some (head ++ "\n")

/-! ## CSV -/

/-- A text in quotes, where a quote in it is written twice. -/
def quoted (text : String) : String :=
  String.ofList ('"' :: (text.toList.flatMap fun c => if c = '"' then ['"', '"'] else [c]) ++ ['"'])

/-- The record of a phase. -/
def csvLine (p : PhaseResult) : String :=
  p.name ++ "," ++ Decimal.fixedFloat 3 (milliseconds p.nanoseconds) ++ ","
    ++ (match p.peakMemory with
        | some n => toString n
        | none => "")
    ++ "," ++ quoted p.detail

/-- The lines of the CSV text, its header first. -/
def csvLines (phases : List PhaseResult) : List String :=
  "phase,duration_ms,peak_rss_bytes,detail" :: phases.map csvLine

/-- The phases as CSV. -/
def csv (phases : List PhaseResult) : String :=
  String.join ((csvLines phases).map (· ++ "\n"))

end Report
end ScriptSymbols
