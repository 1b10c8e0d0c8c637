import RegistryFleet.Command.Display
import RegistryFleet.Text.Digits

/-!
# Command/Moment — marks of runs

A run is marked by an identifier that grows with time, and by the moments at which it began and
ended, in universal time.
-/

namespace RegistryFleet.Command

/-- A number with so many digits, zeros in front. -/
def padded (width n : Nat) : String :=
  let digits := toString n
  "".pushn '0' (width - digits.length) ++ digits

/-- Year, month and day of a day, counted from the first of January 1970. Years are counted from
March, so that the day that some years lack is their last. -/
def civilDate (day : Nat) : Nat × Nat × Nat :=
  let shifted := day + 719468
  let era := shifted / 146097
  let ofEra := shifted % 146097
  let yearOfEra := (ofEra - ofEra / 1460 + ofEra / 36524 - ofEra / 146096) / 365
  let ofYear := ofEra - (365 * yearOfEra + yearOfEra / 4 - yearOfEra / 100)
  let shiftedMonth := (5 * ofYear + 2) / 153
  let dayOfMonth := ofYear - (153 * shiftedMonth + 2) / 5 + 1
  let month := if shiftedMonth < 10 then shiftedMonth + 3 else shiftedMonth - 9
  let year := yearOfEra + era * 400 + if month ≤ 2 then 1 else 0
  (year, month, dayOfMonth)

/-- **A moment as text**, given in nanoseconds since the beginning of 1970. -/
def momentText (nanoseconds : Nat) : String :=
  let seconds := nanoseconds / 1000000000
  let (year, month, day) := civilDate (seconds / 86400)
  let ofDay := seconds % 86400
  padded 4 year ++ "-" ++ padded 2 month ++ "-" ++ padded 2 day ++ "T" ++ padded 2 (ofDay / 3600)
    ++ ":" ++ padded 2 (ofDay / 60 % 60) ++ ":" ++ padded 2 (ofDay % 60) ++ "."
    ++ padded 9 (nanoseconds % 1000000000) ++ "Z"

example : momentText 951782400000000007 = "2000-02-29T00:00:00.000000007Z" := by decide +kernel

/-- **The mark of a run**: 48 bits of milliseconds, then the version, the variant and chance. -/
def runId (milliseconds chance : Nat) : String :=
  let hex (width n : Nat) : String := String.ofList (Text.lowerHex width n)
  hex 8 (milliseconds / 65536) ++ "-" ++ hex 4 milliseconds ++ "-7" ++ hex 3 chance ++ "-"
    ++ hex 1 (8 + chance / 4096 % 4) ++ hex 3 (chance / 16384) ++ "-" ++ hex 12 (chance / 67108864)

example : runId 0x018f3c2a4b5d 0 = "018f3c2a-4b5d-7000-8000-000000000000" := by decide +kernel

/-- The stamp of a run that began and ended at these moments. -/
def stampOf (chance started finished : Nat) : Stamp :=
  ⟨runId (started / 1000000) chance, momentText started, momentText finished⟩

end RegistryFleet.Command
