import MiniNb.DecimalText
import MiniNb.NbEngine

/-!
# The printed report

The texts that `nb_histogram_dump` prints, and the line that the engine prints
above them. The numbers are those of the report; here they get the widths, the
decimals and the literals of the format strings. A text is the list of its
characters, and the report a list of lines.
-/

namespace MiniNb

open ExactDouble DecimalText

universe u v

/-- `"[%7s, %7s)\t%11s\t%7s\n"`. -/
def dumpHeader : List Char :=
  "[".toList ++ pad 7 "t min".toList ++ ", ".toList ++ pad 7 "t max".toList ++ ")\t".toList ++
    pad 11 "ops count".toList ++ "\t".toList ++ pad 7 "%".toList

def dumpRule : List Char := "--------------------------------------------------".toList

variable {K : Type u} [Field K] [LinearOrder K] [FloorSemiring K] (nanSign : Bool)

def rowColumns (row : Row K) : List Column :=
  [⟨7, double nanSign 0 row.lower, ", "⟩, ⟨7, double nanSign 0 row.upper, ")\t"⟩,
    ⟨11, Nat.toDigits 10 row.count, "\t"⟩, ⟨7, double nanSign 2 row.percents, " "⟩]

/-- `"[%7.0lf, %7.0lf)\t%11zu\t%7.2lf "` and the marks. -/
def rowText (row : Row K) : List Char :=
  "[".toList ++ (printColumns (rowColumns nanSign row) ++ List.replicate row.marks '#')

def totalColumns (report : Report K) : List Column :=
  [⟨7, double nanSign 0 report.totalSum, "\t"⟩,
    ⟨11, Nat.toDigits 10 report.totalCount, "\t   100%"⟩]

/-- `"Total:%5s%7.0lf\t%11zu\t   100%%\n"`. -/
def totalText (report : Report K) : List Char :=
  "Total:".toList ++ pad 5 "".toList ++ printColumns (totalColumns nanSign report)

def latencyColumns (power : Int) (latency : Dbl K) : List Column :=
  [⟨7, double nanSign 6 latency, " * 1e"⟩, ⟨0, (toString (-power)).toList, " sec/op"⟩]

/-- `"%7.6lf * 1e%d sec/op\n"` behind a label. -/
def latencyText (power : Int) (label : List Char) (latency : Dbl K) : List Char :=
  label ++ printColumns (latencyColumns nanSign power latency)

/-- `"%-2.4lf%%  latency  : "` in front of the latency. -/
def percentileText (power : Int) (percentile : Dbl K × Dbl K) : List Char :=
  latencyText nanSign power
    (padRight 2 (double nanSign 4 percentile.1) ++ "%  latency  : ".toList) percentile.2

def throughputColumns (report : Report K) : List Column :=
  [⟨7, double nanSign 0 report.throughput, " ops/sec"⟩]

/-- `"Avg throughput    : %7.0lf ops/sec\n"`. -/
def throughputText (report : Report K) : List Char :=
  "Avg throughput    : ".toList ++ printColumns (throughputColumns nanSign report)

/-- The lines of `nb_histogram_dump`, for the numbers of its report. -/
def dumpLines (power : Int) (report : Report K) : List (List Char) :=
  [dumpHeader, dumpRule] ++ report.rows.map (rowText nanSign) ++
    ([dumpRule, totalText nanSign report,
      latencyText nanSign power "Min latency       : ".toList report.minLatency,
      latencyText nanSign power "Avg latency       : ".toList report.avgLatency,
      latencyText nanSign power "Max latency       : ".toList report.maxLatency] ++
      report.percentiles.map (percentileText nanSign power) ++ [throughputText nanSign report])

/-- What `nb_histogram_dump` prints. -/
def dumpText (power : Int) (report : Report K) : List Char := printLines (dumpLines nanSign power report)

/-- The standard output of a run that makes a report, whose histogram has power six. -/
def engineOutput {Db : Type v} (result : EngineResult K Db) : Option (List Char) :=
  result.report.map (fun report => "Histogram:\n".toList ++ dumpText nanSign 6 report)

end MiniNb
