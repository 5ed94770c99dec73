import Offside.Conversion
import Offside.Json.Basic

/-!
# Reports

A `Report` is what a tool gets to know about a conversion, and `Report.toJson` its form as JSON.
Diagnostics are listed as `Finding`s: code, severity, stage, message, line and hint, but neither
cause nor columns.
-/

namespace Offside

/-- What a report says about one diagnostic. -/
structure Finding where
  code : String
  severity : Severity
  stage : Stage
  message : String
  line? : Option Nat
  hint? : Option String
deriving DecidableEq

/-- The entry of a diagnostic. -/
def Diagnostic.finding (d : Diagnostic) : Finding :=
  ⟨d.code, d.severity, d.stage, d.message, d.line?, d.hint?⟩

/-- All that a tool gets to know about a conversion. -/
structure Report where
  success : Bool
  sourceFile : String
  output : Option String
  findings : List Finding
  counts : Counts
deriving DecidableEq

/-- The report on the conversion of a file. -/
def Conversion.report (sourceFile : String) (conversion : Conversion) : Report :=
  ⟨conversion.success, sourceFile, conversion.output,
    conversion.diagnostics.map Diagnostic.finding, conversion.counts⟩

/-- An entry as JSON. -/
def Finding.toJson (f : Finding) : Json :=
  .obj [("code", .str f.code), ("severity", .str f.severity.label), ("stage", .str f.stage.label),
    ("message", .str f.message), ("line", .ofOption .nat f.line?),
    ("suggestion", .ofOption .str f.hint?)]

/-- Counts as JSON. -/
def Counts.toJson (counts : Counts) : Json :=
  .obj [("token_count", .nat counts.tokens), ("statement_count", .nat counts.statements),
    ("line_count", .nat counts.lines)]

/-- A report as JSON. -/
def Report.toJson (report : Report) : Json :=
  .obj [("success", .bool report.success), ("source_file", .str report.sourceFile),
    ("output", .ofOption .str report.output),
    ("diagnostics", .arr (report.findings.map Finding.toJson)),
    ("stats", report.counts.toJson)]

/-- The text of a report. -/
def Report.text (report : Report) : String :=
  report.toJson.pretty

end Offside
