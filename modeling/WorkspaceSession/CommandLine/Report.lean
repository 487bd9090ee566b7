/-
The report of one reconciliation.

Both forms say the same: the classpath in the order in which it is searched, the sources in the
order of their URLs with location, origin and number of lines, and why sources are missing.
-/
import WorkspaceSession.CommandLine.Options
import WorkspaceSession.Json.Printer
import WorkspaceSession.Workspace

set_option autoImplicit false

namespace WorkspaceSession.CommandLine

/-- What is reported about one reconciliation. -/
structure Report where
  /-- Whether the session was built from nothing. -/
  fullBuild : Bool
  /-- The libraries. -/
  classpath : Classpath
  /-- The sources. -/
  sources : List Source
  /-- Why sources are missing. -/
  errors : List SurveyError
  deriving DecidableEq, Repr

namespace Report

/-- The report about a reconciliation and the session that it left. -/
def of (session : Session) (summary : Summary) : Report :=
  ⟨summary.fullBuild, session.config.classpath, session.sources, summary.errors⟩

/-- A heading with the number of lines below it. -/
def heading (name : String) (count : Nat) (unit : String) : String :=
  name ++ " (" ++ toString count ++ unit ++ "):"

/-- One source of the report for people. -/
def sourceLine (source : Source) : String :=
  "  " ++ source.location.display ++ " [" ++ source.origin.name ++ ", "
    ++ toString source.lineCount ++ " lines]"

/-- The report for people. The errors have a part only if there are any. -/
def text (report : Report) : String :=
  ofLines <|
    heading "classpath" report.classpath.size " archives"
      :: (report.classpath.archives.map fun archive => "  " ++ archive.display)
    ++ heading "sources" report.sources.length "" :: report.sources.map sourceLine
    ++
      if report.errors = [] then []
      else
        heading "errors" report.errors.length ""
          :: report.errors.map fun error => "  " ++ error.message

/-- One source of the report for tools. -/
def sourceJson (source : Source) : Json :=
  .object [
    ("uri", .string source.url.text),
    ("location", .string source.location.display),
    ("origin", .string source.origin.name),
    ("lines", .integer source.lineCount)]

/-- The report for tools. -/
def toJson (report : Report) : Json :=
  .object [
    ("full_build", .bool report.fullBuild),
    ("classpath", .array (report.classpath.archives.map fun archive => .string archive.display)),
    ("sources", .array (report.sources.map sourceJson)),
    ("errors", .array (report.errors.map fun error => .string error.message))]

/-- The report in a format. -/
def render (format : ReportFormat) (report : Report) : String :=
  match format with
  | .text => report.text
  | .json => report.toJson.pretty ++ "\n"

end Report

end WorkspaceSession.CommandLine
