import Stencil.Files.Generate

namespace Stencil

/-!
# Reports

A report is a list of items to show.  A terminal shows warnings apart from the
rest.
-/

/-- Something to show. -/
inductive ReportItem where
  | heading (title : Text)
  | keyValue (key value : Text)
  | listItem (text : Text)
  | addedItem (text : Text)
  | warning (text : Text)
  | divider (label : Text)
  | preformatted (text : Text)
  | newline
  deriving DecidableEq, Repr

/-- Things to show, in order. -/
abbrev Report := List ReportItem

namespace ReportItem

/-- The lines of an item that is no warning. -/
def output : ReportItem → Text
  | .heading title => title ++ ":\n"
  | .keyValue key value => key ++ ": " ++ value ++ "\n"
  | .listItem text => "  - " ++ text ++ "\n"
  | .addedItem text => "  + " ++ text ++ "\n"
  | .warning _ => []
  | .divider label => "── " ++ label ++ " ──\n"
  | .preformatted text => text ++ "\n"
  | .newline => "\n"

/-- The line of a warning. -/
def warningText : ReportItem → Text
  | .warning text => "warning: " ++ text ++ "\n"
  | _ => []

end ReportItem

namespace Report

/-- What a report shows on the output. -/
def output (report : Report) : Text := report.flatMap ReportItem.output

/-- What a report shows as warnings. -/
def warnings (report : Report) : Text := report.flatMap ReportItem.warningText

def emission (e : Emission) : ReportItem :=
  match e.outcome with
  | .generated => .addedItem ("Generated file " ++ e.destination)
  | .unchanged => .listItem ("No change to " ++ e.destination)

/-- The items of a file that would be written. -/
def previewed (file : OutputFile) : Report :=
  [.divider file.path, .preformatted file.content]

def written (emissions : List Emission) : Report :=
  let generated := (emissions.filter (·.outcome = .generated)).length
  emissions.map emission ++
    [.newline,
     .keyValue "Summary"
       (Text.ofNat generated ++ " generated, " ++
         Text.ofNat (emissions.length - generated) ++ " unchanged")]

/-- The report on files that would be written. -/
def preview (files : List OutputFile) : Report :=
  files.flatMap previewed ++
    [.divider "Summary",
     .preformatted (Text.ofNat files.length ++ " files would be generated")]

/-- The report on a run over a directory. -/
def generation (root : Text) (result : Generation) : Report :=
  let nothing : Report := [.warning ("no .dm. templates found under " ++ root)]
  match result with
  | .written [] => nothing
  | .preview [] => nothing
  | .written emissions => written emissions
  | .preview files => preview files

/-- The item of a declared flag. -/
def flag (declared : Text × Bool) : ReportItem :=
  .listItem (declared.1 ++ " (default " ++ Text.ofBool declared.2 ++ ")")

/-- The report on a checked spec. -/
def check (spec : Spec) (path : Text) : Report :=
  let attributes := spec.components.flatMap (·.attributes)
  let flags : Report :=
    if spec.flagDefaults.isEmpty then []
    else [.newline, .heading "Flags"] ++ spec.flagDefaults.map flag
  [.preformatted ("✓ " ++ path ++ " is valid"),
   .newline,
   .keyValue "Components" (Text.ofNat spec.components.length),
   .keyValue "Attributes" (Text.ofNat attributes.length)] ++ flags

end Report
end Stencil
