import BracketLang.Location
import BracketLang.Text.Case

/-! Diagnostics: the form in which every stage reports what is wrong. The text of a diagnostic
names its severity and code, the message and the place; help and suggestions follow if there
are any. -/

namespace BracketLang

/-- One report. An empty code, help or list of suggestions leaves its part of the text out. -/
structure Diagnostic where
  message : String
  location : Location
  severity : String
  code : String
  help : String
  suggestions : List String
deriving DecidableEq, Repr

namespace Diagnostic

/-- The severity in capitals with the code behind it in brackets. -/
def heading (d : Diagnostic) : String :=
  Text.upper d.severity ++ if d.code = "" then "" else s!"[{d.code}]"

/-- The rendered report, one line a fact. -/
def text (d : Diagnostic) : String :=
  s!"{d.heading}: {d.message}\n  --> {d.location.text}\n"
    ++ (if d.help = "" then "" else s!"  help: {d.help}\n")
    ++ (if d.suggestions = [] then "" else
        "  suggestions:\n" ++ String.join (d.suggestions.map fun s => s!"    - {s}\n"))

end Diagnostic

end BracketLang
