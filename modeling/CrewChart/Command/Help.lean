import CrewChart.Command.Line

/-!
# Help

What the program says about itself: the commands, or the operands and options of one of them.
-/

set_option autoImplicit false

namespace CrewChart.Command

/-- What the program is called on a command line. -/
def programName : String := "crew-flow"

/-- Two columns, the second starting two blanks after the widest entry of the first. -/
def table (rows : List (String × String)) : String :=
  let width := (rows.map fun (left, _) => left.length).foldl max 0
  String.join (rows.map fun (left, right) =>
    "  " ++ left ++ String.ofList (List.replicate (width - left.length + 2) ' ') ++ right ++ "\n")

def Name.about : Name → String
  | .check => "Validate a saved flow and print its diagnostics"
  | .simulate => "Walk a flow from its start nodes and report node readiness"
  | .generate => "Emit the Python crew script for a flow"
  | .presets => "List the node templates offered by the editor"

def helpAbout : String := "Print this message or the help of the given subcommand(s)"

def configRow : String × String :=
  ("    --config <CONFIG>", "Settings file (JSON, or TOML with the `toml` feature)")

def jsonRow : String × String := ("    --json", "Emit a machine-readable JSON payload")

def helpRow : String × String := ("-h, --help", "Print help")

def Name.optionRows : Name → List (String × String)
  | .check => [configRow, jsonRow, helpRow]
  | .simulate =>
    [configRow, ("    --delay-ms <DELAY_MS>", "Delay per evaluated node, overriding settings"),
      jsonRow, helpRow]
  | .generate =>
    [configRow, ("    --out <OUT>", "Write the script here instead of stdout"), helpRow]
  | .presets =>
    [configRow, ("    --kind <KIND>", "[possible values: agent, task, tool, flow]"), helpRow]

def usage (tail : String) : String := "Usage: " ++ programName ++ " " ++ tail ++ "\n"

def helpText : Topic → String
  | .program =>
    "Check, dry-run and export crew flows\n\n" ++ usage "[OPTIONS] <COMMAND>" ++ "\nCommands:\n"
      ++ table ((Name.all.map fun c => (c.text, c.about)) ++ [("help", helpAbout)])
      ++ "\nOptions:\n" ++ table [configRow, helpRow]
  | .command c =>
    let operands := if c.takesChart then
        (" <FLOW>", "\nArguments:\n" ++ table [("<FLOW>", "Saved flow JSON file")])
      else ("", "")
    c.about ++ "\n\n" ++ usage (c.text ++ " [OPTIONS]" ++ operands.1) ++ operands.2
      ++ "\nOptions:\n" ++ table c.optionRows
  | .help =>
    helpAbout ++ "\n\n" ++ usage "help [COMMAND]..." ++ "\nArguments:\n"
      ++ table [("[COMMAND]...", "Print help for the subcommand(s)")]

end CrewChart.Command
