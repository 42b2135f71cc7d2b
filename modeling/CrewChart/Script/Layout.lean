import CrewChart.Template.Basic

/-!
# The layout of the script

The script is a template that is filled in from a plan.  It imports what it needs, sets the keys,
makes the tools, agents and tasks, each kind in a dictionary by id, and runs a crew of them.  A tool
that cannot be made leaves a comment that says why.
-/

set_option autoImplicit false

namespace CrewChart.Script

open Template (Argument Piece)

/-- A field of the item at hand. -/
def field (name : String) : Argument := .path 0 [name]

/-- A text, a field shown as it is, or a field as a literal. -/
def text (s : String) : Piece := .text s

def shown (name : String) : Piece := .value (field name)

def quoted (name : String) : Piece := .literal (field name)

/-- Pieces that are there only if a field holds. -/
def ifHolds (name : String) (yes no : List Piece) : Piece := .cond (field name) yes no

def forEach (name : String) (body : List Piece) : Piece := .each (field name) body []

/-- One keyword argument on a line of its own. -/
def keywordLine (keyword name ending : String) : List Piece :=
  [text ("        " ++ keyword ++ "="), quoted name, text (ending ++ "\n")]

def imports : List Piece :=
  [text "from crewai import Agent, Task, Crew, Process\n",
    ifHolds "tool_imports"
      [text "from crewai_tools import ", shown "tool_imports", text "\n"] [],
    ifHolds "uses_custom_tool" [text "from langchain_core.tools import Tool\n"] [],
    text "import os\n\n"]

def credentials : List Piece :=
  [text "# Set API keys for LLMs\n", forEach "credentials" [.value (.path 0 []), text "\n"],
    text "\n"]

/-- A tool of the library. -/
def libraryTool : List Piece :=
  [text "    ", quoted "id", text ": ", shown "class", text "(",
    ifHolds "has_config" [text "**", quoted "config"] [], text "),\n"]

/-- A tool that is a function of one's own. -/
def customTool : List Piece :=
  [text "    ", quoted "id", text ": Tool(\n"]
    ++ keywordLine "name" "name" "," ++ keywordLine "description" "description" ","
    ++ keywordLine "return_direct" "return_direct" ","
    ++ [text "        **", quoted "config", text "\n    ),\n"]

/-- A tool that cannot be made. -/
def skippedTool : List Piece :=
  [text "    # tool ", quoted "id", text " skipped: ", shown "reason", text "\n"]

def tools : List Piece :=
  [text "# Initialize tools\ntools = \x7b\n",
    forEach "tools" [ifHolds "class" libraryTool [ifHolds "custom" customTool skippedTool]],
    text "\x7d\n\n"]

/-- The tools of an agent, set apart by commas. -/
def toolList : List Piece :=
  [text "        tools=[",
    forEach "tools"
      [.cond (.ofLoop 0 "first") [] [text ", "], text "tools[", .literal (.path 0 []), text "]"],
    text "]\n"]

def agents : List Piece :=
  [text "# Create agents\nagents = \x7b\n",
    forEach "agents" ([text "    ", quoted "id", text ": Agent(\n"]
      ++ keywordLine "role" "role" "," ++ keywordLine "goal" "goal" ","
      ++ keywordLine "backstory" "backstory" ","
      ++ keywordLine "allow_delegation" "allow_delegation" ","
      ++ keywordLine "memory" "memory" "," ++ keywordLine "llm" "llm" ","
      ++ toolList ++ [text "    ),\n"]),
    text "\x7d\n\n"]

/-- The agent of a task, if it has one. -/
def taskAgent : List Piece :=
  [text "        agent=",
    ifHolds "agent" [text "agents[", quoted "agent", text "]"] [text "None"], text ",\n"]

def tasks : List Piece :=
  [text "# Define tasks\ntasks = \x7b\n",
    forEach "tasks" ([text "    ", quoted "id", text ": Task(\n"]
      ++ keywordLine "description" "description" ","
      ++ keywordLine "expected_output" "expected_output" ","
      ++ taskAgent ++ keywordLine "context" "context" "," ++ keywordLine "priority" "priority" ""
      ++ [text "    ),\n"]),
    text "\x7d\n\n"]

def crew : List Piece :=
  [text ("# Create crew\ncrew = Crew(\n    agents=list(agents.values()),\n"
      ++ "    tasks=list(tasks.values()),\n    process=Process."),
    shown "process", text ",\n    manager_llm=", quoted "manager_llm", text "\n)\n\n"]

def kickoff : List Piece :=
  [text ("# Execute the crew\nresult = crew.kickoff()\n"
    ++ "print(\"\\nCrew Execution Result:\\n\", result)\n")]

/-- The whole script. -/
def layout : Template := imports ++ credentials ++ tools ++ agents ++ tasks ++ crew ++ kickoff

end CrewChart.Script
