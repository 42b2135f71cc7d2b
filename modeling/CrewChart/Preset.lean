import CrewChart.Graph.Saved

/-!
# Presets

Ready-made components the editor offers, two of each kind, every required attribute filled in.
-/

set_option autoImplicit false

namespace CrewChart

open Json (Value)

structure Preset where
  name : String
  component : Component

namespace Preset

def all : List Preset :=
  [ { name := "Research Agent"
      component := .agent {
        label := some "Research Agent"
        role := some "Researcher"
        goals := some "Gather and analyze information\nProvide detailed reports"
        backstory := some "Expert in data analysis and research methodologies"
        allowDelegation := some "true"
        memory := some "1000"
        llmModel := some "gpt-4-0125-preview" } },
    { name := "Writer Agent"
      component := .agent {
        label := some "Writer Agent"
        role := some "Content Creator"
        goals := some "Create engaging content\nMaintain consistent style"
        backstory := some "Experienced content writer with expertise in various topics"
        allowDelegation := some "false"
        memory := some "2000"
        llmModel := some "gpt-4-0125-preview" } },
    { name := "Research Task"
      component := .task {
        label := some "Research Task"
        description := some "Conduct comprehensive research on the given topic"
        expectedOutput := some "Detailed research report with citations"
        priority := some "high"
        context := some "Focus on recent developments and reliable sources"
        executionOrder := some "1" } },
    { name := "Content Creation"
      component := .task {
        label := some "Content Creation"
        description := some "Create engaging content based on research findings"
        expectedOutput := some "Well-structured article or report"
        priority := some "medium"
        context := some "Target audience: technical professionals"
        executionOrder := some "2" } },
    { name := "Web Scraper"
      component := .tool {
        label := some "Web Scraper"
        toolType := some "FirecrawlScrapeWebsiteTool"
        configuration := some ("\x7b\n  \"selectors\": [\n    \".content\",\n    \".article\",\n"
          ++ "    \"p\"\n  ],\n  \"timeout\": 30\n\x7d")
        description := some "Scrape web content with customizable settings"
        returnDirect := some true } },
    { name := "Code Interpreter"
      component := .tool {
        label := some "Code Interpreter"
        toolType := some "CodeInterpreterTool"
        configuration := some "\x7b\n  \"timeout\": 60,\n  \"memory_limit\": \"512M\"\n\x7d"
        description := some "Execute Python code for data processing"
        returnDirect := some false } },
    { name := "Sequential Research"
      component := .flow {
        label := some "Sequential Research"
        flowType := some "sequential"
        managerModel := some "gpt-4-0125-preview"
        maxRetries := some "3"
        timeout := some "300" } },
    { name := "Parallel Processing"
      component := .flow {
        label := some "Parallel Processing"
        flowType := some "parallel"
        managerModel := some "gpt-4-0125-preview"
        maxRetries := some "2"
        timeout := some "600" } } ]

/-- The presets of the kind with this name. -/
def ofKind (kind : String) : List Preset := all.filter fun p => p.component.kind.name == kind

/-- A node made from a preset. -/
def instantiate (p : Preset) (id : String) (position : Position) : Node :=
  { id, position, component := p.component }

def toValue (p : Preset) : Value :=
  .object [("name", .string p.name), ("kind", p.component.toValue)]

end Preset

end CrewChart
