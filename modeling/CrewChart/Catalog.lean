import CrewChart.Json.Value

/-!
# The catalog

What the editor offers to choose from: the models, with the provider whose key they need, and the
tools of the library, with what a new tool of each kind is configured with.  A model or tool that
is not in the catalog can be named all the same; the provider of a model is told from how its name
begins.
-/

set_option autoImplicit false

namespace CrewChart

open Json (Value Attributes)

/-! ## Models -/

/-- The model of an agent or manager that names none. -/
def defaultModel : String := "gpt-4-0125-preview"

/-- The choice that leaves the model to a name that is typed in. -/
def customModel : String := "custom"

inductive Provider where
  | openAi
  | anthropic
  | google
  | mistral
  | custom
deriving DecidableEq, Repr

namespace Provider

def name : Provider → String
  | .openAi => "openai"
  | .anthropic => "anthropic"
  | .google => "google"
  | .mistral => "mistral"
  | .custom => "custom"

/-- The environment variable that holds a key of the provider. -/
def keyVariable : Provider → String
  | .openAi => "OPENAI_API_KEY"
  | .anthropic => "ANTHROPIC_API_KEY"
  | .google => "GOOGLE_API_KEY"
  | .mistral => "MISTRAL_API_KEY"
  | .custom => "CUSTOM_API_KEY"

/-- How the models of a provider begin. -/
def beginnings : List (String × Provider) :=
  [("gpt-", .openAi), ("claude-", .anthropic), ("gemini-", .google), ("mistral-", .mistral)]

/-- The provider of a model, from how its name begins. -/
def ofModel (model : String) : Provider :=
  match beginnings.find? fun (beginning, _) => beginning.toList.isPrefixOf model.toList with
  | some (_, provider) => provider
  | none => .custom

end Provider

structure Model where
  id : String
  label : String
  provider : Provider
deriving DecidableEq, Repr

namespace Model

def all : List Model :=
  [⟨"gpt-4-0125-preview", "GPT-4 Turbo (Preview)", .openAi⟩,
    ⟨"gpt-4", "GPT-4", .openAi⟩,
    ⟨"gpt-3.5-turbo-0125", "GPT-3.5 Turbo", .openAi⟩,
    ⟨"claude-3-opus", "Claude 3 Opus", .anthropic⟩,
    ⟨"claude-3-sonnet", "Claude 3 Sonnet", .anthropic⟩,
    ⟨"claude-3-haiku", "Claude 3 Haiku", .anthropic⟩,
    ⟨"claude-2.1", "Claude 2.1", .anthropic⟩,
    ⟨"gemini-1.0-pro", "Gemini 1.0 Pro", .google⟩,
    ⟨"gemini-1.0-ultra", "Gemini 1.0 Ultra", .google⟩,
    ⟨"mistral-large", "Mistral Large", .mistral⟩,
    ⟨"mistral-medium", "Mistral Medium", .mistral⟩,
    ⟨"mistral-small", "Mistral Small", .mistral⟩,
    ⟨customModel, "Custom Model", .custom⟩]

def find? (id : String) : Option Model := all.find? fun m => m.id == id

def toValue (m : Model) : Value :=
  .object [("id", .string m.id), ("label", .string m.label),
    ("provider", .string m.provider.name)]

end Model

/-! ## Tools of the library -/

/-- The type of a tool that is written out as a function of one's own. -/
def customTool : String := "CustomTool"

structure ToolSpec where
  toolType : String
  label : String
  description : String
  fields : List String
  configuration : Attributes

namespace ToolSpec

def all : List ToolSpec :=
  [ { toolType := "BrowserbaseLoadTool", label := "Browser Load Tool"
      description := "Interact with and extract data from web browsers"
      fields := ["timeout", "headers"]
      configuration := [("headers", .object []), ("timeout", .ofNat 30)] },
    { toolType := "CodeDocsSearchTool", label := "Code Docs Search Tool"
      description := "Search through code documentation and technical documents"
      fields := ["index_path", "search_type"]
      configuration := [("index_path", .string ""), ("search_type", .string "semantic")] },
    { toolType := "CodeInterpreterTool", label := "Code Interpreter Tool"
      description := "Interpret and execute Python code"
      fields := ["timeout", "memory_limit"]
      configuration := [("memory_limit", .string "512M"), ("timeout", .ofNat 30)] },
    { toolType := "FileReadTool", label := "File Read Tool"
      description := "Read and extract data from files"
      fields := ["file_path", "encoding"]
      configuration := [("encoding", .string "utf-8"), ("file_path", .string "")] },
    { toolType := "DirectoryReadTool", label := "Directory Read Tool"
      description := "Read and process directory structures"
      fields := ["dir_path", "recursive"]
      configuration := [("dir_path", .string ""), ("recursive", .boolean true)] },
    { toolType := "CSVSearchTool", label := "CSV Search Tool"
      description := "Search within CSV files"
      fields := ["file_path", "delimiter"]
      configuration := [("delimiter", .string ","), ("file_path", .string "")] },
    { toolType := "DOCXSearchTool", label := "DOCX Search Tool"
      description := "Search within DOCX documents"
      fields := ["file_path"]
      configuration := [("file_path", .string "")] },
    { toolType := "JSONSearchTool", label := "JSON Search Tool"
      description := "Search within JSON files"
      fields := ["file_path", "jq_query"]
      configuration := [("file_path", .string ""), ("jq_query", .string ".")] },
    { toolType := "PDFSearchTool", label := "PDF Search Tool"
      description := "Search within PDF documents"
      fields := ["file_path", "ocr_enabled"]
      configuration := [("file_path", .string ""), ("ocr_enabled", .boolean false)] },
    { toolType := "FirecrawlSearchTool", label := "Firecrawl Search Tool"
      description := "Search webpages using Firecrawl"
      fields := ["max_results", "timeout"]
      configuration := [("max_results", .ofNat 10), ("timeout", .ofNat 30)] },
    { toolType := "FirecrawlCrawlWebsiteTool", label := "Firecrawl Website Tool"
      description := "Crawl websites using Firecrawl"
      fields := ["max_depth", "timeout"]
      configuration := [("max_depth", .ofNat 3), ("timeout", .ofNat 60)] },
    { toolType := "FirecrawlScrapeWebsiteTool", label := "Firecrawl Scrape Tool"
      description := "Scrape websites using Firecrawl"
      fields := ["selectors", "timeout"]
      configuration := [("selectors", .array []), ("timeout", .ofNat 30)] },
    { toolType := "GithubSearchTool", label := "GitHub Search Tool"
      description := "Search within GitHub repositories"
      fields := ["repo", "path", "branch"]
      configuration := [("branch", .string "main"), ("path", .string ""), ("repo", .string "")] },
    { toolType := "PGSearchTool", label := "PostgreSQL Search Tool"
      description := "Search within PostgreSQL databases"
      fields := ["connection_string", "query"]
      configuration := [("connection_string", .string ""), ("query", .string "")] },
    { toolType := "DALLETool", label := "DALL-E Tool"
      description := "Generate images using DALL-E"
      fields := ["model", "size", "quality"]
      configuration := [("model", .string "dall-e-3"), ("quality", .string "standard"),
        ("size", .string "1024x1024")] },
    { toolType := "VisionTool", label := "Vision Tool"
      description := "Process and analyze images"
      fields := ["model", "max_tokens"]
      configuration := [("max_tokens", .ofNat 1000), ("model", .string "gpt-4-vision-preview")] },
    { toolType := "YoutubeChannelSearchTool", label := "YouTube Channel Search Tool"
      description := "Search within YouTube channels"
      fields := ["channel_id", "max_results"]
      configuration := [("channel_id", .string ""), ("max_results", .ofNat 50)] },
    { toolType := "YoutubeVideoSearchTool", label := "YouTube Video Search Tool"
      description := "Search within YouTube videos"
      fields := ["video_id", "language"]
      configuration := [("language", .string "en"), ("video_id", .string "")] }]

def find? (toolType : String) : Option ToolSpec := all.find? fun t => t.toolType == toolType

def toValue (t : ToolSpec) : Value :=
  .object [("tool_type", .string t.toolType), ("label", .string t.label),
    ("description", .string t.description),
    ("config_fields", .array (t.fields.map .string))]

end ToolSpec

end CrewChart
