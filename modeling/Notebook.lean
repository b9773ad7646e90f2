import Notebook.Body
import Notebook.Cell.Fragment
import Notebook.Cell.Name
import Notebook.Cell.Script
import Notebook.Chunk.Basic
import Notebook.Chunk.Fence
import Notebook.Chunk.Segment
import Notebook.CommandLine.Arguments
import Notebook.CommandLine.Log
import Notebook.CommandLine.Outcome
import Notebook.CommandLine.Run
import Notebook.CommandLine.Shell
import Notebook.Compile
import Notebook.Config
import Notebook.Content
import Notebook.Decimal.Reader
import Notebook.Decimal.Shortest
import Notebook.Error
import Notebook.FileTree
import Notebook.Frontmatter
import Notebook.ImportLine
import Notebook.Json.Basic
import Notebook.Json.Reader
import Notebook.Library
import Notebook.Listing
import Notebook.Main
import Notebook.Module
import Notebook.Proofs.ArgumentOrder
import Notebook.Proofs.BlockPattern
import Notebook.Proofs.CallOrder
import Notebook.Proofs.ChunkListing
import Notebook.Proofs.ChunkPartition
import Notebook.Proofs.ChunkPrinting
import Notebook.Proofs.CleanFailure
import Notebook.Proofs.Collisions
import Notebook.Proofs.CommandOutcome
import Notebook.Proofs.CompileTree
import Notebook.Proofs.DefinitionNames
import Notebook.Proofs.Effects
import Notebook.Proofs.FailedChunks
import Notebook.Proofs.Faults
import Notebook.Proofs.FetchBudget
import Notebook.Proofs.FirstSeen
import Notebook.Proofs.Frontmatter
import Notebook.Proofs.HeaderFences
import Notebook.Proofs.ImportClauses
import Notebook.Proofs.ImportFragments
import Notebook.Proofs.ImportGrammar
import Notebook.Proofs.ImportPrinting
import Notebook.Proofs.ImportSpacing
import Notebook.Proofs.JsonText
import Notebook.Proofs.Levels
import Notebook.Proofs.ModuleNames
import Notebook.Proofs.OutputOption
import Notebook.Proofs.Parameters
import Notebook.Proofs.PathComposition
import Notebook.Proofs.Quoting
import Notebook.Proofs.Registry
import Notebook.Proofs.Repetitions
import Notebook.Proofs.RepositoryPaths
import Notebook.Proofs.Runs
import Notebook.Proofs.ScriptMarkers
import Notebook.Proofs.Shadowing
import Notebook.Proofs.SourceText
import Notebook.Proofs.StatementText
import Notebook.Proofs.TemplateText
import Notebook.Proofs.Text
import Notebook.Proofs.ViewCompanions
import Notebook.Proofs.Visibility
import Notebook.Proofs.Wiring
import Notebook.Proofs.WrittenFiles
import Notebook.Registry
import Notebook.RenderArgs
import Notebook.Resource
import Notebook.Session
import Notebook.Text.Blank
import Notebook.Text.Digits
import Notebook.Text.Quoted
import Notebook.Text.Split
import Notebook.Text.Word
import Notebook.Workspace
import Notebook.Yaml.Cursor
import Notebook.Yaml.Document
import Notebook.Yaml.Error
import Notebook.Yaml.Node
import Notebook.Yaml.Scalar
import Notebook.Yaml.Tag
import Notebook.Yaml.Token
import Notebook.Yaml.Token.Scalar
import Notebook.Yaml.Token.Scan
import Notebook.Yaml.Token.Tag
import Notebook.Yaml.Value
