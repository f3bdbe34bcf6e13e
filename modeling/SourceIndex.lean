import SourceIndex.Main
import SourceIndex.Proofs.Path.Map
import SourceIndex.Proofs.Build.Division
import SourceIndex.Proofs.Build.Fresh
import SourceIndex.Proofs.Build.Plan
import SourceIndex.Proofs.Build.Prepared
import SourceIndex.Proofs.Build.Vectors
import SourceIndex.Proofs.Chunk.Own
import SourceIndex.Proofs.Chunk.Calls
import SourceIndex.Proofs.Chunk.Coverage
import SourceIndex.Proofs.Chunk.Hashes
import SourceIndex.Proofs.Chunk.Runs
import SourceIndex.Proofs.Chunk.Summary
import SourceIndex.Proofs.Chunk.Docstrings
import SourceIndex.Proofs.Excerpt.Context
import SourceIndex.Proofs.Generation.Directory
import SourceIndex.Proofs.Generation.Workspace
import SourceIndex.Proofs.Generation.Shelf
import SourceIndex.Proofs.Generation.Sweep
import SourceIndex.Proofs.Project.Draft
import SourceIndex.Proofs.Project.Run
import SourceIndex.Proofs.Project.Agreement
import SourceIndex.Proofs.Project.Hints
import SourceIndex.Proofs.Project.Places
import SourceIndex.Proofs.Project.Respelled
import SourceIndex.Proofs.Project.Provenance
import SourceIndex.Proofs.Project.Answers
import SourceIndex.Proofs.Project.Failure
import SourceIndex.Proofs.Project.Recovery
import SourceIndex.Proofs.Project.Override
import SourceIndex.Proofs.Project.Asked
import SourceIndex.Proofs.Project.Report
import SourceIndex.Proofs.Embedding.Slots
import SourceIndex.Proofs.Keyword.Query
import SourceIndex.Proofs.Command.Languages
import SourceIndex.Proofs.Search.Independence
import SourceIndex.Proofs.Search.Symmetry
import SourceIndex.Proofs.Session.Basic
import SourceIndex.Proofs.Session.Handles
import SourceIndex.Proofs.Session.Sharing
import SourceIndex.Proofs.Store.Transaction
import SourceIndex.Proofs.Store.RoundTrip
import SourceIndex.Proofs.Watch.Consumer
import SourceIndex.Proofs.Watch.Capacity
import SourceIndex.Proofs.Watch.Debouncer
