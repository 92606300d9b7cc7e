import Provenance.Session
import Provenance.Registry.Persistence
import Provenance.Store.ScratchNames
import Provenance.Proofs.Search
import Provenance.Proofs.IdTables
import Provenance.Proofs.GraphContents
import Provenance.Proofs.Lineage
import Provenance.Proofs.Retrace
import Provenance.Proofs.SimplePath
import Provenance.Proofs.Link
import Provenance.Proofs.TaggedSearch
import Provenance.Proofs.ShortestPath
import Provenance.Proofs.Worlds
import Provenance.Proofs.SmallWorlds
import Provenance.Proofs.Effects
import Provenance.Proofs.Known
import Provenance.Proofs.Writes
import Provenance.Proofs.Frame
import Provenance.Proofs.GraphSets
import Provenance.Proofs.ShortestPathEdges
import Provenance.Proofs.ShortestPathVertices
import Provenance.Proofs.MemoryGraphs
import Provenance.Proofs.Sources
import Provenance.Proofs.Exploration
import Provenance.Proofs.Engines
import Provenance.Proofs.Runs
import Provenance.Proofs.Subsets
import Provenance.Proofs.Nulls
import Provenance.Proofs.NullEnds
import Provenance.Proofs.Refusals
import Provenance.Proofs.Wildcards
import Provenance.Proofs.Lookups
import Provenance.Proofs.ValueOrder
import Provenance.Proofs.TwoRuns
import Provenance.Proofs.Counterparts
import Provenance.Proofs.Parallel
import Provenance.Proofs.KeyedReads
import Provenance.Proofs.Independence
import Provenance.Proofs.BaseCopy
import Provenance.Proofs.BlankKeys
import Provenance.Proofs.Growth
import Provenance.Proofs.GrownReads
import Provenance.Proofs.GrownRuns
import Provenance.Proofs.SchemaGrowth
import Provenance.Proofs.AbsentKeys
import Provenance.Proofs.IntegerDeviations
import Provenance.Proofs.ContentIds
import Provenance.Proofs.HandleTables
import Provenance.Proofs.SharedHandles
import Provenance.Proofs.SavedHandles
import Provenance.Proofs.RecordedDepths
import Provenance.Proofs.RemoteVertices
import Provenance.Proofs.SameEnds
import Provenance.Proofs.CollapsedSearches
import Provenance.Proofs.InPlaceLineage
import Provenance.Proofs.EdgeGroups
import Provenance.Proofs.InducedSubgraph
import Provenance.Proofs.Matches
import Provenance.Proofs.Conjunctions
import Provenance.Proofs.Distributions
import Provenance.Proofs.Histograms
import Provenance.Proofs.Histories
import Provenance.Proofs.DirectedGraphs
import Provenance.Proofs.IndexedGraphs
import Provenance.Proofs.MetadataOverrides
import Provenance.Proofs.SetOperations
import Provenance.Proofs.LetterCase
import Provenance.Proofs.MergedGraphs
import Provenance.Proofs.FreshNames
import Provenance.Proofs.SampleVariance
import Provenance.Proofs.RoundTrip
import Provenance.Proofs.DescribedKeys
import Provenance.Proofs.QuotedNames
