import Tyo3.Entities
import Tyo3.FiniteMaps
import Tyo3.TextSearch
import Tyo3.IdentityAnchors
import Tyo3.IdentityReconciliation
import Tyo3.IdentityMatching
import Tyo3.IdentityPostState
import Tyo3.IdentityRuns
import Tyo3.IdentityLifecycle
import Tyo3.LivePaths
import Tyo3.ScopedReconciliation
import Tyo3.JsonValues
import Tyo3.IdentityPersistence
import Tyo3.Worklists
import Tyo3.CodeLayer
import Tyo3.CodeLayerBuilder
import Tyo3.SystemPaths
import Tyo3.ContentStore
import Tyo3.AuthoredStore
import Tyo3.Configuration
import Tyo3.RetainedRevisions
import Tyo3.OverlayVersions
import Tyo3.DocumentSymbols
import Tyo3.CommitPlan
import Tyo3.CommitFunnel
import Tyo3.CommitAtomicity
import Tyo3.CommitOutcomes
import Tyo3.DiskSync
import Tyo3.UnsavedBuffers
import Tyo3.RelevantContent
import Tyo3.IdentityScope
import Tyo3.CanonicalHash
import Tyo3.CodeLayerFiles
import Tyo3.CodeLayerParts
import Tyo3.CodeLayerPasses
import Tyo3.CodeLayerProjects
import Tyo3.CodeLayerCarrying
import Tyo3.CodeLayerParity
import Tyo3.AuthoredLoading
import Tyo3.Runs
import Tyo3.ProjectSessions
import Tyo3.AuthoredHistory
import Tyo3.Snapshots
import Tyo3.AuthoredTimeTravel
import Tyo3.AffectedClosure
import Tyo3.Reloading
import Tyo3.SessionRegistries
import Tyo3.UnmovedEntities
import Tyo3.PinnedIdentity
import Tyo3.GraphNodes
import Tyo3.KeyedChanges
import Tyo3.CodeDiffs
import Tyo3.SnapshotDiffs
import Tyo3.BoundedQueues
import Tyo3.Deltas
import Tyo3.Subscriptions
import Tyo3.DaemonConnections
import Tyo3.DaemonFanout
import Tyo3.HeadSnapshotCache
import Tyo3.Publication
import Tyo3.WatcherQueue
import Tyo3.DependencyOrders
import Tyo3.LayerOrder
import Tyo3.DerivedLayers
import Tyo3.LayerRuntime
import Tyo3.QueryPrograms
import Tyo3.TracedLayers
import Tyo3.TracedReads
import Tyo3.AuthoredPersistence
import Tyo3.AuthoredHeadReads
import Tyo3.InheritedIds
import Tyo3.ReconciledAnchors
import Tyo3.DeltaClasses
import Tyo3.RepeatedReconciliation
import Tyo3.ReconciliationOrder
import Tyo3.LockedPrograms
import Tyo3.BusLocks
import Tyo3.SessionActor
import Tyo3.ConnectionEdits
import Tyo3.AgentClient
import Tyo3.AgentRequests
import Tyo3.ConfigurationLoading
import Tyo3.SecretLint
import Tyo3.ConfigurationTexts
import Tyo3.SecretReferences
import Tyo3.ArtifactFiles
import Tyo3.OrphanCollection
import Tyo3.LayerChains
import Tyo3.CollectedLayers
import Tyo3.ReturningEntities
import Tyo3.ReviewStates
import Tyo3.FrozenDirectories
import Tyo3.OrphanedNodes
import Tyo3.ReviewSurface
import Tyo3.StagedPublication
import Tyo3.StatementPlaces
import Tyo3.Docstrings
import Tyo3.UnseenDifferences
import Tyo3.EnclosingSymbols
import Tyo3.InheritanceWalks
import Tyo3.OverrideEdges
import Tyo3.ServableArtifacts
import Tyo3.LostArtifacts
import Tyo3.RegisteredLayers
import Tyo3.SemanticKeys
import Tyo3.InterestUnions
import Tyo3.StoredArtifacts
import Tyo3.DriftedKeys
import Tyo3.FirstMatches
import Tyo3.NearestEntities
import Tyo3.EntitySources
import Tyo3.DerivedReads
import Tyo3.FreshSignals
import Tyo3.UpstreamKeys
import Tyo3.EagerLayers
import Tyo3.EffectiveOrders
import Tyo3.RootedPaths
import Tyo3.IdSubscribers
import Tyo3.RescanBaselines
import Tyo3.CodeGraphs
import Tyo3.TransitiveQueries
import Tyo3.CycleSearches
import Tyo3.ImportCycles
import Tyo3.PrecisionRefiner
import Tyo3.LineTerminators
import Tyo3.Coordinates
import Tyo3.LayerDeltas
import Tyo3.JoinedEdges
import Tyo3.LayerGraphs
import Tyo3.NumberedCopies
import Tyo3.GraphDiffs
import Tyo3.LineFrames
import Tyo3.EditorClient
import Tyo3.EditorProtocol
import Tyo3.DaemonOwnership
import Tyo3.Directories
import Tyo3.AtomicFiles
import Tyo3.DurableFiles
