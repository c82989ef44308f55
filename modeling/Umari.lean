import Umari.CommandHandles
import Umari.GuardedRuns
import Umari.OrderedSets
import Umari.EventStore
import Umari.StoredEvents
import Umari.Transactions
import Umari.Serializability
import Umari.ModuleActor
import Umari.PooledDispatch
import Umari.AtLeastOnce
import Umari.PartitionOrder
import Umari.SequentialProjection
import Umari.WatermarkOrder
import Umari.DcbQueries
import Umari.Folds
import Umari.QueryCoverage
import Umari.KeyedMaps
import Umari.NumberedLists
import Umari.ModuleEvents
import Umari.ModuleSupervisor
import Umari.SingleActor
import Umari.Convergence
import Umari.DeletedState
import Umari.CommandActor
import Umari.CommandConvergence
import Umari.StateRemoval
import Umari.RestartVersions
import Umari.CryptoKeys
import Umari.SealedEvents
import Umari.JsonCodec
import Umari.Shredding
import Umari.PoisonEvents
import Umari.CommandRuns
import Umari.SkippedEvents
import Umari.Idempotency
import Umari.EventIds
import Umari.FoldQueries
import Umari.JsBindings
import Umari.JsFolds
import Umari.JsCommands
import Umari.ScopedVariants
import Umari.QueryAgreement
import Umari.DerivedSets
import Umari.FoldHandles
import Umari.ReplayAgreement
import Umari.ConcurrentProjectors
import Umari.ModuleStore
import Umari.StoreReferences
import Umari.KeyHistories
import Umari.PublishedModules
import Umari.MajorVersions
import Umari.GroupedQueries
import Umari.QueryMinimality
import Umari.TransactionHandles
import Umari.WorkerAcks
import Umari.EventEncodings
import Umari.BackoffDelays
import Umari.ActivationErrors
import Umari.SavedModules
import Umari.Uploads
import Umari.BuiltinFolds
import Umari.FixedDigits
import Umari.SecureHash
import Umari.JsNumbers
import Umari.JsEventIds
import Umari.StableClasses
import Umari.ConstructorSources
import Umari.LineBuffers
import Umari.LogOutput
import Umari.LogChunks
import Umari.Multipart
import Umari.UploadBodies
import Umari.UploadRoundTrip
import Umari.ProjectionProgress
import Umari.ModuleCatalogues
import Umari.DeployedModules
import Umari.Deployments
import Umari.JsRuns
import Umari.SdkAgreement
import Umari.EffectProgress
import Umari.CliDeploys
import Umari.EffectRecords
