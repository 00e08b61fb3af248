import QhpcEcosystem.KeyedTable
import QhpcEcosystem.TransitionSystem
import QhpcEcosystem.Timestamps
import QhpcEcosystem.Contract
import QhpcEcosystem.Worklist
import QhpcEcosystem.WorkflowGraph
import QhpcEcosystem.ResolveWorkflow
import QhpcEcosystem.GraphChecks
import QhpcEcosystem.StoredWorkflow
import QhpcEcosystem.EngineState
import QhpcEcosystem.AttemptOperations
import QhpcEcosystem.ClaimTask
import QhpcEcosystem.RunOperations
import QhpcEcosystem.EngineEffects
import QhpcEcosystem.Engine
import QhpcEcosystem.EngineInvariants
import QhpcEcosystem.AttemptSuccession
import QhpcEcosystem.LateCancellation
import QhpcEcosystem.LeaseExpiry
import QhpcEcosystem.AttemptChange
import QhpcEcosystem.LeaseStates
import QhpcEcosystem.TaskChange
import QhpcEcosystem.Worker
import QhpcEcosystem.WorkerInvariants
import QhpcEcosystem.WorkerPhases
import QhpcEcosystem.RunCancellation
import QhpcEcosystem.SubmissionIntent
import QhpcEcosystem.TargetJobs
import QhpcEcosystem.ClaimOrder
import QhpcEcosystem.JobRotation
import QhpcEcosystem.Descendants
import QhpcEcosystem.RetryClosure
import QhpcEcosystem.ConnectionDelivery
import QhpcEcosystem.RunningTasks
import QhpcEcosystem.AttemptHistory
import QhpcEcosystem.RunProgress
import QhpcEcosystem.DependencyGating
import QhpcEcosystem.RunAgreement
import QhpcEcosystem.SubmissionKey
import QhpcEcosystem.ArtifactTypes
import QhpcEcosystem.RegistryAdmission
import QhpcEcosystem.WorkerReadiness
import QhpcEcosystem.WorkflowDrafts
import QhpcEcosystem.DraftClients
import QhpcEcosystem.DraftPublication
import QhpcEcosystem.InputSupply
import QhpcEcosystem.DataLineage
import QhpcEcosystem.WorkerLineage
import QhpcEcosystem.Dataflow
import QhpcEcosystem.WorkflowMeaning
import QhpcEcosystem.TaskComputation
import QhpcEcosystem.ComputedResults
import QhpcEcosystem.RunMeaning
import QhpcEcosystem.ParameterBounds
import QhpcEcosystem.ResolutionErrors
import QhpcEcosystem.CanonicalOrder
import QhpcEcosystem.SynchronousRuns
import QhpcEcosystem.WorkflowRegistration
import QhpcEcosystem.PilotStore
import QhpcEcosystem.PilotCapacity
import QhpcEcosystem.PilotLifecycle
import QhpcEcosystem.PilotSelection
import QhpcEcosystem.JsObjects
import QhpcEcosystem.Canvas
import QhpcEcosystem.CanvasRoundTrip
import QhpcEcosystem.PathSearch
import QhpcEcosystem.WorklistOrder
import QhpcEcosystem.CycleDetection
import QhpcEcosystem.CanvasEditing
import QhpcEcosystem.CanvasInvariants
import QhpcEcosystem.CanvasConnections
import QhpcEcosystem.CanvasValidation
import QhpcEcosystem.CanvasDocument
import QhpcEcosystem.ClientValidation
import QhpcEcosystem.ComposerSession
import QhpcEcosystem.DraftOwnership
import QhpcEcosystem.PublishedContent
import QhpcEcosystem.RepositoryUpdates
import QhpcEcosystem.UpdateOrder
import QhpcEcosystem.NativeRuntime
import QhpcEcosystem.RuntimeExtraction
import QhpcEcosystem.JsonText
import QhpcEcosystem.Json
import QhpcEcosystem.JsonRoundTrip
import QhpcEcosystem.JsonReading
import QhpcEcosystem.JsonMembers
import QhpcEcosystem.TextLines
import QhpcEcosystem.AuditLog
import QhpcEcosystem.AuditChain
import QhpcEcosystem.AuditInterleaving
import QhpcEcosystem.SemanticVersions
import QhpcEcosystem.DeploymentRegistry
import QhpcEcosystem.RegistryRestriction
import QhpcEcosystem.KeySorting
import QhpcEcosystem.RegistryBuild
import QhpcEcosystem.VersionOrder
import QhpcEcosystem.RegistryDeterminism
import QhpcEcosystem.NewestVersion
import QhpcEcosystem.BreadthFirst
import QhpcEcosystem.BreadthFirstOrder
import QhpcEcosystem.KnowledgeGraph
import QhpcEcosystem.KnowledgePaths
import QhpcEcosystem.KnowledgeNeighborhoods
import QhpcEcosystem.ShellWords
import QhpcEcosystem.ShellQuotes
import QhpcEcosystem.SlurmScript
import QhpcEcosystem.OciShim
import QhpcEcosystem.ScriptWords
import QhpcEcosystem.ScriptLines
import QhpcEcosystem.ScriptSafety
import QhpcEcosystem.ChatService
import QhpcEcosystem.ChatStream
import QhpcEcosystem.ChatAnswers
import QhpcEcosystem.ChatRoundTrip
import QhpcEcosystem.SlurmSubmission
import QhpcEcosystem.SlurmHandles
import QhpcEcosystem.SlurmUniqueness
import QhpcEcosystem.SlurmClient
import QhpcEcosystem.StageTelemetry
import QhpcEcosystem.EventReplay
import QhpcEcosystem.PortSeparation
import QhpcEcosystem.CollectedOutputs
import QhpcEcosystem.StagedOutputs
