import KodeGpt.StateRootProtection
import KodeGpt.WorkspaceClosing
import KodeGpt.AuditRotation
import KodeGpt.AuditedRuntime
import KodeGpt.SpoolQuota
import KodeGpt.MutationAtomicity
import KodeGpt.FrameAgreement
import KodeGpt.RequestSettlement
import KodeGpt.ResponseDelivery
import KodeGpt.ClosingRetries
import KodeGpt.LostWrites
import KodeGpt.FreshEvidence
import KodeGpt.ExecutionCleanup
import KodeGpt.StagedPaths
import KodeGpt.WorktreeCreation
import KodeGpt.TokenConfinement
import KodeGpt.OperatorIsolation
import KodeGpt.MutationOutcomes
import KodeGpt.EnvironmentDocuments
import KodeGpt.SkillSourceRemoval
import KodeGpt.CredentialRotation
import KodeGpt.TreeSearch
import KodeGpt.SpoolEvictions
import KodeGpt.VisibleMounts
import KodeGpt.MountInfoText
import KodeGpt.LivePreviews
import KodeGpt.FrameStreams
import KodeGpt.FrameDecoders
import KodeGpt.CheckpointSizes
import KodeGpt.PatchRenderings
import KodeGpt.SteadyIdentities
import KodeGpt.CommitFormats
import KodeGpt.ExactChangedPaths
import KodeGpt.HelperContainment
import KodeGpt.FingerprintFaults
import KodeGpt.ExactRequests
import KodeGpt.ProviderAddresses
import KodeGpt.FittedResponses
import KodeGpt.ScannedLogs
import KodeGpt.RunBranches
import KodeGpt.RemoteIdentities
import KodeGpt.ReleasedPreviews
import KodeGpt.OpenBrowsers
import KodeGpt.DecodedImages
import KodeGpt.LoadedTexts
import KodeGpt.WorkspaceSources
import KodeGpt.UserUnits
import KodeGpt.SkillDiscovery
import KodeGpt.VerificationRuns
import KodeGpt.SemanticScopes
import KodeGpt.ProfileResolution
import KodeGpt.FeedbackThreads
