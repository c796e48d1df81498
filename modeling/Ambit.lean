import Ambit.Lib.Journal
import Ambit.Lib.Machine
import Ambit.Lib.Forest
import Ambit.Lib.Effect
import Ambit.JsonlStore
import Ambit.AuditTampering
import Ambit.LedgerLinks
import Ambit.RevokeSpec
import Ambit.RequestSpec
import Ambit.ScopeNarrowing
import Ambit.NoUseAfterRevocation
import Ambit.LifetimeNarrowing
import Ambit.DecideOnce
import Ambit.SecretDelivery
import Ambit.Provenance
import Ambit.RequestLinks
import Ambit.LineageSpec
import Ambit.AccessSpec
import Ambit.DelegationSpec
import Ambit.Runtime
import Ambit.Lib.IsoDate
import Ambit.RecordLines
import Ambit.StoreFiles
import Ambit.OneAtATime
import Ambit.AssignedApprover
import Ambit.Untouched
import Ambit.PolicyBounds
import Ambit.IdempotentSubmission
import Ambit.AmbitClient
import Ambit.RetriedSubmission
import Ambit.Lib.DepthFirst
import Ambit.FailureRules
import Ambit.InterruptedRevocation
import Ambit.RetriedRevocation
import Ambit.FaultyRuns
import Ambit.ApprovalFailures
import Ambit.AgentRegistrations
import Ambit.AuditTrail
import Ambit.DelegationOutcome
import Ambit.IssuedLifetime
import Ambit.RedactedAccess
import Ambit.UnverifiedCaller
import Ambit.GatewayTrail
import Ambit.RevocationEffect
import Ambit.RevocationRecords
import Ambit.Totp
import Ambit.LoginReplay
import Ambit.HashView
import Ambit.HashBlind
import Ambit.HashSteps
import Ambit.HashSecrecy
import Ambit.GuardedStores
import Ambit.GatedCalls
import Ambit.FailClosed
import Ambit.BreakerHistory
import Ambit.FieldRedaction
import Ambit.Lib.FixedWindow
import Ambit.RateLimiter
import Ambit.StoredHash
import Ambit.VerifierRuns
import Ambit.VelocityHistory
import Ambit.Base32
import Ambit.ClientSend
import Ambit.SessionToken
import Ambit.Lib.Decimal
import Ambit.HotpTruncation
import Ambit.HttpServer
import Ambit.Accountability
import Ambit.AcknowledgedWrites
import Ambit.AnsweredOnce
import Ambit.RevocationStands
import Ambit.ApprovedUses
import Ambit.CustomerPrivacy
import Ambit.PersonalData
import Ambit.AuditReplies
import Ambit.AuditLines
import Ambit.AuditFiles
import Ambit.Throttling
