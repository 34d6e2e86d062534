import GoCell.Access.DescriptorDecisions
import GoCell.Access.FailedLogins
import GoCell.Audit.TamperEvidence
import GoCell.Audit.TenantIsolation
import GoCell.Auth.NonceReplay
import GoCell.Auth.TokenBinding
import GoCell.Command.KeyUniqueness
import GoCell.Command.Lifecycle
import GoCell.Command.Sweeping
import GoCell.Consumer.DeliveryKey
import GoCell.DistLock.Lifecycle
import GoCell.DistLock.Renewals
import GoCell.Envelope.ConsumePath
import GoCell.Envelope.RoundTrip
import GoCell.HttpIdempotency.FlatKeys
import GoCell.HttpIdempotency.KeyAcceptance
import GoCell.HttpIdempotency.ReplayFidelity
import GoCell.HttpIdempotency.RequestSafety
import GoCell.Idempotency.ClaimerAgreement
import GoCell.Idempotency.CommitLasts
import GoCell.Outbox.ActiveUniqueness
import GoCell.Outbox.ReceiptSettlement
import GoCell.Outbox.RelaySettlement
import GoCell.Outbox.RetryDelay
import GoCell.Projection.RebuildFailures
import GoCell.Query.Keyset
import GoCell.Query.Pagination
import GoCell.Reconcile.DeadLetter
import GoCell.Reconcile.PGElector
import GoCell.Reconcile.Progress
import GoCell.Reconcile.RedisElector
import GoCell.Refresh.RevocationRace
import GoCell.Saga.Compensation
import GoCell.Saga.EventIDs
import GoCell.Saga.Executor
import GoCell.Saga.JournalSource
import GoCell.Saga.LockKeys
import GoCell.Saga.TailerExactlyOnce
import GoCell.Saga.TerminalMarks
import GoCell.Webhook.Binding
import GoCell.Webhook.Tolerance
import GoCell.Websocket.Pings
import GoCell.Webhook.SafePolicy
import GoCell.Depgraph.Closure
import GoCell.Governance.Cycles
import GoCell.Query.CursorScope
