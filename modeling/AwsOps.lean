import AwsOps.NetworkPath.ValidationBundle
import AwsOps.NetworkPath.Evidence
import AwsOps.NetworkPath.CalicoSelectors
import AwsOps.NetworkPath.Listener
import AwsOps.NetworkPath.PolicyVerdicts
import AwsOps.SgRules.DaySelect
import AwsOps.SgRules.Watermark
import AwsOps.SgRules.Undercount
import AwsOps.SgRules.MembershipReference
import AwsOps.Datasource.WeeklyCap
import AwsOps.Datasource.MarkerMerge
import AwsOps.Datasource.SchemaAgreement
import AwsOps.Datasource.QueryGen
import AwsOps.Jobs.Reaper
import AwsOps.Jobs.QueueAgreement
import AwsOps.Incident.OpenIncidents
import AwsOps.Incident.CrashTransparency
import AwsOps.Incident.SingleWriteBack
import AwsOps.Chat.Buffer
import AwsOps.NetworkPath.ServiceResolution
import AwsOps.NetworkPath.Resolution
import AwsOps.Agent.ReceiptTracker
import AwsOps.Agent.AnthropicLoop
import AwsOps.Compliance.Results
import AwsOps.SqlGuard.PostgresReadOnly
import AwsOps.SqlGuard.ClickHouseReadOnly
import AwsOps.Egress.Registration
import AwsOps.Egress.Pinning
import AwsOps.Finops.Ledger
import AwsOps.Inventory.Ledger
import AwsOps.Inventory.Prune
import AwsOps.Topology.Isolation
import AwsOps.Topology.Emptiness
import AwsOps.NetworkPath.EphemeralRange
import AwsOps.NetworkPath.Routes
import AwsOps.Remediation.Delivery
import AwsOps.Remediation.Rollback
import AwsOps.Remediation.PlanLifecycle
import AwsOps.Migrate.ExactlyOnce
import AwsOps.Steampipe.Convergence
import AwsOps.Auth.Effective
import AwsOps.Release.Ordering
import AwsOps.Diagnosis.PdfMarkupSafety
import AwsOps.Diagnosis.Recurrence
import AwsOps.Diagnosis.VerdictSoundness
import AwsOps.Diagnosis.LiteralBlanking
import AwsOps.Topology.InventoryGate
import AwsOps.NetworkPath.BoundGraph
import AwsOps.Topology.E2eSelection
import AwsOps.Topology.EcsTargets
import AwsOps.Inventory.SdkCompleteness
import AwsOps.SqlGuard.SignalCheck
import AwsOps.Firewall.SidBinding
import AwsOps.Incident.Reversal
import AwsOps.Compliance.Notify
import AwsOps.Datasource.SchemaVersion
import AwsOps.Migrate.Spellings
import AwsOps.Topology.TraceIds
