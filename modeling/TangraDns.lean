import TangraDns.Proof.Audit
import TangraDns.Proof.BackupText
import TangraDns.Proof.ChallengeLaws
import TangraDns.Proof.Client
import TangraDns.Proof.Consumer
import TangraDns.Proof.Deletion
import TangraDns.Proof.Delivery
import TangraDns.Proof.Dnsconf
import TangraDns.Proof.Form
import TangraDns.Proof.Forwarding
import TangraDns.Proof.Frames
import TangraDns.Proof.Hosts
import TangraDns.Proof.Layout
import TangraDns.Proof.OpenResolver
import TangraDns.Proof.Outage
import TangraDns.Proof.Parallel
import TangraDns.Proof.Primaries
import TangraDns.Proof.Redaction
import TangraDns.Proof.RepoDB
import TangraDns.Proof.Restore
import TangraDns.Proof.Secrecy
import TangraDns.Proof.Secrets
import TangraDns.Proof.SetOrder
import TangraDns.Proof.StartUp
import TangraDns.Proof.Substitution
import TangraDns.Proof.SyncRecords
import TangraDns.Proof.Updates
import TangraDns.ChallengeRuns
import TangraDns.Data.Rank
import TangraDns.Proof.Passes
