import KeyQuorum.FileHistory.Replicas
import KeyQuorum.FileHistory.Share
import KeyQuorum.FileHistory.Tombstone
import KeyQuorum.FileHistory.Settling
import KeyQuorum.Access
import KeyQuorum.Pin
import KeyQuorum.KeyTree.Custody
import KeyQuorum.KeyTree.Published
import KeyQuorum.Relay.OrgTree
import KeyQuorum.Quorum.Unlock
import KeyQuorum.Transfer.Generations
import KeyQuorum.Transfer.Abort
import KeyQuorum.Transfer.Authority
import KeyQuorum.Transfer.Completion
import KeyQuorum.Transfer.Atomic
import KeyQuorum.Relocate
import KeyQuorum.PrivateBridge.Agreement
import KeyQuorum.PrivateBridge.Recipients
import KeyQuorum.PrivateBridge.Lifecycle
import KeyQuorum.PrivateBridge.Signature
import KeyQuorum.Outbox.Reports
import KeyQuorum.Relay.Voiding.Runs
import KeyQuorum.Relay.OperatorLog
import KeyQuorum.Relay.Mailbox.Expiry
