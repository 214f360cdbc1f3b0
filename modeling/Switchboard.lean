import Switchboard.Main
import Switchboard.Session.Wire
import Switchboard.Terminal.Emulator
import Switchboard.Terminal.KeyPress
import Switchboard.Terminal.WebSocket
import Switchboard.Proofs.Attachment.Freshness
import Switchboard.Proofs.Attachment.LayoutActs
import Switchboard.Proofs.Attachment.Lifecycle
import Switchboard.Proofs.Attachment.Loss
import Switchboard.Proofs.Attachment.Negotiation
import Switchboard.Proofs.Attachment.Printing
import Switchboard.Proofs.Attachment.Rendering
import Switchboard.Proofs.Attachment.Silence
import Switchboard.Proofs.Attachment.Tidings
import Switchboard.Proofs.CommandLine.Overriding
import Switchboard.Proofs.CommandLine.Overruling
import Switchboard.Proofs.Config.Saving
import Switchboard.Proofs.Network.ResizeOutcomes
import Switchboard.Proofs.Registry.Deletions
import Switchboard.Proofs.Registry.Labels
import Switchboard.Proofs.Registry.Reconciliation
import Switchboard.Proofs.Registry.Residence
import Switchboard.Proofs.Registry.Run
import Switchboard.Proofs.Registry.Scope
import Switchboard.Proofs.Registry.Selection
import Switchboard.Proofs.Session.HostRoot
import Switchboard.Proofs.Session.PodListEdits
import Switchboard.Proofs.Session.SideChannel
import Switchboard.Proofs.Session.StreamUrl
import Switchboard.Proofs.Session.Wire
import Switchboard.Proofs.Stream.Protocol
import Switchboard.Proofs.Stream.Refusal
import Switchboard.Proofs.Text.BareFeeds
import Switchboard.Proofs.View.CloseRequests
import Switchboard.Proofs.View.Coherence
import Switchboard.Proofs.View.Foreground
import Switchboard.Proofs.View.Hidden
import Switchboard.Proofs.View.Highlight
import Switchboard.Proofs.View.Inputs
import Switchboard.Proofs.View.Sightings
import Switchboard.Proofs.View.Teardown
import Switchboard.Proofs.View.StreamLife
import Switchboard.Proofs.View.VisitOrder
import Switchboard.Proofs.Text.BareFeeds
