import Valhalla.Witness.Rerun
import Valhalla.Witness.Capacity
import Valhalla.Witness.Identity
import Valhalla.DirectRoom.History
import Valhalla.DirectRoom.Continuity
import Valhalla.DirectSync.Receiving
import Valhalla.Botcaptcha.Respond
import Valhalla.EventLedger.Snapshot
import Valhalla.Rooms.Extension
import Valhalla.RoomsNode.WireLaws
import Valhalla.RoomsNode.StreamLaws
import Valhalla.RoomsNode.NoLoss
import Valhalla.PrivateKernel.Canonical
import Valhalla.PrivateKernel.Runs
import Valhalla.Attention.Collector
import Valhalla.Continuity.Runs
import Valhalla.Session.Agreement
import Valhalla.Retrieval.Convergence
import Valhalla.Native.Redeemed
import Valhalla.Relay.Mailboxes
import Valhalla.Journal.Verdicts
import Valhalla.RoomsConsensus.Absorbed
import Valhalla.Rooms.Permits
import Valhalla.Social.Work
import Valhalla.Social.Register
import Valhalla.Social.Starvation
import Valhalla.Discovery.Paging
