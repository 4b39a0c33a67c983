import Yoink.Network.Convergence
import Yoink.Network.Isolation
import Yoink.Network.Codec
import Yoink.Core.Replicas
import Yoink.Clipboard.Copies
import Yoink.Discovery.Presence
import Yoink.Discovery.Advertisement
import Yoink.Server.Routes
import Yoink.Server.Page
import Yoink.App.Verdicts
import Yoink.App.AutoApply
import Yoink.Sync.Admission
import Yoink.Sync.Handshake
import Yoink.Sync.Documents
import Yoink.Sync.Reports
import Yoink.Sync.Distrust
import Yoink.Sync.Teardown
import Yoink.Sync.Pairs
import Yoink.Sync.WakeUps
import Yoink.App.Saving
import Yoink.App.Rooms
import Yoink.App.Presence
import Yoink.App.Separation
import Yoink.Sync.Backoff
import Yoink.App.Forwarding
import Yoink.App.Pages
import Yoink.Server.Rendering
