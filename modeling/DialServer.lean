import DialServer.Origin.Bypass
import DialServer.Origin.Matching
import DialServer.Router.CachedState
import DialServer.Router.HeaderNames
import DialServer.Router.Links
import DialServer.Router.Answers
import DialServer.Server.Admission
import DialServer.Server.Registry
import DialServer.DialData.Pairs
import DialServer.DialData.RoundTrip
import DialServer.Status.Markup
import DialServer.Ssdp.Address
import DialServer.Text.AppName
import DialServer.Text.Encoding
import DialServer.Text.Parameter
import DialServer.Text.Paths
import DialServer.Device.YouTube
import DialServer.Device.Netflix
import DialServer.Device.Registration
import DialServer.Device.Printing
import DialServer.Device.Failures
import DialServer.Device.Sleep
import DialServer.Threads.Shutdown
import DialServer.Incoming.RoundTrip
import DialServer.Incoming.Refusals
import DialServer.Router.Serial
import DialServer.Ssdp.Discovery
import DialServer.Incoming.Launch
import DialServer.Device.Delivery
import DialServer.Device.Passive
