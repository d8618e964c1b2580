import CypherConnect.Lib.Base64
import CypherConnect.Lib.BigEndian
import CypherConnect.Lib.FileTree
import CypherConnect.Lib.InputStream
import CypherConnect.Lib.Keyed
import CypherConnect.Lib.Lines
import CypherConnect.Lib.Long
import CypherConnect.Lib.Machine
import CypherConnect.Lib.Outcome
import CypherConnect.Lib.Utf8
import CypherConnect.Lib.Percent
import CypherConnect.Lib.Related
import CypherConnect.Lib.Scan
import CypherConnect.Lib.Sorted
import CypherConnect.Lib.Utf16
import CypherConnect.Platform.JavaInteger
import CypherConnect.Platform.JavaUri
import CypherConnect.Platform.UriHosts
import CypherConnect.Platform.UriSyntax
import CypherConnect.Platform.AcceptedHost
import CypherConnect.Platform.UriAuthority
import CypherConnect.Platform.Android
import CypherConnect.Platform.AndroidxSortedList
import CypherConnect.Platform.Gson
import CypherConnect.Platform.JavaFile
import CypherConnect.Platform.JavaNet
import CypherConnect.Database.Profile
import CypherConnect.Utils.Commandline
import CypherConnect.Plugin.PluginOptions
import CypherConnect.Plugin.Printing
import CypherConnect.Plugin.Grammar
import CypherConnect.Plugin.PathProvider
import CypherConnect.Plugin.PluginConfiguration
import CypherConnect.Plugin.PluginManager
import CypherConnect.Plugin.Selected
import CypherConnect.Plugin.Stable
import CypherConnect.Database.Links
import CypherConnect.Database.FeedLines
import CypherConnect.Database.ProfileManager
import CypherConnect.Database.JsonParser
import CypherConnect.Database.ImportedEndpoints
import CypherConnect.Database.JsonImport
import CypherConnect.Database.JsonExport
import CypherConnect.Database.KeyValuePair
import CypherConnect.Database.LinksInText
import CypherConnect.Database.ShareLink
import CypherConnect.Database.LinkFormats
import CypherConnect.Database.UdpFallback
import CypherConnect.Feed.UpdateProxies
import CypherConnect.Feed.Agree
import CypherConnect.Sync.SyncProfiles
import CypherConnect.Sync.Overlapping
import CypherConnect.Sync.Repeated
import CypherConnect.Bg.TrafficMonitor
import CypherConnect.Core.DirectBoot
import CypherConnect.Core.LockedTraffic
import CypherConnect.Database.ImportStreams
import CypherConnect.Acl.Subnet
import CypherConnect.Acl.Acl
import CypherConnect.Acl.Flatten
import CypherConnect.Acl.Matching
import CypherConnect.Acl.Normalisation
import CypherConnect.Acl.RoundTrip
import CypherConnect.Net.DefaultNetworkListener
import CypherConnect.Net.VpnSession
import CypherConnect.Bg.BaseService
import CypherConnect.Bg.GuardedProcessPool
import CypherConnect.Bg.Lifecycle
import CypherConnect.Bg.LocalDnsWorker
import CypherConnect.Bg.RateReporting
import CypherConnect.Bg.StopRequests
import CypherConnect.App.BestProfile
import CypherConnect.Lib.RingWindow
import CypherConnect.Lib.AsyncRead
import CypherConnect.SsLocal.PacketWindow
import CypherConnect.SsLocal.Socks5
import CypherConnect.SsLocal.Socks5Server
import CypherConnect.SsLocal.Association
import CypherConnect.Lib.SealedFrames
import CypherConnect.Lib.PrefixTree
import CypherConnect.Lib.Regex
import CypherConnect.SsLocal.AeadReader
import CypherConnect.SsLocal.AeadWriter
import CypherConnect.SsLocal.Tunnel
import CypherConnect.SsLocal.SubDomainsTree
import CypherConnect.SsLocal.AccessControl
import CypherConnect.Acl.Handoff
import CypherConnect.Bg.Binder
import CypherConnect.Lib.Transducer
import CypherConnect.SimpleObfs.AppData
import CypherConnect.SimpleObfs.Tls
import CypherConnect.SimpleObfs.Local
