import Emwin.Library.Search
import Emwin.Library.StreamLoop
import Emwin.Library.Machine
import Emwin.Library.Simulations
import Emwin.Library.Brackets
import Emwin.Library.Utf8
import Emwin.Library.Text
import Emwin.Library.Regex
import Emwin.Library.KeyedMap
import Emwin.Library.Numbering
import Emwin.Library.Blocks
import Emwin.Library.Shuffle
import Emwin.Library.Channel
import Emwin.Library.Saturating
import Emwin.Library.Recent
import Emwin.Library.RecentMap
import Emwin.Library.PercentEncoding
import Emwin.Library.Ring
import Emwin.Library.Double
import Emwin.Library.Floor
import Emwin.Library.Globs
import Emwin.Library.Gregorian
import Emwin.Library.Markup
import Emwin.Library.Utf8Pieces
import Emwin.Library.Replacements
import Emwin.Library.Characters
import Emwin.Library.Lines
import Emwin.Library.Paths
import Emwin.Library.Runs
import Emwin.Library.Slices
import Emwin.Library.Spans
import Emwin.Library.Rings
import Emwin.Library.Words
import Emwin.Library.WordPrefixes
import Emwin.Library.Tokens
import Emwin.Library.Integers
import Emwin.Library.Segments
import Emwin.RuntimeSupport.Backpressure
import Emwin.RuntimeSupport.BackpressureReports
import Emwin.Parser.Header
import Emwin.Parser.Headings
import Emwin.Parser.Body
import Emwin.Parser.Projection
import Emwin.Parser.Support
import Emwin.Parser.Vtec
import Emwin.Parser.Time
import Emwin.Parser.Ugc
import Emwin.Parser.LatLon
import Emwin.Parser.TimeMotLoc
import Emwin.Parser.WindHail
import Emwin.Parser.VtecEvents
import Emwin.Parser.VtecSegments
import Emwin.Parser.AsciiBodies
import Emwin.Parser.LatLonSafety
import Emwin.Parser.VtecLines
import Emwin.Parser.Geo
import Emwin.Parser.Instants
import Emwin.Parser.Mos
import Emwin.Parser.MosAxis
import Emwin.Parser.MosColumns
import Emwin.Parser.MosSections
import Emwin.Parser.HeadingSource
import Emwin.Parser.SpcOutlook
import Emwin.Parser.SpcAreas
import Emwin.Parser.PackedPairs
import Emwin.Parser.SpcProducts
import Emwin.Parser.SpcReading
import Emwin.Parser.PolygonRings
import Emwin.Parser.UgcWriting
import Emwin.Parser.UgcRoundTrip
import Emwin.Parser.MosLayout
import Emwin.Parser.MosValues
import Emwin.Parser.Compaction
import Emwin.Parser.Taf
import Emwin.Parser.TafReports
import Emwin.Parser.TafItems
import Emwin.Parser.ReportGroups
import Emwin.Parser.TafChanges
import Emwin.Parser.TafTermination
import Emwin.Parser.TafGroups
import Emwin.Qbt.Protocol.Model
import Emwin.Qbt.Protocol.Header
import Emwin.Qbt.Protocol.ServerList
import Emwin.Qbt.Protocol.ServerListGrammar
import Emwin.Qbt.Protocol.Codec
import Emwin.Qbt.Protocol.CodecRuns
import Emwin.Qbt.Protocol.Chunking
import Emwin.Qbt.Protocol.Frames
import Emwin.Qbt.Protocol.Soundness
import Emwin.Qbt.Protocol.SelfSync
import Emwin.Qbt.Protocol.Quiescence
import Emwin.Qbt.Protocol.FrameStreams
import Emwin.Qbt.Protocol.ServerListWire
import Emwin.Qbt.File.Assembler
import Emwin.Qbt.File.AssemblerSoundness
import Emwin.Qbt.File.AssemblerInvariants
import Emwin.Qbt.File.FileKeys
import Emwin.Qbt.File.AssemblerCompleteness
import Emwin.Qbt.File.TextDelivery
import Emwin.Qbt.Relay.Auth
import Emwin.Qbt.Relay.State
import Emwin.Qbt.Relay.Session
import Emwin.Qbt.Relay.Runtime
import Emwin.Qbt.Relay.ClientSlots
import Emwin.Qbt.Relay.ServerListCache
import Emwin.Qbt.Relay.UpstreamLists
import Emwin.Qbt.Relay.Traffic
import Emwin.Qbt.Relay.ByteAccounting
import Emwin.Qbt.Relay.QualityWindow
import Emwin.Qbt.Relay.QualityMonitor
import Emwin.Qbt.Relay.QualityRatio
import Emwin.Qbt.Client.ServerListManager
import Emwin.Qbt.Client.EndpointPool
import Emwin.Qbt.Client.EndpointRotation
import Emwin.Qbt.Client.ConnectionLoop
import Emwin.Qbt.Client.EventSender
import Emwin.Qbt.Client.Receiver
import Emwin.Qbt.Client.ReceiverRuns
import Emwin.Qbt.Client.ReceiverFrames
import Emwin.Qbt.Client.Stranding
import Emwin.Qbt.Relay.Forwarding
import Emwin.Qbt.Protocol.ScannerRuns
import Emwin.Qbt.Protocol.ScannerAgreement
import Emwin.Qbt.Relay.AuthRuns
import Emwin.Qbt.Protocol.ScannerWindow
import Emwin.WxWire.XmlReader
import Emwin.WxWire.Transport
import Emwin.WxWire.Content
import Emwin.WxWire.ReadBoundaries
import Emwin.WxWire.Stanza
import Emwin.WxWire.StreamManagement
import Emwin.WxWire.Framing
import Emwin.WxWire.Filename
import Emwin.Live.EventsQuery
import Emwin.Live.ClientSlots
import Emwin.Live.Wildcard
import Emwin.Live.SseDelivery
import Emwin.Live.FilePipeline
import Emwin.Live.FeedPaths
import Emwin.Live.GeoFilter
import Emwin.Live.RetainedFiles
import Emwin.Live.Downloads
import Emwin.Live.ServerIngest
import Emwin.Db.Model
import Emwin.Db.Runtime
import Emwin.Db.QueueSafety
import Emwin.Db.BlobProtocol
import Emwin.Db.Incidents
import Emwin.Db.IncidentUpdates
import Emwin.Db.IncidentRows
import Emwin.Db.IncidentConvergence
import Emwin.Db.ProductRows
import Emwin.Db.RowReadings
import Emwin.Db.RowAgreement
import Emwin.Parser.MetarCollectives
import Emwin.Parser.MetarReports
