import AdServer.Url.CipherRoundTrip
import AdServer.Url.CheckValue
import AdServer.Url.BufferAccount
import AdServer.Url.Mangled
import AdServer.Library.Transition
import AdServer.Log.Collected
import AdServer.Log.Failover
import AdServer.Log.Resume
import AdServer.Log.Custody
import AdServer.Show.Frequency
import AdServer.Billing.Ssp
import AdServer.Bid.DealFlag
import AdServer.Bid.Identity
import AdServer.Bid.ShowClick
import AdServer.Bid.Blacklist
import AdServer.Bid.SlotLog
import AdServer.Bid.BaiduSlots
import AdServer.Billing.PriceDamage
import AdServer.Billing.WinPrice
import AdServer.Mapping.Loop
import AdServer.Trace.Attribution
import AdServer.Trace.Stored
import AdServer.Log.WorkMode
import AdServer.Log.MonitorSlot
import AdServer.Log.LocalFile
import AdServer.Executor.Queue
import AdServer.Executor.Workers
import AdServer.Executor.Shutdown
import AdServer.Scenario.Blocks
import AdServer.Search.Shifts
import AdServer.Select.Socket
import AdServer.Price.Bounds
import AdServer.Url.Bounds
import AdServer.Url.PlainUrl
import AdServer.Trace.Landing
import AdServer.Url.Lossless
import AdServer.Url.AreaCode
import AdServer.Show.ClickLanding
import AdServer.Show.Response
import AdServer.Trace.Placeholders
import AdServer.Scenario.AddressText
import AdServer.Bid.DeviceId
import AdServer.Area.Lookup
import AdServer.Area.LineOrder
import AdServer.Template.Variables
import AdServer.Select.Message
import AdServer.Mapping.StoreNodes
import AdServer.Search.Labels
import AdServer.Codec.NulEscape
import AdServer.Codec.Cookie
import AdServer.Codec.CookieTable
import AdServer.Codec.Hex
import AdServer.Bid.RealValue
import AdServer.Bid.Routing
import AdServer.Area.Trim
import AdServer.Buffer.Ring
import AdServer.Buffer.LoopRead
import AdServer.Library.CriticalSection
import AdServer.Buffer.Shared
import AdServer.Buffer.SharedRuns
import AdServer.Library.StreamCodec
import AdServer.Log.Item
import AdServer.Log.Sync
import AdServer.Server.Http
import AdServer.Server.Config
import AdServer.Server.Service
import AdServer.Bid.SlotAudience
import AdServer.Bid.Auction
import AdServer.Server.Visitor
import AdServer.Library.LoadedTable
import AdServer.Bid.ContentType
