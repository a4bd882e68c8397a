import Kmsrs.Lib.Layout
import Kmsrs.Lib.ArrayVec
import Kmsrs.Lib.Run
import Kmsrs.Lib.Feed
import Kmsrs.Lib.BlockMode
import Kmsrs.Lib.ByteXor
import Kmsrs.Crypto.Field
import Kmsrs.Crypto.Rijndael
import Kmsrs.Crypto.Cbc
import Kmsrs.Crypto.Tags
import Kmsrs.Kms.Layout
import Kmsrs.Kms.EPid
import Kmsrs.Kms.Request
import Kmsrs.Kms.Framing
import Kmsrs.Kms.Response
import Kmsrs.Kms.Validate
import Kmsrs.Kms.Exchange
import Kmsrs.Wire.Header
import Kmsrs.Wire.Stub
import Kmsrs.Wire.Bind
import Kmsrs.Wire.Acknowledgement
import Kmsrs.Wire.Results
import Kmsrs.Wire.Connection
import Kmsrs.Wire.Frame
import Kmsrs.Wire.Reply
import Kmsrs.Wire.Handlers
import Kmsrs.Wire.Conservation
import Kmsrs.Wire.Contexts
import Kmsrs.Wire.Machine
import Kmsrs.Wire.Segmentation
import Kmsrs.Server.Handle
import Kmsrs.Server.Delivery
import Kmsrs.Server.Room
import Kmsrs.Wire.Reassembly
import Kmsrs.Wire.Calls
import Kmsrs.Kms.Codec
import Kmsrs.Kms.Accounting
import Kmsrs.Lib.Recency
import Kmsrs.Lib.Slots
import Kmsrs.Policy.Counting
import Kmsrs.Policy.Isolation
import Kmsrs.Policy.Recall
import Kmsrs.Lib.TokenBucket
import Kmsrs.Policy.Access
import Kmsrs.Policy.Limits
import Kmsrs.Policy.AccessList
import Kmsrs.Lib.Ring
import Kmsrs.Wire.EventRing
import Kmsrs.Wire.Client
import Kmsrs.Wire.ClientBind
import Kmsrs.Db.Tables
import Kmsrs.Db.Build
import Kmsrs.Policy.Identity
import Kmsrs.Policy.Gate
import Kmsrs.Policy.Events
import Kmsrs.Policy.Journal
import Kmsrs.Server.Audit
import Kmsrs.Wire.Asked
import Kmsrs.Policy.Expiry
import Kmsrs.Server.Serve
import Kmsrs.Server.Race
import Kmsrs.Server.Config
import Kmsrs.Server.Instance
import Kmsrs.Server.Driver
import Kmsrs.Server.Keys
import Kmsrs.Server.Quota
import Kmsrs.Server.Commitment
import Kmsrs.Server.Host
import Kmsrs.Os.Dhcp
import Kmsrs.Lib.Bytes
import Kmsrs.Lib.Text
import Kmsrs.Lib.Duration
import Kmsrs.Lib.Sorted
import Kmsrs.Wire.Dispatch
import Kmsrs.Wire.Syntax
import Kmsrs.Kms.Types
import Kmsrs.Os.Lease
import Kmsrs.Os.LeaseRun
import Kmsrs.Os.Expiry
import Kmsrs.Os.Noise
import Kmsrs.Lib.WordXor
import Kmsrs.Os.Transaction
import Kmsrs.Os.Sntp
import Kmsrs.Os.Link
import Kmsrs.Web.Request
import Kmsrs.Web.Response
import Kmsrs.Web.Listener
import Kmsrs.Lib.Json
import Kmsrs.Lib.JsonTree
import Kmsrs.Server.Display
import Kmsrs.Lib.Display
import Kmsrs.Server.Log
import Kmsrs.Server.LogLine
import Kmsrs.Kms.WorkstationName
import Kmsrs.Lib.IpText
import Kmsrs.Policy.Fleet
import Kmsrs.Lib.Html
import Kmsrs.Web.Routes
import Kmsrs.Web.Markup
import Kmsrs.Os.Agent
import Kmsrs.Os.AgentReading
import Kmsrs.Lib.JsonSearch
import Kmsrs.Os.AgentCommand
import Kmsrs.Lib.Lines
import Kmsrs.Os.AgentLines
import Kmsrs.Wire.Negotiation
import Kmsrs.Crypto.CbcBuffer
import Kmsrs.Lib.Utf8
import Kmsrs.Lib.Split
import Kmsrs.Web.Grammar
import Kmsrs.Web.Lenient
import Kmsrs.Dbgen.Model
import Kmsrs.Dbgen.Extract
import Kmsrs.Dbgen.Merging
import Kmsrs.Dbgen.Contents
import Kmsrs.Lib.Preferred
import Kmsrs.Dbgen.Products
import Kmsrs.Dbgen.Orders
import Kmsrs.Db.Date
import Kmsrs.Lib.Calendar
import Kmsrs.Db.Hosts
import Kmsrs.Policy.Epid
import Kmsrs.Lib.Draw
import Kmsrs.Policy.Drawing
import Kmsrs.Lib.Rows
import Kmsrs.Policy.Startup
import Kmsrs.Web.HostHeader
import Kmsrs.Db.DayCount
import Kmsrs.Lib.Gather
import Kmsrs.Policy.Uniform
import Kmsrs.Policy.Legal
import Kmsrs.Policy.Selection
import Kmsrs.Web.EventOrder
import Kmsrs.Policy.FleetRows
import Kmsrs.Policy.EpidText
import Kmsrs.Kms.RequestFields
import Kmsrs.Os.Timers
import Kmsrs.Wire.ByteOrder
import Kmsrs.Lib.Padding
import Kmsrs.Crypto.TimeSlots
import Kmsrs.Crypto.CbcMac
import Kmsrs.Os.NtpWindow
import Kmsrs.Kms.FileTime
import Kmsrs.Os.Pacing
import Kmsrs.Client.Discover
import Kmsrs.Lib.Roulette
import Kmsrs.Client.Weighting
import Kmsrs.Lib.JsonSpaced
import Kmsrs.Os.AgentFraming
import Kmsrs.Lib.Find
import Kmsrs.Lib.Words
import Kmsrs.Dbgen.KeyTable
import Kmsrs.Dbgen.Rereading
import Kmsrs.Dbgen.KeyPage
import Kmsrs.Dbgen.Scraping
import Kmsrs.Server.Pieces
import Kmsrs.Wire.ClientReply
import Kmsrs.Client.Session
import Kmsrs.Client.Loopback
import Kmsrs.Client.Charge
import Kmsrs.Client.Probe
import Kmsrs.Client.Soak
import Kmsrs.Client.Names
import Kmsrs.Lib.Crew
import Kmsrs.Server.Permits
import Kmsrs.Os.Discipline
import Kmsrs.Lib.HttpReply
import Kmsrs.Lib.Exposition
import Kmsrs.Web.Monitor
import Kmsrs.Os.Console
import Kmsrs.Client.Catalog
import Kmsrs.Policy.Ownership
