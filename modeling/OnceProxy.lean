import OnceProxy.Auth.Keys
import OnceProxy.Config
import OnceProxy.Envelope.Codec
import OnceProxy.Envelope.Mask
import OnceProxy.Main
import OnceProxy.Proofs.Store.History
import OnceProxy.Proofs.Store.Slots
import OnceProxy.Proxy.Outage
import OnceProxy.Proxy.Timeline
import OnceProxy.Startup
import OnceProxy.Text.CommaList
import OnceProxy.Proofs.Store.Actions
import OnceProxy.Proofs.Store.Traffic
import OnceProxy.Proofs.Store.Exclusion
import OnceProxy.Proofs.Proxy.Traffic
import OnceProxy.Proofs.Proxy.Turns
import OnceProxy.Proofs.Proxy.AtMostOnce
import OnceProxy.Proofs.Cbor.ReadBack
import OnceProxy.Proofs.Envelope.ReadBack
import OnceProxy.Proofs.Proxy.Replay
import OnceProxy.Proofs.Proxy.Leases
import OnceProxy.Proofs.Proxy.Settling
import OnceProxy.Proofs.Proxy.Caching
import OnceProxy.Proofs.Store.Whole
import OnceProxy.Proofs.Store.Operations
import OnceProxy.Proofs.Store.Timers
import OnceProxy.Proofs.Store.Lifetime
import OnceProxy.Proofs.Store.Isolation
import OnceProxy.Proofs.Proxy.Abandonment
import OnceProxy.Proofs.Store.Records
import OnceProxy.Proofs.Store.Shared
import OnceProxy.Proofs.Store.Frame
import OnceProxy.Proofs.Store.Correspondence
import OnceProxy.Proofs.Store.Agreement
import OnceProxy.Proofs.Store.Addresses
import OnceProxy.Proofs.Proxy.Service
import OnceProxy.Proofs.Proxy.Interchange
import OnceProxy.Proofs.Proxy.Promptness
import OnceProxy.Proofs.Proxy.Following
import OnceProxy.Proofs.Auth.Verification
import OnceProxy.Proofs.Proxy.Gate
import OnceProxy.Proofs.Proxy.Admission
import OnceProxy.Proofs.Proxy.Routing
import OnceProxy.Proofs.Proxy.Dismissal
import OnceProxy.Proofs.Text.Base64Url
import OnceProxy.Proofs.Cbor.Truncation
import OnceProxy.Proofs.Auth.TokenBytes
import OnceProxy.Proofs.Auth.Bearer
import OnceProxy.Proofs.Auth.Minting
import OnceProxy.Proofs.Cbor.WellFormed
import OnceProxy.Proofs.Cbor.Items
import OnceProxy.Proofs.Auth.TokenShape
import OnceProxy.Proofs.Http.HeaderMap
import OnceProxy.Proofs.Envelope.Headers
import OnceProxy.Proofs.Cbor.Values
import OnceProxy.Proofs.Envelope.CborMask
import OnceProxy.Proofs.Input
import OnceProxy.Proofs.Table
import OnceProxy.Proofs.Json.Strings
import OnceProxy.Proofs.Json.Numbers
import OnceProxy.Proofs.Json.Decimals
import OnceProxy.Proofs.Json.Grammar
import OnceProxy.Proofs.Json.Meaning
import OnceProxy.Proofs.Json.Reading
import OnceProxy.Proofs.Json.Writing
import OnceProxy.Proofs.Envelope.JsonMask
import OnceProxy.Proofs.Http.ContentLength
import OnceProxy.Proofs.Envelope.Rendering
import OnceProxy.Proofs.Envelope.Room
import OnceProxy.Proofs.Proxy.Forwarding
import OnceProxy.Proofs.Text.Trimming
import OnceProxy.Proofs.Text.ByteOrder
import OnceProxy.Proofs.Settings.Tables
import OnceProxy.Proofs.Settings.Keys
import OnceProxy.Proofs.Settings.Order
import OnceProxy.Proofs.Settings.Times
import OnceProxy.Proofs.Proxy.Polling
import OnceProxy.Proofs.Settings.Agents
import OnceProxy.Proofs.Store.Representation
import OnceProxy.Proofs.Store.Size
