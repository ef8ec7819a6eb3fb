import EOSEmu.Lib.Dict
import EOSEmu.Lib.Run
import EOSEmu.Lib.Trace
import EOSEmu.Lib.Arq
import EOSEmu.Lib.Replay
import EOSEmu.Lib.Network
import EOSEmu.Sdk
import EOSEmu.Net.Wire
import EOSEmu.Net.Serialize
import EOSEmu.Net.Robust
import EOSEmu.Net.RawReader
import EOSEmu.Net.Lan
import EOSEmu.Core.Memory
import EOSEmu.Core.Lifecycle
import EOSEmu.Core.Hello
import EOSEmu.Interfaces.Attributes
import EOSEmu.Interfaces.Modification
import EOSEmu.Core.Dispatch
import EOSEmu.Interfaces.Notify
import EOSEmu.Lobby.Record
import EOSEmu.Lobby.Codec
import EOSEmu.Lobby.Modification
import EOSEmu.Lobby.Interface
import EOSEmu.Lobby.Node
import EOSEmu.Lobby.Agreement
import EOSEmu.Lobby.World
import EOSEmu.Lobby.Replicas
import EOSEmu.Sessions.Record
import EOSEmu.Sessions.Codec
import EOSEmu.Sessions.Interface
import EOSEmu.Sessions.Datagram
import EOSEmu.Sessions.Discovery
import EOSEmu.Storage.PlayerData
import EOSEmu.Interfaces.Decoders
import EOSEmu.Presence.Modification
import EOSEmu.Core.Peers
import EOSEmu.Core.Platform
import EOSEmu.Core.Transport
import EOSEmu.Presence.Replication
import EOSEmu.Presence.Product
import EOSEmu.Core.Liveness
import EOSEmu.Interfaces.Replayed
import EOSEmu.P2P.State
import EOSEmu.P2P.Message
import EOSEmu.P2P.Sequence
import EOSEmu.P2P.Receive
import EOSEmu.P2P.Send
import EOSEmu.P2P.Interface
import EOSEmu.P2P.Node
import EOSEmu.P2P.Steps
import EOSEmu.P2P.Retained
import EOSEmu.P2P.Orphans
import EOSEmu.P2P.World
import EOSEmu.P2P.Bounds
import EOSEmu.P2P.Stream
import EOSEmu.P2P.Reliable
import EOSEmu.P2P.Arrivals
import EOSEmu.P2P.Resync
import EOSEmu.P2P.Acknowledge
import EOSEmu.P2P.Connections
import EOSEmu.P2P.Consent
import EOSEmu.P2P.Announce
import EOSEmu.P2P.Timeout
import EOSEmu.P2P.Notifications
import EOSEmu.Lobby.Departures
import EOSEmu.Lobby.Ownership
import EOSEmu.Lobby.Membership
import EOSEmu.Interfaces.BackendIds
import EOSEmu.Lib.Queue
import EOSEmu.Lib.Switch
import EOSEmu.Lobby.Announces
import EOSEmu.Lobby.Capacity
import EOSEmu.Lobby.Forwarded
import EOSEmu.Lobby.Joins
import EOSEmu.P2P.Backpressure
import EOSEmu.RTC.Rooms
import EOSEmu.Lib.Token
import EOSEmu.Lobby.Authority
import EOSEmu.Lobby.Closed
import EOSEmu.Core.Drains
import EOSEmu.Core.IniConfig
import EOSEmu.Core.Layering
import EOSEmu.Core.PeerReports
import EOSEmu.Interfaces.Stats
import EOSEmu.RTC.Participants
import EOSEmu.Storage.TitleFiles
import EOSEmu.RTC.Audio
import EOSEmu.Storage.Transfer
import EOSEmu.Interfaces.Comparison
import EOSEmu.Sessions.Owned
import EOSEmu.Lobby.Conservation
import EOSEmu.Lib.Collect
import EOSEmu.Lib.Ledger
import EOSEmu.Lib.ByteMemory
import EOSEmu.Interfaces.StatRuns
import EOSEmu.Core.SteamId
import EOSEmu.Interfaces.Connect
import EOSEmu.Interfaces.Search
import EOSEmu.Core.Layout
import EOSEmu.Lib.Standing
import EOSEmu.Social.Invitations
import EOSEmu.Social.Pending
import EOSEmu.Social.UiEvents
import EOSEmu.Social.Authentic
import EOSEmu.Social.Ordered
import EOSEmu.Overlay.Visibility
import EOSEmu.Overlay.Notifications
import EOSEmu.Overlay.Pump
import EOSEmu.Interfaces.Retired
import EOSEmu.Interfaces.Login
import EOSEmu.Interfaces.Achievements
import EOSEmu.Interfaces.Ids
import EOSEmu.Interfaces.Friends
import EOSEmu.Interfaces.Mods
import EOSEmu.Interfaces.Ecom
import EOSEmu.Core.Logging
