import TileRoom.Address
import TileRoom.Chunk
import TileRoom.Chunk.Reader
import TileRoom.Client.Command
import TileRoom.Client.Connection
import TileRoom.Client.Console
import TileRoom.Client.Event
import TileRoom.Client.EventQueue
import TileRoom.Client.Game
import TileRoom.Client.IdleQueue
import TileRoom.Client.IncomingStream
import TileRoom.Client.Model
import TileRoom.Client.Session
import TileRoom.Client.TileArena
import TileRoom.Client.Transcript
import TileRoom.Client.Worker
import TileRoom.CommandLine.ClientSettings
import TileRoom.CommandLine.Options
import TileRoom.CommandLine.ServerSettings
import TileRoom.Conversation.Action
import TileRoom.Conversation.Basic
import TileRoom.Digest.Base64
import TileRoom.Digest.Hex
import TileRoom.Digest.Sha1
import TileRoom.Frame
import TileRoom.Handshake.HeadReader
import TileRoom.Handshake.Key
import TileRoom.IndexSet
import TileRoom.Json.Reader
import TileRoom.Json.Token
import TileRoom.Json.Value
import TileRoom.Main
import TileRoom.PersonId
import TileRoom.ProtocolError
import TileRoom.Request
import TileRoom.Request.Head
import TileRoom.Response.Head
import TileRoom.Response.OutBuf
import TileRoom.Response.Reply
import TileRoom.Response.WatchStream
import TileRoom.Room
import TileRoom.Rules
import TileRoom.Server.Link
import TileRoom.Server.Lobby
import TileRoom.Server.Network
import TileRoom.Server.Registry
import TileRoom.Server.Router
import TileRoom.Signal
import TileRoom.Status
import TileRoom.Table
import TileRoom.Text.Blank
import TileRoom.Text.Cut
import TileRoom.Text.Form
import TileRoom.Text.Numeral
import TileRoom.Text.Utf8
import TileRoom.Proofs.Handshaking
import TileRoom.Proofs.StreamCuts
import TileRoom.Proofs.JsonText
import TileRoom.Proofs.Text.Encoding
import TileRoom.Proofs.Writing
import TileRoom.Proofs.Airing
import TileRoom.Proofs.Applying
import TileRoom.Proofs.Broadcasting
import TileRoom.Proofs.CatchingUp
import TileRoom.Proofs.ChatDelivery
import TileRoom.Proofs.Reattaching
import TileRoom.Proofs.Watching
import TileRoom.Proofs.ChunkFeeding
import TileRoom.Proofs.HeadFeeding
import TileRoom.Proofs.HeadGrammar
import TileRoom.Proofs.Presence
import TileRoom.Proofs.Ordering
import TileRoom.Proofs.Counting
import TileRoom.Proofs.Flushing
import TileRoom.Proofs.FrameLines
import TileRoom.Proofs.RequestTargets
import TileRoom.Proofs.Noticing
import TileRoom.Proofs.Pumping
import TileRoom.Proofs.Waking
import TileRoom.Proofs.Linking
import TileRoom.Proofs.Returning
import TileRoom.Proofs.Classifying
import TileRoom.Proofs.Grouping
import TileRoom.Proofs.Progressing
import TileRoom.Proofs.RoomNotices
import TileRoom.Proofs.RoomHistory
import TileRoom.Proofs.Entering
import TileRoom.Proofs.Expiring
import TileRoom.Proofs.Idling
import TileRoom.Proofs.Recency
import TileRoom.Proofs.Commanding
import TileRoom.Proofs.Playing
import TileRoom.Proofs.Retelling
import TileRoom.Proofs.KeyHashing
import TileRoom.Proofs.AddressText
import TileRoom.Proofs.ChunkGrammar
import TileRoom.Proofs.Listening
import TileRoom.Proofs.Recycling
import TileRoom.Proofs.WordSets
