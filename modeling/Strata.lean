import Strata.Lib.Loop
import Strata.Lib.Utf8
import Strata.Lib.RustInt
import Strata.Lib.RustStr
import Strata.Lib.StreamParser
import Strata.Lib.Pieces
import Strata.Lib.Base64
import Strata.Lib.Framing
import Strata.Lib.Tables
import Strata.Lib.Action
import Strata.Lib.Machine
import Strata.Lib.IpAddr
import Strata.Lib.Unwinding
import Strata.Lib.RustVec
import Strata.Lib.Hex
import Strata.Lib.Http
import Strata.Lib.Blocks
import Strata.Lib.StreamAead
import Strata.Lib.HashChain
import Strata.Lib.KeyOrder
import Strata.Lib.Sessions
import Strata.Protocol.Guacamole
import Strata.Protocol.GuacamoleStability
import Strata.Protocol.GuacamoleRoundTrip
import Strata.Protocol.GuacamoleText
import Strata.Protocol.GuacamoleSplit
import Strata.Protocol.Instruction
import Strata.Transport.Decoder
import Strata.Transport.GuacWire
import Strata.Transport.EncoderStreams
import Strata.Transport.StreamIndices
import Strata.Engine.Event
import Strata.Engine.ProtocolEngine
import Strata.Engine.Sftp
import Strata.Engine.SshLogin
import Strata.Engine.SftpTasks
import Strata.Engine.SftpSlots
import Strata.Engine.SftpDelivery
import Strata.Actor.Streams
import Strata.Actor.Limits
import Strata.Actor.Session
import Strata.Actor.Moves
import Strata.Actor.Runs
import Strata.Actor.Isolation
import Strata.Actor.Pastes
import Strata.Actor.Process
import Strata.Backend.GuestFilter
import Strata.Backend.GuestFrames
import Strata.Backend.ReplayFilter
import Strata.Backend.SessionBuffer
import Strata.Backend.LinkSupervisor
import Strata.Backend.NvrBudget
import Strata.Backend.NvrChecked
import Strata.Backend.SharedViewers
import Strata.Backend.FileStore
import Strata.Backend.FileLedger
import Strata.Backend.FileUploads
import Strata.Backend.FileCleanup
import Strata.Backend.FileSessions
import Strata.Backend.VideoSlices
import Strata.Backend.CoPilotRoom
import Strata.Backend.DisplayNames
import Strata.Backend.VdiReaper
import Strata.Backend.EdgeHeaders
import Strata.Backend.FileCrypto
import Strata.Backend.SealedFiles
import Strata.Backend.AuditHash
import Strata.Backend.AuditVerify
import Strata.Backend.AuditChain
import Strata.Backend.AuditSplit
import Strata.Backend.AuditGrowth
import Strata.Backend.AuditAppend
import Strata.Link.Skew
import Strata.Link.Handshake
import Strata.Link.EdgeHeader
import Strata.Link.Frame
import Strata.Link.Drivers
import Strata.Link.Moves
import Strata.Link.Authentication
import Strata.Dmz.EdgeSigner
import Strata.Dmz.SignedHeaders
import Strata.Dmz.ClientAddress
import Strata.Terminal.Palette
import Strata.Terminal.Renderer
import Strata.Terminal.Damage
import Strata.Terminal.Snapshot
import Strata.Terminal.Flush
import Strata.Terminal.Screen
import Strata.Terminal.Painting
import Strata.Terminal.Repaints
import Strata.Lib.Retry
import Strata.Backend.RecordingStorage
import Strata.Backend.DisplayModel
import Strata.Backend.RecordingFrames
import Strata.Backend.RecordingIndex
import Strata.Backend.RecordingLayers
import Strata.Backend.RecordingSeek
import Strata.Backend.Retention
import Strata.Backend.CheckoutPasswords
import Strata.Backend.CheckoutRequests
import Strata.Backend.CircuitBreaker
import Strata.Backend.ClientIp
import Strata.Backend.WorkerLease
import Strata.Dmz.RateLimit
import Strata.Backend.Idempotency
import Strata.Backend.Admission
import Strata.Backend.Settings
import Strata.Backend.HeldDrawings
import Strata.Backend.HeldOrder
import Strata.Backend.DisplaySize
import Strata.Backend.ViewerMessages
import Strata.Engine.AnnexB
import Strata.Engine.Clipboard
import Strata.Engine.PtyKeys
import Strata.Engine.SshTyping
import Strata.Engine.KubeExec
import Strata.Engine.SftpPaths
import Strata.Backend.SessionEnd
import Strata.Dmz.Forwarding
import Strata.Dmz.RequestPump
import Strata.Dmz.RefillRate
import Strata.Dmz.BodyCaps
import Strata.Lib.Forest
import Strata.Backend.CommonNames
import Strata.Backend.EmailRetries
import Strata.Backend.Ldif
import Strata.Backend.ResponseHeads
import Strata.Frontend.FolderTree
import Strata.Frontend.WinKeyProxy
