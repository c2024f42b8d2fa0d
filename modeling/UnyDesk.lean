import UnyDesk.Connection.Authorization
import UnyDesk.Connection.Approval
import UnyDesk.Connection.Identity
import UnyDesk.Connection.TerminalUser
import UnyDesk.Connection.TunnelLoop
import UnyDesk.Transfer.Promotion
import UnyDesk.Client.Removal
import UnyDesk.Client.Upload
import UnyDesk.Connection.Attempts
import UnyDesk.Net.SecuredSession
import UnyDesk.Transfer.ManagerLockstep
import UnyDesk.Connection.Backoff
import UnyDesk.Net.Chunks
import UnyDesk.Config.DeviceUpdates
import UnyDesk.Terminal.Removal
import UnyDesk.Terminal.Continuity
import UnyDesk.Clipboard.Containment
import UnyDesk.Clipboard.Content
import UnyDesk.Api.Administration
import UnyDesk.Api.Binding
import UnyDesk.Api.Orders
import UnyDesk.Api.Connections
import UnyDesk.Server.VideoService
import UnyDesk.Codec.Negotiation
import UnyDesk.Client.VideoThread
import UnyDesk.Net.WsFramedStream
import UnyDesk.Connection.SecureTcp
import UnyDesk.Keyboard.Release
import UnyDesk.Rendezvous.Mediator
import UnyDesk.Server.PortableToken
import UnyDesk.Codec.RecordMirror
import UnyDesk.Transfer.Resume
import UnyDesk.Clipboard.DescriptorSafety
import UnyDesk.Clipboard.BufferedFile
import UnyDesk.Clipboard.Cache
import UnyDesk.Clipboard.Neighbours
import UnyDesk.Clipboard.LinkedDirectories
import UnyDesk.Clipboard.FuseHandles
import UnyDesk.Transfer.FileNumbers
import UnyDesk.Transfer.TemporaryFiles
import UnyDesk.Terminal.Reconnect
import UnyDesk.Terminal.Replay
import UnyDesk.Terminal.Utf8Chunks
import UnyDesk.Terminal.Helper
import UnyDesk.Terminal.Redraw
import UnyDesk.Server.CaptureDisplays
import UnyDesk.Connection.RemovalLog
import UnyDesk.Server.FrameRate
import UnyDesk.Connection.TemporaryPassword
import UnyDesk.Net.AddrMangle
import UnyDesk.Net.HostPort
import UnyDesk.Transfer.Listing
import UnyDesk.Api.Logins
import UnyDesk.Api.Pages
import UnyDesk.Net.Downloader
import UnyDesk.Config.PeerFiles
import UnyDesk.Server.FrameCounter
import UnyDesk.Config.VersionNumber
import UnyDesk.Client.HostFields
import UnyDesk.Clipboard.Listener
import UnyDesk.Rendezvous.Duplicates
import UnyDesk.Keyboard.KeysDown
import UnyDesk.Clipboard.Sharing
import UnyDesk.Config.Options
import UnyDesk.Connection.SingleGrant

