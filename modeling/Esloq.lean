import Esloq.Lib.BigEndian
import Esloq.Lib.Machine
import Esloq.Lib.HighWater
import Esloq.Crypto
import Esloq.Lib.Parts
import Esloq.Wrappers
import Esloq.Firmware.Nonce
import Esloq.Firmware.Lock
import Esloq.Firmware.Process
import Esloq.Firmware.Loop
import Esloq.Firmware.Delivery
import Esloq.Firmware.Freshness
import Esloq.Firmware.Buffer
import Esloq.Server.Ticket
import Esloq.Firmware.Lockout
import Esloq.Server.Honour
import Esloq.App.Nonce
import Esloq.App.Service
import Esloq.App.Climb
import Esloq.Lib.Beside
import Esloq.Session.Joint
import Esloq.Session.Answers
import Esloq.Session.Nonces
import Esloq.Session.InStep
import Esloq.Server.Writes
import Esloq.Firmware.Uart
import Esloq.Firmware.UartRace
import Esloq.Firmware.Packets
import Esloq.Firmware.Unread
import Esloq.Firmware.Parsing
import Esloq.Firmware.Malformed
import Esloq.Firmware.Transmit
import Esloq.Firmware.PowerFailure
import Esloq.Firmware.Survival
import Esloq.Session.Transport
import Esloq.Server.Admins
import Esloq.Server.Accounts
import Esloq.Server.Claiming
import Esloq.App.Controllers
import Esloq.Firmware.Rejected
import Esloq.Firmware.Increment
import Esloq.Session.Alike
import Esloq.Server.Reads
import Esloq.App.Buttons
import Esloq.Lib.Keyed
import Esloq.App.LocalDatabase
import Esloq.App.Repository
import Esloq.App.Orientation
import Esloq.App.Revocation
import Esloq.App.SignOut
import Esloq.App.SessionKey
import Esloq.App.Preferences
import Esloq.Firmware.Presses
import Esloq.Server.Renames
import Esloq.App.ParseAndStore
import Esloq.Server.Served
import Esloq.Lib.Adjacent
import Esloq.Session.Logged
import Esloq.Firmware.Comparison
import Esloq.Lib.LittleEndian
import Esloq.Lib.Arx
import Esloq.Nacl.Bigint
import Esloq.Nacl.Core
import Esloq.Nacl.Stream
import Esloq.Lib.Blocks
import Esloq.Nacl.Poly1305
import Esloq.Nacl.Secretbox
import Esloq.Lib.Progress
import Esloq.Firmware.PowerDown
import Esloq.Firmware.Motor
import Esloq.Lib.Records
import Esloq.Session.Advertised
import Esloq.Lib.Joins
import Esloq.App.Lists
import Esloq.Lib.Timers
import Esloq.App.Connecting
import Esloq.Session.Visits
import Esloq.Lib.Fifo
import Esloq.App.ServerRequests
import Esloq.Lib.Since
import Esloq.App.Scan
import Esloq.Lib.Packed
import Esloq.Firmware.Bgapi
import Esloq.Session.Commands
import Esloq.App.OwnKeys
import Esloq.Firmware.Stretches
import Esloq.Lib.Urls
import Esloq.Lib.Pages
import Esloq.Server.Replies
