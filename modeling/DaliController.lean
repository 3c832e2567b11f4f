import DaliController.Dali.BusAccess
import DaliController.Dali.HalfBits
import DaliController.Dali.Traffic
import DaliController.Http.Decode
import DaliController.Http.Expansion
import DaliController.Http.FormBounds
import DaliController.Http.Unchanged
import DaliController.Http.Upload
import DaliController.Lamps.Buttons
import DaliController.Lamps.Clients
import DaliController.Rs485.Conversation
import DaliController.Rs485.SendResult
import DaliController.Schedule.Accepted
import DaliController.Schedule.Switching
import DaliController.Search.GearFile
import DaliController.Search.Predecessor
import DaliController.Search.Progress
import DaliController.Search.Termination
import DaliController.Search.Uniqueness
import DaliController.Storage.FnMatch
import DaliController.Tcp.Clients
import DaliController.Tcp.SocketSend
