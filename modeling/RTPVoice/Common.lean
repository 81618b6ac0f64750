import Mathlib.Data.List.Basic
import Mathlib.Tactic.Common

namespace RTPVoice

def bufLength : Nat := 2048

def protocolHead : UInt8 := 0x01

def protocolPackageLengthSize : Nat := 4

def maxListeningCount : Nat := 65535

/-- `SOCKET` of the 32-bit build. -/
abbrev HSocket := UInt32

def invalidSocket : HSocket := 0xFFFFFFFF

/-- What identifies a connection; of `remote_addr` only the port is ever looked at. -/
structure SocketParams where
  socketFd : HSocket
  sinPort : UInt16
  deriving DecidableEq

/-- `operator<`: by handle, then by port. -/
def SocketParams.lt (a b : SocketParams) : Bool :=
  if a.socketFd < b.socketFd then true
  else if a.socketFd = b.socketFd then
    if a.sinPort < b.sinPort then true else false
  else false

/-- `PROTOCOL_Names`. -/
inductive ProtocolNames where
  | connect
  | listening
  | query
  | callRequest
  | callRelease
  | callStart
  | callEnd
  deriving DecidableEq

structure ResponeData where
  socketFd : HSocket
  identifier : String
  key : String
  channelId : String
  channel1GroupId : Int16
  channel2GroupId : Int16
  srcId : Int32
  dstId : Int32
  status : String
  reason : String
  deriving DecidableEq

end RTPVoice
