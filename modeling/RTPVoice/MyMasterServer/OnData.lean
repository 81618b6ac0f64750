import RTPVoice.MyProtocol.Replies

namespace RTPVoice.MyMasterServer

open Json MyProtocol

/-- The messages `MasterOnDataFunc` has composed, each with the handle it is for; `guid k` is what
`CreateGuid` returns for message `k`. -/
def masterOnDataFunc (guid : Nat → String) (command : ProtocolNames) (data : ResponeData) :
    List (HSocket × Value) :=
  match command with
  | .connect => [(data.socketFd, connectReply (guid 0) "success" "fine!")]
  | .listening =>
    [(data.socketFd,
      configReply (guid 0) data.channel1GroupId.toInt32 data.channel2GroupId.toInt32)]
  | .query =>
    [(data.socketFd,
      queryReply (guid 0) data.channel1GroupId.toInt32 data.channel2GroupId.toInt32)]
  | .callRequest =>
    [(data.socketFd, callRequestReply (guid 0) "fail" "Unconnect"),
      (data.socketFd, callStartNotify (guid 1) data.srcId data.dstId data.channelId)]
  | .callRelease =>
    [(data.socketFd, callReleaseReply (guid 0) "fail" "Unconnect"),
      (data.socketFd, callEndNotify (guid 1) data.srcId data.dstId data.channelId)]
  | .callStart | .callEnd => []

/-- Everything is for the handle in `ResponeData`. -/
theorem masterOnDataFunc_dst {guid : Nat → String} {command : ProtocolNames} {data : ResponeData}
    {m : HSocket × Value} (h : m ∈ masterOnDataFunc guid command data) :
    m.1 = data.socketFd := by
  cases command <;> simp only [masterOnDataFunc, List.mem_cons, List.not_mem_nil, or_false] at h
  case connect | listening | query => rw [h]
  case callRequest | callRelease => rcases h with rfl | rfl <;> rfl

end RTPVoice.MyMasterServer
