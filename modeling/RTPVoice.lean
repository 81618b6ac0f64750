import RTPVoice.FifoQueue.Residue
import RTPVoice.ClientObj.CopyIn
import RTPVoice.ClientObj.BadHeader
import RTPVoice.ClientObj.Admission
import RTPVoice.Server.Rounds
import RTPVoice.MyProtocol.RoundTrip
import RTPVoice.MyProtocol.ReplySizes
import RTPVoice.MyProtocol.Sizes
import RTPVoice.MyProtocol.DeadClients
import RTPVoice.MyProtocol.Listening
import RTPVoice.Session.Refinement
import RTPVoice.Session.Inert
import RTPVoice.Session.WithinFrame
import RTPVoice.ClientObj.Jumps
import RTPVoice.ClientObj.Junk
import RTPVoice.ClientObj.ReadLoop
import RTPVoice.MyProtocol.ExactFraming
import RTPVoice.ClientObj.NameTables
import RTPVoice.MyProtocol.PhySocketSend
import RTPVoice.Session.ChannelIds
import RTPVoice.ClientObj.Consistency
import RTPVoice.Server.Answers
import RTPVoice.Server.Leaving
import RTPVoice.Server.Origin
import RTPVoice.MyProtocol.Teardown.Ending
import RTPVoice.MyMasterServer.Voice
import RTPVoice.MyMasterServer.Studio
