import RTPVoice.Common
import RTPVoice.Framework.Block
import RTPVoice.Framework.Decimal
import RTPVoice.Framework.Loop

namespace RTPVoice.ClientObj

open Framework Framework.Loop

/-- The reassembly state of one connection. The machine integers stay far inside 32 bits: every
access they index is checked against `data`. -/
structure StickDismantleOptions where
  bytesRemained : Int
  count : Nat
  proLength : Int
  data : Block bufLength
  deriving DecidableEq

/-- `memset(&temp_option, 0, ..)` of the constructor. -/
def StickDismantleOptions.zero : StickDismantleOptions := ⟨0, 0, 0, Block.zero bufLength⟩

/-- What `StickDismantleProtocol` asks of others. `buff` is the memory of `data` from the passed
pointer on, `buffLen` the passed length. -/
inductive Call where
  | sscanf (lenStr : List UInt8)
  | pushRecvBuffToQueue (clientfd : HSocket) (buff : List UInt8) (buffLen : Int)
  | socketClearRecvBuffer (clientfd : HSocket)
  deriving DecidableEq

/-- The variables live at the label `Start`. -/
structure AtStart where
  option : StickDismantleOptions
  recvLength : Int
  deriving DecidableEq

abbrev StartPass := Pass AtStart (Int × StickDismantleOptions) Call

/-- `PushRecvBuffToQueue(clientfd, &option.data[5], option.pro_length)`. -/
def StickDismantleOptions.push (clientfd : HSocket) (o : StickDismantleOptions) : Call :=
  .pushRecvBuffToQueue clientfd (o.data.bytes.drop 5) o.proLength

/-- The branch that finds a header at the front of `data`. -/
def protocolStart (clientfd : HSocket) (option : StickDismantleOptions) (recvLength : Int) :
    Option StartPass := do
  let lenStr ← option.data.read 1 protocolPackageLengthSize
  let proLength := (Decimal.scan lenStr).getD option.proLength
  let bytesRemained := proLength - (recvLength - 5)
  let push := { option with proLength }.push clientfd
  if bytesRemained = 0 then
    return ⟨[.sscanf lenStr, push], .leave (0, ⟨0, 0, 0, Block.zero bufLength⟩)⟩
  else if 0 < bytesRemained then
    return ⟨[.sscanf lenStr], .leave (0,
      { option with bytesRemained, proLength, count := option.count + recvLength.toNat })⟩
  else
    let rest ← option.data.read (proLength + 5) (recvLength - 5 - proLength)
    let moved ← option.data.write 0 rest
    let data ← moved.zeroFrom (recvLength - proLength - 5)
    return ⟨[.sscanf lenStr, push], .jump ⟨⟨0, 0, proLength, data⟩, recvLength - 5 - proLength⟩⟩

/-- The branch inside a frame whose header was read earlier. -/
def protocolContinue (clientfd : HSocket) (option : StickDismantleOptions) (recvLength : Int) :
    Option StartPass := do
  if option.bytesRemained = recvLength then
    return ⟨[option.push clientfd], .leave (0, ⟨0, 0, 0, Block.zero bufLength⟩)⟩
  else if recvLength < option.bytesRemained then
    return ⟨[], .leave (0, { option with
      bytesRemained := option.bytesRemained - recvLength
      count := option.count + recvLength.toNat })⟩
  else
    let last ← option.data.get (option.proLength + protocolPackageLengthSize)
    if last = 0x7D then
      let left := option.count + recvLength - option.proLength - 5
      let rest ← option.data.read (option.proLength + 5) left
      let moved ← option.data.write 0 rest
      let data ← moved.zeroFrom left
      return ⟨[option.push clientfd], .jump ⟨⟨0, 0, option.proLength, data⟩, left⟩⟩
    else
      -- packet loss: only the newest chunk is kept
      let rest ← option.data.read option.count recvLength
      let moved ← option.data.write 0 rest
      let data ← moved.zeroFrom recvLength
      return ⟨[], .jump ⟨⟨0, 0, option.proLength, data⟩, recvLength⟩⟩

/-- The last branch: a possible header start is kept, anything longer is thrown away. -/
def protocolOther (clientfd : HSocket) (option : StickDismantleOptions) (recvLength : Int) :
    StartPass :=
  if recvLength < 5 then
    ⟨[], .leave (0, { option with count := option.count + recvLength.toNat })⟩
  else
    ⟨[.socketClearRecvBuffer clientfd], .leave (0, ⟨0, 0, 0, Block.zero bufLength⟩)⟩

/-- From `Start` to the next `goto Start` or to the end of the function. -/
def startPass (clientfd : HSocket) (s : AtStart) : Option StartPass := do
  let head ← s.option.data.get 0
  if head = protocolHead ∧ 5 ≤ s.recvLength ∧ s.option.bytesRemained = 0 then
    protocolStart clientfd s.option s.recvLength
  else if 0 < s.option.bytesRemained then
    protocolContinue clientfd s.option s.recvLength
  else
    return protocolOther clientfd s.option s.recvLength

/-- `StickDismantleProtocol`, for at most `fuel` visits of `Start`. -/
def stickDismantleProtocol (fuel : Nat) (clientfd : HSocket) (ptr : List UInt8)
    (option : StickDismantleOptions) : Outcome (Int × StickDismantleOptions) Call :=
  if bufLength < ptr.length then .returned (-1, option) []
  else
    match option.data.write option.count ptr with
    | none => .fault
    | some data => Loop.run (startPass clientfd) fuel ⟨{ option with data }, ptr.length⟩

/-- The call on the chunk `ptr` returns in the state `option'` after making `calls`. -/
def Receives (clientfd : HSocket) (option : StickDismantleOptions) (ptr : List UInt8)
    (option' : StickDismantleOptions) (calls : List Call) : Prop :=
  ∃ fuel ret, stickDismantleProtocol fuel clientfd ptr option = .returned (ret, option') calls

/-- One call for each chunk, each from the state the one before left; the calls made, by chunk. -/
inductive Feeds (clientfd : HSocket) : StickDismantleOptions → List (List UInt8) →
    List (List Call) → StickDismantleOptions → Prop where
  | nil (o) : Feeds clientfd o [] [] o
  | cons {o c o' calls cs outs o''} (h : Receives clientfd o c o' calls)
      (ht : Feeds clientfd o' cs outs o'') : Feeds clientfd o (c :: cs) (calls :: outs) o''

end RTPVoice.ClientObj
