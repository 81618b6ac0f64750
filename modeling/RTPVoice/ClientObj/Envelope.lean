import RTPVoice.Common
import RTPVoice.Framework.Block
import RTPVoice.Framework.Decimal

namespace RTPVoice.ClientObj

open Framework

/-- `sizeof(HSocket)`. -/
def handleSize : Nat := 4

/-- What `PushRecvBuffToQueue` hands to `PushToQueue`. The text of the handle has its terminator;
the payload is copied over whatever of it lies behind the fourth byte. -/
def envelope (clientfd : HSocket) (buff : List UInt8) : Option (List UInt8) := do
  let data ← (Block.zero 2048).write 0 (Decimal.intText clientfd.toInt32.toInt ++ [0])
  let data ← data.write handleSize buff
  data.read 0 (buff.length + handleSize)

/-- The value returned and the packet pushed, if any. -/
def pushRecvBuffToQueue (clientfd : HSocket) (buff : List UInt8) :
    Option (Int × Option (List UInt8)) :=
  if 512 < buff.length ∨ clientfd = invalidSocket then some (-1, none)
  else (envelope clientfd buff).map fun packet => (0, some packet)

/-- `queue_data` once a slot of the queue is copied to it. -/
def queueData (slot : List UInt8) : List UInt8 := slot ++ List.replicate (1024 - slot.length) 0

/-- `client_fd` after `sscanf(queue_data, "%4D", &client_fd)`. -/
def clientFd (slot : List UInt8) : HSocket :=
  match Decimal.scanWidth 4 (queueData slot) with
  | none => invalidSocket
  | some fd => UInt32.ofInt fd

def jsonData (slot : List UInt8) : List UInt8 := ((queueData slot).drop handleSize).take 512

/-- The characters in front of the terminator. -/
def cString (s : List UInt8) : List UInt8 := s.takeWhile (· ≠ 0)

theorem jsonData_eq {head : List UInt8} (text : List UInt8) (hh : head.length = handleSize)
    (ht : text.length ≤ 508) :
    jsonData (head ++ text) = text ++ List.replicate (512 - text.length) 0 := by
  have hlen : 1024 - (head ++ text).length = (512 - text.length) + 508 := by
    rw [List.length_append, hh, handleSize]
    omega
  rw [jsonData, queueData, List.append_assoc, List.drop_left' hh, hlen, List.replicate_add,
    ← List.append_assoc, List.take_left']
  rw [List.length_append, List.length_replicate]
  omega

/-- A text without NUL is handed to the parser as it came. -/
theorem cString_jsonData {head text : List UInt8} (hh : head.length = handleSize)
    (ht : text.length ≤ 508) (hnul : ∀ b ∈ text, b ≠ 0) :
    cString (jsonData (head ++ text)) = text := by
  have hmore : 512 - text.length = (511 - text.length) + 1 := by omega
  rw [jsonData_eq text hh ht, cString, List.takeWhile_append_of_pos (by simpa using hnul), hmore,
    List.replicate_succ]
  simp

end RTPVoice.ClientObj
