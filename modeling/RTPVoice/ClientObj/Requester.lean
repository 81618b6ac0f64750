import RTPVoice.ClientObj.Dispatch
import RTPVoice.FifoQueue.HandOut
import RTPVoice.MyMasterServer.OnData
import RTPVoice.MyProtocol.SendData

namespace RTPVoice.ClientObj

open Framework Json MyMasterServer MyProtocol

/-- The handle as `%d` prints it. -/
def signedHandle (fd : HSocket) : Int := fd.toInt32.toInt

theorem signedHandle_eq (fd : HSocket) : signedHandle fd =
    if fd.toNat < 2 ^ 31 then (fd.toNat : Int) else (fd.toNat : Int) - 2 ^ 32 := by
  have h : signedHandle fd = fd.toBitVec.toInt := rfl
  rw [h, BitVec.toInt_eq_toNat_cond]
  split <;> split <;> simp_all <;> omega

theorem ofInt_eq_iff {v : Int} {fd : HSocket} (hlo : -2 ^ 31 ≤ v) (hhi : v < 2 ^ 31) :
    UInt32.ofInt v = fd ↔ v = signedHandle fd := by
  have hn := fd.toNat_lt
  rw [← UInt32.toNat_inj, UInt32.ofInt, UInt32.toNat_ofNat', signedHandle_eq]
  split <;> omega

/-- The four bytes in front of the payload. -/
def handleField (fd : HSocket) : List UInt8 := Decimal.field handleSize (signedHandle fd)

theorem handleField_length (fd : HSocket) : (handleField fd).length = handleSize :=
  Decimal.field_length _ _

/-- The text of a handle fits `data` easily. -/
theorem intText_length (fd : HSocket) : (Decimal.intText (signedHandle fd)).length ≤ 11 :=
  Decimal.length_intText_int32 fd.toInt32

/-- The object is the text of a handle and zeros. -/
theorem filled_intText (fd : HSocket) : ∃ data,
    (Block.zero 2048).write 0 (Decimal.intText (signedHandle fd) ++ [0]) = some data ∧
    data.bytes.take handleSize = handleField fd := by
  have ht := intText_length fd
  obtain ⟨data, hdata, hfill⟩ := (Block.filled_zero 2048).write
    (Decimal.intText (signedHandle fd) ++ [0])
    (by simp only [List.length_append, List.length_nil, List.length_singleton]; omega)
  refine ⟨data, hdata, ?_⟩
  have hzeros : [0] ++ List.replicate (2048 - (Decimal.intText (signedHandle fd) ++ [0]).length) 0 =
      List.replicate handleSize (0 : UInt8) ++
        List.replicate (2044 - (Decimal.intText (signedHandle fd)).length) 0 := by
    rw [← List.replicate_one, ← List.replicate_add, ← List.replicate_add]
    congr 1
    simp only [List.length_append, List.length_replicate, handleSize]
    omega
  have hbytes : data.bytes = _ := hfill
  rw [hbytes, List.nil_append, List.append_assoc, hzeros, ← List.append_assoc,
    List.take_append_of_le_length (by simp)]
  rfl

theorem envelope_eq (fd : HSocket) {buff : List UInt8} (h : buff.length ≤ 512) :
    envelope fd buff = some (handleField fd ++ buff) := by
  have hl := handleField_length fd
  obtain ⟨data₁, hdata₁, hfield⟩ := filled_intText fd
  obtain ⟨data₂, hdata₂⟩ : ∃ data₂, data₁.write handleSize buff = some data₂ :=
    ⟨_, dif_pos (by simp only [handleSize]; omega)⟩
  obtain ⟨-, hbytes⟩ := Block.write_eq_some.mp hdata₂
  have hread : data₂.read 0 (buff.length + handleSize : Nat) = some (handleField fd ++ buff) := by
    rw [Block.read, if_pos ⟨le_rfl, by omega, by simp only [handleSize]; omega⟩, hbytes, hfield,
      Int.toNat_zero, List.drop_zero, Int.toNat_natCast, ← List.append_assoc, List.take_left']
    rw [List.length_append, hl, Nat.add_comm]
  rw [signedHandle] at hdata₁
  rw [envelope, hdata₁]
  simp only [Option.bind_eq_bind, Option.bind_some, hdata₂]
  exact hread

/-- What is read back as a handle has at most four characters, so it is the handle itself exactly
when that has no more. -/
theorem clientFd_handleField (fd : HSocket) (rest : List UInt8) :
    clientFd (handleField fd ++ rest) = fd ↔ -999 ≤ signedHandle fd ∧ signedHandle fd ≤ 9999 := by
  obtain ⟨v, hscan, hlo, hhi, heq⟩ := Decimal.scanWidth_field (w := handleSize) (by decide)
    (signedHandle fd) (rest ++ List.replicate (1024 - (handleField fd ++ rest).length) 0)
  rw [← List.append_assoc] at hscan
  have hslot : Decimal.scanWidth 4 (queueData (handleField fd ++ rest)) = some v := hscan
  have hfd : clientFd (handleField fd ++ rest) = UInt32.ofInt v := by
    rw [clientFd, hslot]
  rw [hfd, ofInt_eq_iff (by simp only [handleSize] at hlo; omega)
    (by simp only [handleSize] at hhi; omega)]
  simp only [handleSize] at hlo hhi heq
  omega

theorem pushRecvBuffToQueue_eq {fd : HSocket} {buff packet : List UInt8}
    (h : pushRecvBuffToQueue fd buff = some (0, some packet)) :
    packet = handleField fd ++ buff := by
  unfold pushRecvBuffToQueue at h
  split at h
  · simp at h
  · next hguard =>
    rw [envelope_eq fd (by omega), Option.map_some] at h
    simpa using h.symm

/-- A payload that fits behind the handle is at the front of what the parser gets. -/
theorem prefix_jsonData (fd : HSocket) {payload : List UInt8} (rest : List UInt8)
    (h : payload.length ≤ 512) : payload <+: jsonData (handleField fd ++ (payload ++ rest)) := by
  rw [jsonData, queueData, List.append_assoc, List.drop_left' (handleField_length fd),
    List.append_assoc, List.take_append, List.take_of_length_le h]
  exact List.prefix_append _ _

/-- A packet `slot` taken from the queue is answered to the client that sent `payload` on `fd`,
while `clientmap` holds the clients registered. -/
structure Answered (clientmap : List SocketParams) (fd : HSocket) (payload slot : List UInt8) :
    Prop where
  handle : clientFd slot = fd
  payload : payload <+: jsonData slot
  respone : ∀ (lib : Library) (c c' : ProtocolCtrlr) (command : ProtocolNames) (data : ResponeData),
    c.takePacket lib slot = some (c', some (command, data)) →
    data.socketFd = fd ∧ ∀ guid, ∀ m ∈ masterOnDataFunc guid command data, m.1 = fd
  sent : ∀ text sends, sendDataToTheThirdParty fd text clientmap = some sends →
    ∀ send ∈ sends, send.1 = fd

/-- On a handle other than zero a text goes to that handle only; handle zero stands for all. -/
theorem sent_iff (clientmap : List SocketParams) {fd : HSocket} (hfd : fd ≠ invalidSocket) :
    (∀ text sends, sendDataToTheThirdParty fd text clientmap = some sends →
      ∀ send ∈ sends, send.1 = fd) ↔
    (fd = 0 → ∀ client ∈ clientmap, client.socketFd = 0) := by
  constructor
  · intro h h0 client hclient
    subst h0
    exact h [] _ rfl _ (List.mem_map_of_mem hclient)
  · intro h text sends hsends send hsend
    obtain ⟨fragment, -, hsends⟩ := Option.bind_eq_some_iff.mp hsends
    obtain ⟨sendLen, -, hsends⟩ := Option.bind_eq_some_iff.mp hsends
    rw [if_neg hfd] at hsends
    split at hsends
    · next h0 =>
      obtain rfl := Option.some.inj hsends
      obtain ⟨client, hclient, rfl⟩ := List.mem_map.mp hsend
      rw [h0]
      exact h h0 client hclient
    · obtain rfl := Option.some.inj hsends
      rw [List.mem_singleton.mp hsend]

/-- A request that is queued and taken is answered to its client exactly when the handle prints in
at most four characters, and handle zero only when no other client is registered. -/
theorem answered_iff (clientmap : List SocketParams) (fd : HSocket)
    (payload packet slot : List UInt8) (hfd : fd ≠ invalidSocket) (hlen : payload.length ≤ 508)
    (hpush : pushRecvBuffToQueue fd payload = some (0, some packet))
    (htake : FifoQueue.HandsOut packet slot) :
    Answered clientmap fd payload slot ↔
      (-999 ≤ signedHandle fd ∧ signedHandle fd ≤ 9999) ∧
      (fd = 0 → ∀ client ∈ clientmap, client.socketFd = 0) := by
  obtain ⟨-, -, -, -, -, -, rest, rfl⟩ := htake
  obtain rfl := pushRecvBuffToQueue_eq hpush
  rw [List.append_assoc]
  constructor
  · intro h
    exact ⟨(clientFd_handleField fd _).mp h.handle, (sent_iff clientmap hfd).mp h.sent⟩
  · intro h
    obtain ⟨hrange, hzero⟩ := h
    have hhandle := (clientFd_handleField fd (payload ++ rest)).mpr hrange
    refine ⟨hhandle, ?_, fun lib c c' command data hc => ?_, (sent_iff clientmap hfd).mpr hzero⟩
    · exact prefix_jsonData fd rest (by omega)
    · have hdata : data.socketFd = fd := by rw [ProtocolCtrlr.takePacket_socketFd hc, hhandle]
      exact ⟨hdata, fun guid m hm => by rw [masterOnDataFunc_dst hm, hdata]⟩

/-- The requests of client 10000 are answered to client 1000. -/
theorem answer_misrouted : ∃ packet slot,
    pushRecvBuffToQueue 10000 [0x7b, 0x7d] = some (0, some packet) ∧
    FifoQueue.HandsOut packet slot ∧ clientFd slot = 1000 ∧
    ∀ clientmap, ¬ Answered clientmap 10000 [0x7b, 0x7d] slot := by
  obtain ⟨slot, hslot⟩ := FifoQueue.handsOut_single (handleField 10000 ++ [0x7b, 0x7d])
    (by decide)
  have hfd : clientFd slot = 1000 := by
    obtain ⟨-, -, -, -, -, -, rest, rfl⟩ := hslot
    have hfield : handleField 10000 = handleField 1000 := by decide
    rw [hfield, List.append_assoc]
    exact (clientFd_handleField 1000 _).mpr (by decide)
  refine ⟨_, slot, ?_, hslot, hfd, fun clientmap h => ?_⟩
  · rw [pushRecvBuffToQueue, if_neg (by decide), envelope_eq 10000 (by decide)]
    rfl
  · exact absurd (h.handle.symm.trans hfd) (by decide)

/-- A client with a handle of three digits. -/
theorem answered_iff_three_digits : ∃ packet slot,
    pushRecvBuffToQueue 300 [0x7b, 0x7d] = some (0, some packet) ∧
    FifoQueue.HandsOut packet slot ∧
    Answered [⟨300, 50000⟩, ⟨304, 50001⟩] 300 [0x7b, 0x7d] slot := by
  obtain ⟨slot, hslot⟩ := FifoQueue.handsOut_single (handleField 300 ++ [0x7b, 0x7d])
    (by decide)
  have hpush : pushRecvBuffToQueue 300 [0x7b, 0x7d] =
      some (0, some (handleField 300 ++ [0x7b, 0x7d])) := by
    rw [pushRecvBuffToQueue, if_neg (by decide), envelope_eq 300 (by decide)]
    rfl
  exact ⟨_, slot, hpush, hslot,
    (answered_iff _ 300 _ _ slot (by decide) (by decide) hpush hslot).mpr ⟨by decide, by decide⟩⟩

end RTPVoice.ClientObj
