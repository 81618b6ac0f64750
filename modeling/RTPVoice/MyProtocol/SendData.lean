import RTPVoice.Common
import RTPVoice.Framework.Block
import RTPVoice.Framework.Decimal

namespace RTPVoice.MyProtocol

open Framework

def fragmentSize : Nat := 1024

/-- The four bytes of `payload_len`. A text shorter than what is copied of it is followed by its
terminator; the zeros stand for that and for what lies behind it. -/
def payloadLen (size : Nat) : List UInt8 :=
  if size < 1000 then
    0x30 :: (Decimal.text size ++ [0, 0]).take (protocolPackageLengthSize - 1)
  else (Decimal.text size).take protocolPackageLengthSize

/-- `phy_fragment` once the payload is copied in. -/
def phyFragment (buff : List UInt8) : Option (Block fragmentSize) := do
  let fragment ← (Block.zero fragmentSize).write 0 [protocolHead]
  let fragment ← fragment.write 1 (payloadLen buff.length)
  fragment.write 5 buff

/-- `strlen`; `none` when it runs off the end. -/
def strlen (s : List UInt8) : Option Nat := s.findIdx? (· == 0)

/-- What `SendDataToTheThirdParty` hands to `PhySocketSendData`, in order. -/
def sendDataToTheThirdParty (fd : HSocket) (buff : List UInt8) (clientmap : List SocketParams) :
    Option (List (HSocket × List UInt8)) := do
  let fragment ← phyFragment buff
  let sendLen ← strlen fragment.bytes
  let sent := fragment.bytes.take sendLen
  if fd = invalidSocket then
    return []
  else if fd = 0 then
    return clientmap.map fun client => (client.socketFd, sent)
  else
    return [(fd, sent)]

theorem strlen_append {s t : List UInt8} (h : ∀ b ∈ s, b ≠ 0) :
    strlen (s ++ 0 :: t) = some s.length := by
  rw [strlen, List.findIdx?_append, List.findIdx?_eq_none_iff.mpr (by simpa using h)]
  simp [List.findIdx?_cons]

/-- A size of three digits is written as the four zero-padded ones. -/
theorem payloadLen_eq_padded {size : Nat} (hlo : 100 ≤ size) (hhi : size < 10000) :
    payloadLen size = Decimal.padded 4 size := by
  have hge : ¬ (Decimal.text size).length ≤ 2 := by
    rw [Decimal.length_text_le (by decide)]
    omega
  unfold payloadLen Decimal.padded protocolPackageLengthSize
  split
  · next h =>
    have hle : (Decimal.text size).length ≤ 3 := (Decimal.length_text_le (by decide)).mpr h
    have hlen : (Decimal.text size).length = 3 := by omega
    rw [List.take_left' hlen, hlen]
    rfl
  · next h =>
    have hle : (Decimal.text size).length ≤ 4 := (Decimal.length_text_le (by decide)).mpr hhi
    have hgt : ¬ (Decimal.text size).length ≤ 3 := by
      rw [Decimal.length_text_le (by decide)]
      exact h
    have hlen : (Decimal.text size).length = 4 := by omega
    rw [List.take_of_length_le hlen.le, hlen]
    rfl

theorem payloadLen_length_le (size : Nat) : (payloadLen size).length ≤ 4 := by
  unfold payloadLen protocolPackageLengthSize
  split
  · rw [List.length_cons, List.length_take]
    omega
  · rw [List.length_take]
    omega

/-- A payload of at most 1018 bytes stays inside the fragment, whose last byte is left zero. -/
theorem phyFragment_terminated {buff : List UInt8} (h : buff.length ≤ 1018) :
    ∃ fragment, phyFragment buff = some fragment ∧ fragment.bytes[1023]? = some 0 := by
  have hlen := payloadLen_length_le buff.length
  obtain ⟨b₁, h₁⟩ : ∃ b, (Block.zero fragmentSize).write 0 [protocolHead] = some b :=
    ⟨_, dif_pos (by decide)⟩
  obtain ⟨b₂, h₂⟩ : ∃ b, b₁.write 1 (payloadLen buff.length) = some b :=
    ⟨_, dif_pos (by simp only [fragmentSize]; omega)⟩
  obtain ⟨b₃, h₃⟩ : ∃ b, b₂.write 5 buff = some b :=
    ⟨_, dif_pos (by simp only [fragmentSize]; omega)⟩
  refine ⟨b₃, by rw [phyFragment, h₁]; simp [h₂, h₃], ?_⟩
  rw [Block.write_getElem? h₃, if_neg (by omega), Block.write_getElem? h₂, if_neg (by omega),
    Block.write_getElem? h₁, if_neg (by rw [List.length_singleton]; omega)]
  show (List.replicate fragmentSize (0 : UInt8))[1023]? = some 0
  rw [List.getElem?_replicate, if_pos (by decide)]

/-- No access leaves the fragment for a payload of at most 1018 bytes. -/
theorem isSome_sendDataToTheThirdParty {fd : HSocket} {buff : List UInt8}
    {clientmap : List SocketParams} (h : buff.length ≤ 1018) :
    (sendDataToTheThirdParty fd buff clientmap).isSome := by
  obtain ⟨fragment, hf, hzero⟩ := phyFragment_terminated h
  obtain ⟨sendLen, hlen⟩ : ∃ n, strlen fragment.bytes = some n := by
    rw [strlen, ← Option.isSome_iff_exists, List.findIdx?_isSome, List.any_eq_true]
    exact ⟨0, List.mem_of_getElem? hzero, rfl⟩
  simp only [sendDataToTheThirdParty, hf, hlen, Option.bind_eq_bind, Option.bind_some]
  split
  · rfl
  · split <;> rfl

/-- The fragment of a payload of at least a hundred bytes without a NUL. -/
theorem phyFragment_filled {buff : List UInt8} (hlo : 100 ≤ buff.length)
    (hhi : buff.length ≤ 1019) :
    ∃ fragment, phyFragment buff = some fragment ∧
      fragment.Filled (protocolHead :: (Decimal.padded 4 buff.length ++ buff)) := by
  have hp : payloadLen buff.length = Decimal.padded 4 buff.length :=
    payloadLen_eq_padded hlo (by omega)
  have hl : (Decimal.padded 4 buff.length).length = 4 :=
    Decimal.padded_length (by decide) (by omega)
  obtain ⟨b₁, h₁, f₁⟩ := (Block.filled_zero fragmentSize).write [protocolHead] (by decide)
  obtain ⟨b₂, h₂, f₂⟩ := f₁.write (Decimal.padded 4 buff.length)
    (by simp only [hl, List.length_append, List.length_cons, List.length_nil]; decide)
  obtain ⟨b₃, h₃, f₃⟩ := f₂.write buff (by
    simp only [hl, List.length_append, List.length_cons, List.length_nil, fragmentSize]
    omega)
  simp only [hl, List.length_append, List.length_cons, List.length_nil, zero_add] at h₁ h₂ h₃
  refine ⟨b₃, ?_, by simpa using f₃⟩
  simp only [phyFragment, hp, h₁, h₂, h₃, Option.bind_eq_bind, Option.bind_some]

theorem frame_nulFree {buff : List UInt8} (hnul : ∀ b ∈ buff, b ≠ 0) :
    ∀ b ∈ protocolHead :: (Decimal.padded 4 buff.length ++ buff), b ≠ 0 := by
  intro b hb
  rcases List.mem_cons.mp hb with rfl | hb
  · decide
  · cases List.mem_append.mp hb with
    | inl hb =>
      intro h0
      subst h0
      exact absurd (Decimal.padded_digits _ _ 0 hb) (by decide)
    | inr hb => exact hnul b hb

/-- A longer payload leaves the fragment, or leaves it without a NUL for `strlen` to find. -/
theorem isSome_sendDataToTheThirdParty_iff {fd : HSocket} {buff : List UInt8}
    {clientmap : List SocketParams} (hnul : ∀ b ∈ buff, b ≠ 0) :
    (sendDataToTheThirdParty fd buff clientmap).isSome ↔ buff.length ≤ 1018 := by
  refine ⟨fun h => ?_, isSome_sendDataToTheThirdParty⟩
  by_contra hlong
  obtain ⟨sends, hsends⟩ := Option.isSome_iff_exists.mp h
  simp only [sendDataToTheThirdParty, Option.bind_eq_bind, Option.bind_eq_some_iff] at hsends
  obtain ⟨fragment, hf, sendLen, hlen, -⟩ := hsends
  have hfit : 5 + buff.length ≤ fragmentSize := by
    simp only [phyFragment, Option.bind_eq_bind, Option.bind_eq_some_iff] at hf
    obtain ⟨_, -, _, -, hwrite⟩ := hf
    exact (Block.write_eq_some.mp hwrite).1
  simp only [fragmentSize] at hfit
  -- 1019 bytes fill the fragment to its end
  obtain ⟨fragment', hf', hfill⟩ := phyFragment_filled (show 100 ≤ buff.length by omega) (by omega)
  obtain rfl := Option.some.inj (hf.symm.trans hf')
  have hl : (Decimal.padded 4 buff.length).length = 4 :=
    Decimal.padded_length (by decide) (by omega)
  have hzeros : fragmentSize -
      (protocolHead :: (Decimal.padded 4 buff.length ++ buff)).length = 0 := by
    simp only [List.length_cons, List.length_append, hl, fragmentSize]
    omega
  have hbytes : fragment.bytes = _ := hfill
  rw [hzeros, List.replicate_zero, List.append_nil] at hbytes
  rw [strlen, hbytes, List.findIdx?_eq_some_iff_getElem] at hlen
  obtain ⟨hi, hzero, -⟩ := hlen
  exact frame_nulFree hnul _ (List.getElem_mem hi) (by simpa using hzero)

/-- `send_len` counts the whole frame of such a payload. -/
theorem phyFragment_sent {buff : List UInt8} (hlo : 100 ≤ buff.length) (hhi : buff.length ≤ 1018)
    (hnul : ∀ b ∈ buff, b ≠ 0) :
    ∃ fragment sendLen, phyFragment buff = some fragment ∧
      strlen fragment.bytes = some sendLen ∧
      fragment.bytes.take sendLen = protocolHead :: (Decimal.padded 4 buff.length ++ buff) := by
  have hl : (Decimal.padded 4 buff.length).length = 4 :=
    Decimal.padded_length (by decide) (by omega)
  obtain ⟨fragment, hf, hfill⟩ := phyFragment_filled hlo (by omega)
  have hmore : fragmentSize - (protocolHead :: (Decimal.padded 4 buff.length ++ buff)).length =
      (1018 - buff.length) + 1 := by
    simp only [List.length_cons, List.length_append, hl, fragmentSize]
    omega
  rw [Block.Filled, hmore, List.replicate_succ] at hfill
  exact ⟨fragment, _, hf, by rw [hfill, strlen_append (frame_nulFree hnul)],
    by rw [hfill, List.take_left]⟩

/-- Whoever it goes to, the fragment is sent up to its first NUL. -/
theorem sent_take {fd : HSocket} {buff : List UInt8} {clientmap : List SocketParams}
    {sends : List (HSocket × List UInt8)} {send : HSocket × List UInt8}
    (hsends : sendDataToTheThirdParty fd buff clientmap = some sends) (hmem : send ∈ sends) :
    ∃ fragment sendLen, phyFragment buff = some fragment ∧
      strlen fragment.bytes = some sendLen ∧ send.2 = fragment.bytes.take sendLen := by
  simp only [sendDataToTheThirdParty, Option.bind_eq_bind, Option.bind_eq_some_iff] at hsends
  obtain ⟨fragment, hf, sendLen, hlen, hsends⟩ := hsends
  refine ⟨fragment, sendLen, hf, hlen, ?_⟩
  split at hsends
  · cases hsends
    cases hmem
  · split at hsends
    · cases hsends
      obtain ⟨client, -, rfl⟩ := List.mem_map.mp hmem
      rfl
    · cases hsends
      rw [List.mem_singleton.mp hmem]

/-- The wire image of a payload of a hundred bytes or more is its frame. -/
theorem sent_eq {fd : HSocket} {buff : List UInt8} {clientmap : List SocketParams}
    {sends : List (HSocket × List UInt8)} {send : HSocket × List UInt8} (hlo : 100 ≤ buff.length)
    (hhi : buff.length ≤ 1018) (hnul : ∀ b ∈ buff, b ≠ 0)
    (hsends : sendDataToTheThirdParty fd buff clientmap = some sends) (hmem : send ∈ sends) :
    send.2 = protocolHead :: (Decimal.padded 4 buff.length ++ buff) := by
  obtain ⟨fragment, sendLen, hf, hlen, hsent⟩ := phyFragment_sent hlo hhi hnul
  obtain ⟨fragment', sendLen', hf', hlen', htake⟩ := sent_take hsends hmem
  obtain rfl := Option.some.inj (hf.symm.trans hf')
  obtain rfl := Option.some.inj (hlen.symm.trans hlen')
  exact htake.trans hsent

theorem sendDataToTheThirdParty_single {fd : HSocket} {buff : List UInt8}
    {clientmap : List SocketParams} (hfd : fd ≠ 0) (hvalid : fd ≠ invalidSocket)
    (hlo : 100 ≤ buff.length) (hhi : buff.length ≤ 1018) (hnul : ∀ b ∈ buff, b ≠ 0) :
    sendDataToTheThirdParty fd buff clientmap =
      some [(fd, protocolHead :: (Decimal.padded 4 buff.length ++ buff))] := by
  obtain ⟨fragment, sendLen, hf, hlen, hsent⟩ := phyFragment_sent hlo hhi hnul
  simp only [sendDataToTheThirdParty, hf, hlen, hsent, Option.bind_eq_bind, Option.bind_some,
    if_neg hfd, if_neg hvalid]
  rfl

end RTPVoice.MyProtocol
