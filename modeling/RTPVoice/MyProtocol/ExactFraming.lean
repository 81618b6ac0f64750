import RTPVoice.MyProtocol.SendData

namespace RTPVoice.MyProtocol

open Framework

variable {fd : HSocket} {buff : List UInt8} {clientmap : List SocketParams}

theorem strlen_le {s : List UInt8} {n i : Nat} (h : strlen s = some n) (hi : s[i]? = some 0) :
    n ≤ i := by
  obtain ⟨hn, -, hbefore⟩ := List.findIdx?_eq_some_iff_getElem.mp h
  obtain ⟨hlt, hzero⟩ := List.getElem?_eq_some_iff.mp hi
  by_contra hgt
  exact hbefore i (by omega) (by simp [hzero])

/-- A size of one or two digits brings its terminator into the length field. -/
theorem payloadLen_nul {size : Nat} (h : size < 100) : ∃ i < 4, (payloadLen size)[i]? = some 0 := by
  have hne := List.length_pos_iff.mpr (Decimal.text_ne_nil size)
  have hle : (Decimal.text size).length ≤ 2 := (Decimal.length_text_le (by decide)).mpr h
  refine ⟨(Decimal.text size).length + 1, by omega, ?_⟩
  rw [payloadLen, if_pos (by omega), List.getElem?_cons_succ,
    List.getElem?_take_of_lt (by simp only [protocolPackageLengthSize]; omega),
    List.getElem?_append_right le_rfl, Nat.sub_self]
  rfl

/-- What is copied in behind the length field leaves it alone. -/
theorem phyFragment_field {fragment : Block fragmentSize} (h : phyFragment buff = some fragment)
    {i : Nat} {b : UInt8} (hi : (payloadLen buff.length)[i]? = some b) (h4 : i < 4) :
    fragment.bytes[i + 1]? = some b := by
  simp only [phyFragment, Option.bind_eq_bind, Option.bind_eq_some_iff] at h
  obtain ⟨b₁, -, b₂, h₂, h₃⟩ := h
  obtain ⟨hlt, -⟩ := List.getElem?_eq_some_iff.mp hi
  rw [Block.write_getElem? h₃, if_neg (by omega), Block.write_getElem? h₂, if_pos (by omega),
    Nat.add_sub_cancel]
  exact hi

/-- Of a payload whose size has one or two digits at most the head and the field are sent. -/
theorem sent_short {sends : List (HSocket × List UInt8)} {send : HSocket × List UInt8}
    (h : buff.length < 100) (hsends : sendDataToTheThirdParty fd buff clientmap = some sends)
    (hmem : send ∈ sends) : send.2.length ≤ 4 := by
  obtain ⟨fragment, sendLen, hf, hlen, htake⟩ := sent_take hsends hmem
  obtain ⟨i, hi, hzero⟩ := payloadLen_nul h
  have hle := strlen_le hlen (phyFragment_field hf hzero hi)
  rw [htake, List.length_take]
  omega

/-- Exactly the head, the size in four digits and the payload go to a single socket when the size
has three digits or more. -/
theorem framing_exact_iff (fd : HSocket) (buff : List UInt8) (clientmap : List SocketParams)
    (hfd : fd ≠ 0) (hvalid : fd ≠ invalidSocket) (hnul : ∀ b ∈ buff, b ≠ 0)
    (hlen : buff.length ≤ 1018) :
    sendDataToTheThirdParty fd buff clientmap =
      some [(fd, protocolHead :: (Decimal.padded 4 buff.length ++ buff))] ↔
    100 ≤ buff.length := by
  constructor
  · intro h
    by_contra hlo
    have hle := sent_short (by omega) h (List.mem_singleton_self _)
    have hl : (Decimal.padded 4 buff.length).length = 4 :=
      Decimal.padded_length (by decide) (by omega)
    rw [List.length_cons, List.length_append, hl] at hle
    omega
  · exact fun hlo => sendDataToTheThirdParty_single hfd hvalid hlo hlen hnul

/-- The longest payload. -/
theorem framing_exact_iff_longest : sendDataToTheThirdParty 7 (List.replicate 1018 0x61) [] =
    some [(7, protocolHead :: (Decimal.padded 4 1018 ++ List.replicate 1018 0x61))] := by
  have hlen : (List.replicate 1018 (0x61 : UInt8)).length = 1018 := List.length_replicate
  have h := (framing_exact_iff 7 (List.replicate 1018 0x61) [] (by decide) (by decide)
    (fun b hb => by rw [List.eq_of_mem_replicate hb]; decide) hlen.le).mpr (by rw [hlen]; decide)
  rwa [hlen] at h

/-- Of two bytes of payload nothing is sent: the length field ends the text. -/
theorem two_bytes_cut : sendDataToTheThirdParty 7 [0x7B, 0x7D] [] = some [(7, [0x01, 0x30, 0x32])] ∧
    sendDataToTheThirdParty 7 [0x7B, 0x7D] [] ≠
      some [(7, protocolHead :: (Decimal.padded 4 2 ++ [0x7B, 0x7D]))] := by
  constructor <;> decide +kernel

end RTPVoice.MyProtocol
