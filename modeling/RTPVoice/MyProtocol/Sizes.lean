import RTPVoice.ClientObj.Admission
import RTPVoice.ClientObj.Delivery
import RTPVoice.MyProtocol.SendData

namespace RTPVoice.MyProtocol

open Framework Framework.Framing ClientObj FifoQueue

/-- A document of a size that `SendDataToTheThirdParty` puts whole into its fragment. -/
structure Sendable (s : List UInt8) : Prop where
  lo : 100 ≤ s.length
  hi : s.length ≤ 1018
  nul : ∀ b ∈ s, b ≠ 0
  brace : s.getLast? = some 0x7D

/-- Queued on `q` and taken from it, the payload is at the front of what `Reader::parse` gets. -/
def ReachesParser (q : FifoQueue) (clientfd : HSocket) (payload : List UInt8) : Prop :=
  ∃ packet q₁ slot q₂, pushRecvBuffToQueue clientfd payload = some (0, some packet) ∧
    q.pushToQueue packet = some (true, q₁) ∧ q₁.takeFromQueue = some (0, slot, q₂) ∧
    payload <+: jsonData slot

variable {s : List UInt8} {chunks : List (List UInt8)} {clientfd : HSocket} {q : FifoQueue}

theorem Sendable.fits (h : Sendable s) : Fits s :=
  ⟨le_trans (by decide) h.lo, h.hi.trans (by decide)⟩

/-- The frame of one document is handed on in one piece, however it comes. -/
theorem sendable_handed_on (clientfd : HSocket) (h : Sendable s) (hwhole : chunks.flatten = frame s)
    (hsizes : ∀ c ∈ chunks, 1 ≤ c.length ∧ c.length ≤ 512)
    (hheader : ∀ k, ¬ (0 < offset chunks k ∧ offset chunks k < 5)) :
    ∃ outs, HandsOver clientfd [s] chunks outs := by
  have hcut : Cutting [s] chunks :=
    ⟨by simpa using h.fits, by simpa using hwhole, hsizes⟩
  have hnocut : ∀ j < [s].length, ¬ HeaderCut [s] chunks j := by
    intro j hj hc
    obtain rfl : j = 0 := by simpa using hj
    obtain ⟨k, hlo, hhi⟩ := hc
    exact hheader k ⟨by simpa using hlo, by simpa using hhi⟩
  apply (hands_over_iff clientfd hcut hnocut).mpr
  intro j p hp
  have hj : j < [s].length := (List.getElem?_eq_some_iff.mp hp).1
  obtain rfl : p = s := by simpa using List.mem_of_getElem? hp
  exact ⟨fun hc => absurd hc (hnocut j hj), fun _ _ => .inr h.brace⟩

/-- A payload that leaves room for the handle in its slot comes through an empty queue. -/
theorem reachesParser_of_fits (hq : Slotted q) (hempty : q.mList = [])
    (hfd : clientfd ≠ invalidSocket) (hlen : s.length ≤ 508) : ReachesParser q clientfd s := by
  obtain ⟨packet, q₁, slot, hrecv, -, hpush, -, -, htake, rest, hslot⟩ :=
    admitted_of_fits hq hfd hlen
  obtain ⟨-, -, hsem⟩ := pushToQueue_spec hpush
  rw [hempty] at htake
  obtain ⟨⟨data, q₂⟩, hpop, he⟩ := Option.map_eq_some_iff.mp htake
  obtain rfl : data = slot := he
  have hpermit : q₁.queuesem ≠ 0 := by
    rw [hsem, maxPermits]
    omega
  refine ⟨packet, q₁, data, _, hrecv, hpush, takeFromQueue_pop hpermit hpop, ?_⟩
  rw [← hslot, pushRecvBuffToQueue_eq hrecv, List.append_assoc]
  exact prefix_jsonData clientfd rest (by omega)

/-- What is longer than 512 bytes is turned away. -/
theorem pushRecvBuffToQueue_long (clientfd : HSocket) (h : 512 < s.length) :
    pushRecvBuffToQueue clientfd s = some (-1, none) := by
  rw [pushRecvBuffToQueue, if_pos (.inl h)]

/-- Every document sent is handed to `PushRecvBuffToQueue` whole. Up to 508 bytes of it reach the
parser; the receiver takes none of more than 512 bytes. -/
theorem document_sizes (clientfd peer : HSocket) (clientmap : List SocketParams) (s : List UInt8)
    (sends : List (HSocket × List UInt8)) (send : HSocket × List UInt8)
    (chunks : List (List UInt8)) (q : FifoQueue) (hs : Sendable s)
    (hsends : sendDataToTheThirdParty peer s clientmap = some sends) (hmem : send ∈ sends)
    (hwhole : chunks.flatten = send.2) (hsizes : ∀ c ∈ chunks, 1 ≤ c.length ∧ c.length ≤ 512)
    (hheader : ∀ k, ¬ (0 < offset chunks k ∧ offset chunks k < 5))
    (hq : Slotted q) (hempty : q.mList = []) (hfd : clientfd ≠ invalidSocket) :
    (∃ outs, HandsOver clientfd [s] chunks outs) ∧
      (s.length ≤ 508 → ReachesParser q clientfd s) ∧
      (512 < s.length → pushRecvBuffToQueue clientfd s = some (-1, none)) := by
  rw [sent_eq hs.lo hs.hi hs.nul hsends hmem] at hwhole
  exact ⟨sendable_handed_on clientfd hs hwhole hsizes hheader,
    fun hlen => reachesParser_of_fits hq hempty hfd hlen,
    fun hlen => pushRecvBuffToQueue_long clientfd hlen⟩

theorem sendable_replicate {n : Nat} (hlo : 99 ≤ n) (hhi : n ≤ 1017) :
    Sendable (List.replicate n 0x61 ++ [0x7D]) := by
  refine ⟨?_, ?_, ?_, List.getLast?_concat⟩
  · rw [List.length_append, List.length_replicate, List.length_singleton]
    omega
  · rw [List.length_append, List.length_replicate, List.length_singleton]
    omega
  · intro b hb
    cases List.mem_append.mp hb with
    | inl hb =>
      rw [(List.mem_replicate.mp hb).2]
      decide
    | inr hb =>
      rw [List.mem_singleton.mp hb]
      decide

/-- A document of 600 bytes, in two chunks: it is handed on and refused. -/
theorem long_document_refused : ∃ s chunks, s = List.replicate 599 0x61 ++ [0x7D] ∧ Sendable s ∧
    sendDataToTheThirdParty 7 s [] = some [(7, chunks.flatten)] ∧
    (∀ c ∈ chunks, 1 ≤ c.length ∧ c.length ≤ 512) ∧
    (∀ k, ¬ (0 < offset chunks k ∧ offset chunks k < 5)) ∧
    ∀ q, ¬ ReachesParser q 9 s := by
  have hs := sendable_replicate (n := 599) (by decide) (by decide)
  have hlen : (List.replicate 599 (0x61 : UInt8) ++ [0x7D]).length = 600 := by
    rw [List.length_append, List.length_replicate, List.length_singleton]
  refine ⟨_, [(frame (List.replicate 599 0x61 ++ [0x7D])).take 512,
    (frame (List.replicate 599 0x61 ++ [0x7D])).drop 512], rfl, hs, ?_⟩
  generalize List.replicate 599 (0x61 : UInt8) ++ [0x7D] = s at hs hlen ⊢
  have hframe : (frame s).length = 605 := by rw [frame_length hs.fits.le, hlen]
  refine ⟨?_, by simp [hframe], ?_, ?_⟩
  · rw [sendDataToTheThirdParty_single (by decide) (by decide) hs.lo hs.hi hs.nul]
    simp [frame]
  · intro k hk
    rcases k with _ | _ | k <;> simp [offset, hframe] at hk
  · intro q hreaches
    obtain ⟨packet, q₁, slot, q₂, hrecv, -⟩ := hreaches
    rw [pushRecvBuffToQueue_long 9 (by omega)] at hrecv
    cases hrecv

/-- The longest document that reaches the parser, in three chunks. -/
theorem document_sizes_three : ∃ s chunks, s = List.replicate 507 0x61 ++ [0x7D] ∧
    chunks = [(frame s).take 105, ((frame s).drop 105).take 200, (frame s).drop 305] ∧
    (∃ outs, HandsOver 9 [s] chunks outs) ∧ ReachesParser .fresh 9 s := by
  have hs := sendable_replicate (n := 507) (by decide) (by decide)
  have hlen : (List.replicate 507 (0x61 : UInt8) ++ [0x7D]).length = 508 := by
    rw [List.length_append, List.length_replicate, List.length_singleton]
  refine ⟨_, _, rfl, rfl, ?_⟩
  generalize List.replicate 507 (0x61 : UInt8) ++ [0x7D] = s at hs hlen ⊢
  have hframe : (frame s).length = 513 := by rw [frame_length hs.fits.le, hlen]
  have hwhole : [(frame s).take 105, ((frame s).drop 105).take 200,
      (frame s).drop 305].flatten = frame s := by
    have hdrop : (frame s).drop 305 = ((frame s).drop 105).drop 200 := by rw [List.drop_drop]
    simp only [List.flatten_cons, List.flatten_nil, List.append_nil]
    rw [hdrop, List.take_append_drop, List.take_append_drop]
  obtain ⟨hover, hreaches, -⟩ := document_sizes 9 7 [] s _ _ _ .fresh hs
    (sendDataToTheThirdParty_single (by decide) (by decide) hs.lo hs.hi hs.nul)
    List.mem_cons_self hwhole (by simp [hframe])
    (by
      intro k hk
      rcases k with _ | _ | _ | k <;> simp [offset, hframe] at hk)
    slotted_fresh rfl (by decide)
  exact ⟨hover, hreaches (by omega)⟩

end RTPVoice.MyProtocol
