import RTPVoice.ClientObj.Bookkeeping
import RTPVoice.Framework.Framing
import Mathlib.Data.List.Forall2

namespace RTPVoice.ClientObj

open Framework Framework.Loop Framework.Framing

/-- The wire format: a head byte, the payload length as four decimal digits, the payload. -/
def frame (p : List UInt8) : List UInt8 := protocolHead :: (Decimal.padded 4 p.length ++ p)

/-- A payload of at most `limit` bytes whose last byte is `}`. -/
structure Conforming (limit : Nat) (p : List UInt8) : Prop where
  pos : 1 ≤ p.length
  le : p.length ≤ limit
  brace : p.getLast? = some 0x7D

instance (limit : Nat) (p : List UInt8) : Decidable (Conforming limit p) :=
  decidable_of_iff (1 ≤ p.length ∧ p.length ≤ limit ∧ p.getLast? = some 0x7D)
    ⟨fun ⟨hpos, hle, hbrace⟩ => ⟨hpos, hle, hbrace⟩, fun h => ⟨h.pos, h.le, h.brace⟩⟩

/-- The call hands on exactly the bytes `p`. -/
def Call.Carries (clientfd : HSocket) (c : Call) (p : List UInt8) : Prop :=
  ∃ buff, c = .pushRecvBuffToQueue clientfd buff p.length ∧ p <+: buff

def Call.isPush : Call → Bool
  | .pushRecvBuffToQueue .. => true
  | _ => false

/-- The calls of `PushRecvBuffToQueue` are one for each of the payloads `ps`, in order. -/
def Delivered (clientfd : HSocket) (calls : List Call) (ps : List (List UInt8)) : Prop :=
  List.Forall₂ (Call.Carries clientfd) (calls.filter Call.isPush) ps

variable {clientfd : HSocket} {p : List UInt8}

theorem frame_length (h : p.length ≤ 9999) : (frame p).length = p.length + 5 := by
  rw [frame, List.length_cons, List.length_append, Decimal.padded_length (by decide) (by omega)]
  omega

theorem frame_head (p : List UInt8) : (frame p).head? = some protocolHead := rfl

theorem lenField_frame (h : p.length ≤ 9999) : lenField (frame p) = Decimal.padded 4 p.length :=
  List.take_left' (Decimal.padded_length (by decide) (by omega))

theorem frame_payload (h : p.length ≤ 9999) : (frame p).drop 5 = p := by
  have hl := Decimal.padded_length (w := 4) (n := p.length) (by decide) (by omega)
  rw [frame, List.drop_succ_cons]
  exact List.drop_left' hl

theorem frame_last (h : p.length ≤ 9999) (hpos : 1 ≤ p.length) :
    (frame p)[p.length + 4]? = p.getLast? := by
  have hd : (frame p)[p.length + 4]? = ((frame p).drop 5)[p.length - 1]? := by
    rw [List.getElem?_drop]
    congr 1
    omega
  rw [hd, frame_payload h, List.getLast?_eq_getElem?]

/-- Five or more bytes of the stream show the header of its first frame. -/
theorem header_of_prefix_frame {v rest : List UInt8} (hv : v <+: frame p ++ rest)
    (h : p.length ≤ 9999)
    (h5 : 5 ≤ v.length) : v.head? = some protocolHead ∧
      ∀ o : StickDismantleOptions, declared o v = p.length := by
  have hl := frame_length h
  have htake : v.take 5 = (frame p).take 5 := by
    have hm : v.take 5 <+: (frame p).take 5 := by
      have ht : (frame p ++ rest).take 5 = (frame p).take 5 :=
        List.take_append_of_le_length (by omega)
      exact ht ▸ hv.take 5
    exact hm.eq_of_length (by simp only [List.length_take]; omega)
  constructor
  · have := congrArg List.head? htake
    simpa [List.head?_take, frame_head] using this
  · intro o
    have hf : lenField v = lenField (frame p) := by
      have hd := congrArg (List.drop 1) htake
      simpa only [lenField, List.drop_take] using hd
    rw [declared, hf, lenField_frame h, Decimal.scan_padded]
    rfl

theorem head_of_prefix_frame {v rest : List UInt8} (hv : v <+: frame p ++ rest) (hne : v ≠ []) :
    v.head? = some protocolHead := by
  obtain ⟨b, t, rfl⟩ := List.exists_cons_of_ne_nil hne
  obtain ⟨u, hu⟩ := hv
  simp only [frame, List.cons_append, List.cons.injEq] at hu
  simp [hu.1]

/-! ### Delivered payloads -/

theorem delivered_nil : Delivered clientfd [] [] := .nil

theorem Delivered.append {cs ds : List Call} {ps qs : List (List UInt8)}
    (h : Delivered clientfd cs ps) (h' : Delivered clientfd ds qs) :
    Delivered clientfd (cs ++ ds) (ps ++ qs) := by
  rw [Delivered, List.filter_append]
  exact List.rel_append h h'

theorem delivered_sscanf (f : List UInt8) : Delivered clientfd [.sscanf f] [] := .nil

/-- Pushing from a buffer that begins with a whole frame hands on its payload. -/
theorem push_carries (clientfd : HSocket) {o : StickDismantleOptions} {w : List UInt8}
    (hw : o.data.Holds w) (hp : frame p <+: w) (h : p.length ≤ 9999) (hl : o.proLength = p.length) :
    (o.push clientfd).Carries clientfd p := by
  refine ⟨o.data.bytes.drop 5, by rw [StickDismantleOptions.push, hl], ?_⟩
  have hd := (List.IsPrefix.trans hp hw).drop 5
  rwa [frame_payload h] at hd

theorem delivered_push {o : StickDismantleOptions} (h : (o.push clientfd).Carries clientfd p) :
    Delivered clientfd [o.push clientfd] [p] := .cons h .nil

theorem Delivered.sound {calls : List Call} {ps : List (List UInt8)}
    (h : Delivered clientfd calls ps) : Sound calls := by
  intro fd buff len hm
  have hf : Call.pushRecvBuffToQueue fd buff len ∈ calls.filter Call.isPush :=
    List.mem_filter.mpr ⟨hm, rfl⟩
  unfold Delivered at h
  generalize calls.filter Call.isPush = pushes at h hf
  induction h with
  | nil => simp at hf
  | @cons c q cs qs hc _ ih =>
    rcases List.mem_cons.mp hf with rfl | hf
    · obtain ⟨_, he, -⟩ := hc
      cases he
      omega
    · exact ih hf

/-- What was handed on stands for the frames of the payloads. -/
theorem Delivered.cost {calls : List Call} {ps : List (List UInt8)}
    (h : Delivered clientfd calls ps) (hps : ∀ p ∈ ps, p.length ≤ 9999) :
    cost calls = (stream frame ps).length := by
  induction calls generalizing ps with
  | nil =>
    cases h
    rfl
  | cons c cs ih =>
    by_cases hc : c.isPush
    · rw [Delivered, List.filter_cons_of_pos hc] at h
      cases h with
      | @cons _ p _ qs hp ht =>
        obtain ⟨buff, rfl, -⟩ := hp
        rw [cost_cons, ih ht (fun q hq => hps q (by simp [hq])), stream_cons, List.length_append,
          frame_length (hps p (by simp)), Call.cost]
        omega
    · rw [Delivered, List.filter_cons_of_neg hc] at h
      have hz : c.cost = 0 := by
        cases c with
        | pushRecvBuffToQueue => simp [Call.isPush] at hc
        | _ => rfl
      rw [cost_cons, ih h hps, hz, zero_add]

end RTPVoice.ClientObj
