import RTPVoice.Framework.Block

namespace RTPVoice.SocketWrap

open Framework

/-- `transresult_t`. -/
structure TransResult where
  nbytes : Int
  nresult : Int
  deriving DecidableEq

/-- What `send` or `recv` of the system comes back with: what it transferred, or an error of which
`ETRYAGAIN` may hold. -/
inductive Transfer (α : Type) where
  | done (a : α)
  | error (tryAgain : Bool)
  deriving DecidableEq

/-- `SocketSend` of `nbytes` bytes; `sent` is a number of bytes. -/
def socketSend (nbytes : Int) (sent : Transfer Nat) : TransResult :=
  if nbytes < 1 then ⟨0, 0⟩
  else
    match sent with
    | .done 0 => ⟨0, -1⟩
    | .done (n + 1) => ⟨n + 1, if (n + 1 : Int) = nbytes then 0 else 1⟩
    | .error tryAgain => ⟨-1, if tryAgain then 1 else -1⟩

/-- `SocketRecv` of at most `nbytes` bytes to the front of `buff`. -/
def socketRecv {n : Nat} (buff : Block n) (nbytes : Int) (received : Transfer (List UInt8)) :
    Option (Block n × TransResult) :=
  if nbytes < 1 then some (buff, ⟨0, 0⟩)
  else
    match received with
    | .done [] => some (buff, ⟨0, -1⟩)
    | .done (b :: bs) => (buff.write 0 (b :: bs)).map fun buff => (buff, ⟨bs.length + 1, 0⟩)
    | .error tryAgain => some (buff, ⟨-1, if tryAgain then 1 else -1⟩)

/-- What was received is at the front of the buffer. -/
theorem socketRecv_done {n : Nat} (buff : Block n) (nbytes : Int) (hn : 1 ≤ nbytes)
    {c : List UInt8} (hc : c ≠ []) (hle : c.length ≤ n) :
    ∃ buff', socketRecv buff nbytes (.done c) = some (buff', ⟨c.length, 0⟩) ∧ buff'.Holds c := by
  obtain ⟨b, bs, rfl⟩ := List.exists_cons_of_ne_nil hc
  obtain ⟨buff', hw, hh⟩ := (Block.holds_nil buff).write (b :: bs) (by simpa using hle)
  refine ⟨buff', ?_, hh⟩
  rw [List.length_nil] at hw
  simp [socketRecv, show ¬ nbytes < 1 by omega, hw]

end RTPVoice.SocketWrap
