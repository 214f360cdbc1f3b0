import Switchboard.Proofs.Text.Hex
import Switchboard.Session.View

/-!
# The ids of attachments

An id is the number of the attachment in hexadecimal digits, filled up with zeros. Reading it back
gives the number (`number?_resizeId`), so two attachments with different numbers never share an id.
-/

namespace Switchboard

namespace View

/-- An id reads as the number it was made from. -/
theorem number?_resizeId (n : Nat) : Hex.number? 16 (resizeId n).toList = some n := by
  unfold resizeId
  rw [String.toList_ofList]
  exact Hex.number?_zeros_toDigits (by decide) (by decide) _ n

/-- No two numbers share an id. -/
theorem resizeId_inj {m n : Nat} (h : resizeId m = resizeId n) : m = n := by
  have hm := number?_resizeId m
  rw [h, number?_resizeId n] at hm
  exact (Option.some.inj hm).symm

end View

end Switchboard
