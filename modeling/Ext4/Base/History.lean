import Ext4.Base.Disk

section
variable {ρ V : Type} (ev : ρ → Nat → Option (Option V))

namespace History

def settled (h : List ρ) (b : Nat) : Option V := h.foldl (fun acc r => (ev r b).getD acc) none

def Untouched (h : List ρ) (i j b : Nat) : Prop :=
  ∀ l r, i ≤ l → l < j → h[l]? = some r → ev r b = none

end History
end
