import Mathlib.Data.Nat.ModEq

/-!
# Positions in a ring

In a ring of `cnt` slots of which one stays unused, the occupied ones are the
`len < cnt` slots from `front` on.  `rear`, the slot behind the last of them, is
`front` exactly when there are none, and is one before it exactly when the ring
is full.
-/

namespace Lib.Ring

/-- The slot `k` places behind `front`. -/
def slot (cnt front k : Nat) : Nat := (front + k) % cnt

variable {cnt front j k len : Nat}

theorem slot_lt (hfront : front < cnt) : slot cnt front k < cnt :=
  Nat.mod_lt _ (by omega)

@[simp] theorem slot_zero (hfront : front < cnt) : slot cnt front 0 = front :=
  Nat.mod_eq_of_lt hfront

theorem slot_succ : slot cnt front (k + 1) = (slot cnt front k + 1) % cnt := by
  rw [slot, slot, Nat.mod_add_mod, Nat.add_assoc]

/-- Seen from the next front every slot is one place nearer. -/
theorem slot_next : slot cnt (slot cnt front 1) k = slot cnt front (k + 1) := by
  rw [slot, slot, slot, Nat.mod_add_mod, Nat.add_assoc, Nat.add_comm 1 k]

theorem slot_injective (hj : j < cnt) (hk : k < cnt)
    (h : slot cnt front j = slot cnt front k) : j = k := by
  have hmod : front + j ≡ front + k [MOD cnt] := h
  exact (Nat.ModEq.add_left_cancel' front hmod).eq_of_lt_of_lt hj hk

theorem slot_eq_front_iff (hfront : front < cnt) (hlen : len < cnt) :
    slot cnt front len = front ↔ len = 0 := by
  constructor
  · intro h
    have hzero : slot cnt front len = slot cnt front 0 := by rw [h, slot_zero hfront]
    exact slot_injective hlen (by omega) hzero
  · rintro rfl
    exact slot_zero hfront

theorem slot_succ_eq_front_iff (hfront : front < cnt) (hlen : len < cnt) :
    slot cnt front (len + 1) = front ↔ len + 1 = cnt := by
  rcases Nat.lt_or_ge (len + 1) cnt with hlt | hge
  · rw [slot_eq_front_iff hfront hlt]
    omega
  · obtain rfl : len + 1 = cnt := by omega
    rw [slot, Nat.add_mod_right, Nat.mod_eq_of_lt hfront]
    exact iff_of_true rfl rfl

end Lib.Ring
