import Mathlib.Data.List.Perm.Basic

/-!
# Datagrams on a wire

A network that gives no guarantee carries datagrams one by one: whichever is on the wire may
arrive next, may get lost, or may be doubled.  What arrives has been on the wire, whatever
happens to the others; and as long as nothing is doubled the wire with what has left it is
what was put there.
-/

namespace Lib.Network

variable {β : Type}

/-- The `k`-th datagram arrives; it is no longer on the wire then. -/
def arrive (wire : List β) (k : Nat) : Option (β × List β) :=
  wire[k]?.map fun b => (b, wire.eraseIdx k)

inductive Disturbance where
  | lose (k : Nat)
  | double (k : Nat)

def disturb (wire : List β) : Disturbance → Option (List β)
  | .lose k => (arrive wire k).map Prod.snd
  | .double k => wire[k]?.map fun b => wire ++ [b]

theorem perm_of_arrive {wire rest : List β} {k : Nat} {b : β}
    (h : arrive wire k = some (b, rest)) : wire.Perm (b :: rest) := by
  obtain ⟨c, hc, heq⟩ := Option.map_eq_some_iff.mp h
  obtain ⟨hk, rfl⟩ := List.getElem?_eq_some_iff.mp hc
  obtain ⟨rfl, rfl⟩ := Prod.mk.inj heq
  exact (List.getElem_cons_eraseIdx_perm hk).symm

theorem mem_of_arrive {wire rest : List β} {k : Nat} {b : β}
    (h : arrive wire k = some (b, rest)) : b ∈ wire ∧ ∀ c ∈ rest, c ∈ wire := by
  have hperm := perm_of_arrive h
  constructor
  · exact hperm.mem_iff.mpr List.mem_cons_self
  · intro c hc
    exact hperm.mem_iff.mpr (List.mem_cons_of_mem b hc)

/-- Nothing comes onto the wire that was not there. -/
theorem mem_of_disturb {wire wire' : List β} {d : Disturbance}
    (h : disturb wire d = some wire') : ∀ c ∈ wire', c ∈ wire := by
  cases d with
  | lose k =>
      obtain ⟨⟨b, rest⟩, harrive, rfl⟩ := Option.map_eq_some_iff.mp h
      exact (mem_of_arrive harrive).2
  | double k =>
      obtain ⟨b, hb, rfl⟩ := Option.map_eq_some_iff.mp h
      intro c hc
      rcases List.mem_append.mp hc with hc | hc
      · exact hc
      · rw [List.mem_singleton.mp hc]
        exact List.mem_of_getElem? hb

end Lib.Network
