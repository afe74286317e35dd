import SocketPractice.Lib.CArray
import SocketPractice.Lib.Decimal

/-!
# What the sorting programs print

Each of the `lc_` sorts ends with the same loop, which prints the elements in the order
in which they stand.
-/

namespace SocketPractice.SortAlgo

open Lib.While Lib.CArray Lib.Decimal

/-- `printf("%d ", x)`. -/
def printInt (x : Int) : List Char := intText x ++ [' ']

/-- `for (i = 0; i < cnt; i++) printf("%d ", a[i]); printf("\n");`. -/
def printArray (a : List Int) (cnt : Int) : Outcome (List Char) := do
  let out ← forRange 0 cnt (fun i out => do return out ++ printInt (← load a i)) []
  return out ++ ['\n']

def printed (a : List Int) : List Char := a.flatMap printInt ++ ['\n']

/-- All elements are printed, and nothing else is read. -/
theorem printArray_eq {a : List Int} {cnt : Int} (hcnt : a.length = cnt) :
    printArray a cnt = .ok (printed a) := by
  subst hcnt
  have hloop : Returns
      (forRange 0 a.length (fun i out => do return out ++ printInt (← load a i)) []) fun out =>
        0 ≤ (a.length : Int) ∧ out = (a.take (a.length : Int).toNat).flatMap printInt := by
    refine forRange_returns (fun i out => 0 ≤ i ∧ out = (a.take i.toNat).flatMap printInt)
      (Int.natCast_nonneg _) ⟨Int.le_refl 0, rfl⟩ ?_
    rintro i out - hlt ⟨hi, rfl⟩
    have hn : i.toNat < a.length := by omega
    have hnext : (i + 1).toNat = i.toNat + 1 := by omega
    have hval : val a i = a[i.toNat] := by
      rw [← val_natCast a hn, Int.toNat_of_nonneg hi]
    rw [load_eq ⟨hi, hlt⟩]
    refine returns_ok ⟨by omega, ?_⟩
    rw [hnext, List.take_succ_eq_append_getElem hn, List.flatMap_append, hval]
    simp
  obtain ⟨out, hout, -, rfl⟩ := hloop
  simp only [printArray, hout, Int.toNat_natCast, List.take_length]
  rfl

end SocketPractice.SortAlgo
