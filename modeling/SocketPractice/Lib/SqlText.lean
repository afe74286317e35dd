import SocketPractice.Lib.Decimal
import SocketPractice.Lib.Sql

/-!
# Rows as SQL text

A program that prints its values into the text of a statement relies on the engine to
read the same values out of it.  Here this is done for `INSERT`: `insertText` writes a
row as literals, `readInsert` is the reading of the engine, and a row of integers that
fit 64 bits comes back as it was.
-/

namespace Lib.Sql

open Lib.Decimal

/-! ## 1. Writing -/

def valueText : Value → List Char
  | none => ['N', 'U', 'L', 'L']
  | some n => intText n

/-- A blank before every literal but the first. -/
def spaced : List (List Char) → List (List Char)
  | [] => []
  | field :: fields => field :: fields.map (' ' :: ·)

/-- What stands before the literals. -/
def insertHead (table : String) : List Char :=
  "INSERT INTO ".toList ++ table.toList ++ " VALUES (".toList

/-- `INSERT INTO table VALUES (v, .., v);`. -/
def insertText (table : String) (row : Row) : List Char :=
  insertHead table ++ [','].intercalate (spaced (row.map valueText)) ++ [')', ';']

/-! ## 2. Reading -/

def isNumber (s : List Char) : Bool := !s.isEmpty && s.all Char.isDigit

/-- An integer literal of 64 bits. -/
def readInt (s : List Char) : Option Int :=
  let fits (n : Int) : Option Int := if -2 ^ 63 ≤ n ∧ n < 2 ^ 63 then some n else none
  match s with
  | '-' :: digits => if isNumber digits then fits (-leadingDigits digits) else none
  | digits => if isNumber digits then fits (leadingDigits digits) else none

def readValue (field : List Char) : Option Value :=
  let literal := field.dropWhile isSpace
  if literal = ['N', 'U', 'L', 'L'] then some none else (readInt literal).map some

def readValues : List (List Char) → Option Row
  | [] => some []
  | field :: fields => do return (← readValue field) :: (← readValues fields)

/-- The values of an `INSERT` into `table`. -/
def readInsert (table : String) (s : List Char) : Option Row :=
  if insertHead table <+: s ∧ [')', ';'] <:+ s then
    readValues (((s.drop (insertHead table).length).dropLast.dropLast).splitOn ',')
  else none

/-! ## 3. The round trip -/

theorem isNumber_toDigits (n : Nat) : isNumber (Nat.toDigits 10 n) = true := by
  have hdigits : (Nat.toDigits 10 n).all Char.isDigit = true := by
    rw [List.all_eq_true]
    intro c hc
    exact Nat.isDigit_of_mem_toDigits (by decide) (by decide) hc
  obtain ⟨c, cs, hcs, -⟩ := toDigits_eq_cons n
  rw [isNumber, hdigits, hcs]
  rfl

/-- The first character of a number. -/
theorem intText_eq_cons (n : Int) : ∃ c cs, intText n = c :: cs ∧ isSpace c = false ∧ c ≠ 'N' := by
  by_cases hneg : n < 0
  · exact ⟨'-', _, if_pos hneg, by decide, by decide⟩
  · obtain ⟨c, cs, hcs, hspace, -⟩ := toDigits_eq_cons n.natAbs
    refine ⟨c, cs, (if_neg hneg).trans hcs, hspace, ?_⟩
    rintro rfl
    have hdigit := isNumber_toDigits n.natAbs
    simp [hcs, isNumber] at hdigit

theorem readInt_intText {n : Int} (hlo : -2 ^ 63 ≤ n) (hhi : n < 2 ^ 63) :
    readInt (intText n) = some n := by
  by_cases hneg : n < 0
  · have habs : -(n.natAbs : Int) = n := by omega
    rw [intText, if_pos hneg]
    simp only [readInt, isNumber_toDigits, leadingDigits_toDigits, habs, if_true]
    exact if_pos ⟨hlo, hhi⟩
  · have habs : (n.natAbs : Int) = n := by omega
    obtain ⟨c, cs, hcs, -, hminus, -⟩ := toDigits_eq_cons n.natAbs
    have hnumber := isNumber_toDigits n.natAbs
    have hvalue := leadingDigits_toDigits n.natAbs
    rw [hcs] at hnumber hvalue
    rw [habs] at hvalue
    rw [intText, if_neg hneg, hcs]
    unfold readInt
    split
    · rename_i heq
      exact absurd (List.cons.inj heq).1 hminus
    · rw [if_pos hnumber, hvalue]
      exact if_pos ⟨hlo, hhi⟩

/-- The integer, if there is one, fits 64 bits. -/
def Fits (v : Value) : Prop := ∀ n, v = some n → -2 ^ 63 ≤ n ∧ n < 2 ^ 63

theorem dropWhile_valueText (v : Value) : (valueText v).dropWhile isSpace = valueText v := by
  rcases v with _ | n
  · rfl
  · obtain ⟨c, cs, hcs, hspace, -⟩ := intText_eq_cons n
    simp [valueText, hcs, hspace]

theorem readValue_valueText {v : Value} (h : Fits v) : readValue (valueText v) = some v := by
  simp only [readValue, dropWhile_valueText]
  rcases v with _ | n
  · rfl
  · obtain ⟨hlo, hhi⟩ := h n rfl
    obtain ⟨c, cs, hcs, -, hN⟩ := intText_eq_cons n
    have hne : intText n ≠ ['N', 'U', 'L', 'L'] := by
      rw [hcs]
      intro heq
      exact hN (List.cons.inj heq).1
    simp [valueText, hne, readInt_intText hlo hhi]

/-- A blank in front does not matter. -/
theorem readValue_space (field : List Char) : readValue (' ' :: field) = readValue field := rfl

theorem readValues_spaced {row : Row} (h : ∀ v ∈ row, Fits v) :
    readValues (spaced (row.map valueText)) = some row := by
  have htail : ∀ vs : Row, (∀ v ∈ vs, Fits v) →
      readValues ((vs.map valueText).map (' ' :: ·)) = some vs := by
    intro vs hvs
    induction vs with
    | nil => rfl
    | cons v vs ih =>
        have hrest := ih fun w hw => hvs w (List.mem_cons_of_mem v hw)
        have hv := readValue_valueText (hvs v List.mem_cons_self)
        simp only [List.map_cons, readValues, readValue_space, hv, hrest]
        rfl
  rcases row with _ | ⟨v, vs⟩
  · rfl
  · have hrest := htail vs fun w hw => h w (List.mem_cons_of_mem v hw)
    have hv := readValue_valueText (h v List.mem_cons_self)
    simp only [List.map_cons, spaced, readValues, hv, hrest]
    rfl

theorem comma_notMem_valueText (v : Value) : ',' ∉ valueText v := by
  rcases v with _ | n
  · decide
  · have hdigits : ',' ∉ Nat.toDigits 10 n.natAbs := by
      intro hmem
      have hdigit := Nat.isDigit_of_mem_toDigits (b := 10) (by decide) (by decide) hmem
      exact absurd hdigit (by decide)
    by_cases hneg : n < 0
    · simp [valueText, intText, hneg, hdigits]
    · simp [valueText, intText, hneg, hdigits]

theorem comma_notMem_spaced (row : Row) : ∀ f ∈ spaced (row.map valueText), ',' ∉ f := by
  rcases row with _ | ⟨v, vs⟩
  · simp [spaced]
  · intro f hf
    rcases List.mem_cons.mp hf with rfl | hf
    · exact comma_notMem_valueText v
    · obtain ⟨g, hg, rfl⟩ := List.mem_map.mp hf
      obtain ⟨w, -, rfl⟩ := List.mem_map.mp hg
      simp [comma_notMem_valueText w]

theorem readInsert_insertText {table : String} {row : Row} (hrow : row ≠ [])
    (h : ∀ v ∈ row, Fits v) : readInsert table (insertText table row) = some row := by
  have hne : spaced (row.map valueText) ≠ [] := by
    rcases row with _ | ⟨v, vs⟩
    · exact absurd rfl hrow
    · exact List.cons_ne_nil _ _
  have hhead : insertHead table <+: insertText table row := by
    rw [insertText, List.append_assoc]
    exact List.prefix_append ..
  have htail : [')', ';'] <:+ insertText table row := List.suffix_append ..
  have hbody : ((insertText table row).drop (insertHead table).length).dropLast.dropLast =
      [','].intercalate (spaced (row.map valueText)) := by
    rw [insertText, List.append_assoc, List.drop_left]
    simp
  rw [readInsert, if_pos ⟨hhead, htail⟩, hbody,
    List.splitOn_intercalate ',' (comma_notMem_spaced row) hne, readValues_spaced h]

end Lib.Sql
