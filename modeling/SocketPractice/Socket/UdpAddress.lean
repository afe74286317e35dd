import SocketPractice.Lib.SqlText
import SocketPractice.Socket.CliSqlite

/-!
# A UDP address on its way through the database

An address is printed with `%u` into the text of the `INSERT`, read there by the
database, kept as an integer (the declared types of the columns all contain `INT`,
which gives them integer affinity), handed to the lookup's callback as decimal text, and
read back by `atoi`.  For the upper half of the addresses the `int` that `atoi` returns
is negative, and the cast to `uint32_t` makes it the address again.
-/

namespace SocketPractice.Socket

open Lib.Sql Lib.Decimal

/-! ## 1. The text of the statement -/

/-- `sprintf(sql_cmd, "INSERT INTO CliInfo VALUES (%d, NULL, %u, %u);", ..)`. -/
def insertUdpText (endid : EndId) (ipaddr : UInt32) (port : UInt16) : List Char :=
  "INSERT INTO CliInfo VALUES (".toList ++ intText endid.toInt ++ ", NULL, ".toList ++
    intText ipaddr.toNat ++ ", ".toList ++ intText port.toNat ++ ");".toList

/-- The bytes of the array `sql_cmd`, in which a terminator follows the text. -/
def SQL_CMD_SIZE : Nat := 256

def udpRow (endid : EndId) (ipaddr : UInt32) (port : UInt16) : Row :=
  [some endid.toInt, none, some ipaddr.toNat, some port.toNat]

theorem insertHead_cliInfo :
    insertHead "CliInfo" = "INSERT INTO CliInfo VALUES (".toList := by
  decide +kernel

theorem length_insertHead_cliInfo : (insertHead "CliInfo").length = 28 := by
  decide +kernel

section Text

variable (e : EndId) (ipaddr : UInt32) (port : UInt16)

theorem insertUdpText_eq : insertUdpText e ipaddr port =
    insertText "CliInfo" (udpRow e ipaddr port) := by
  unfold insertUdpText insertText
  rw [← insertHead_cliInfo]
  simp [udpRow, spaced, valueText, List.intercalate, List.intersperse]

theorem udpRow_fits : ∀ v ∈ udpRow e ipaddr port, Fits v := by
  have hlo := e.le_toInt
  have hhi := e.toInt_lt
  have hip := ipaddr.toNat_lt
  have hport := port.toNat_lt
  intro v hv n hn
  simp only [udpRow, List.mem_cons, List.not_mem_nil, or_false] at hv
  rcases hv with rfl | rfl | rfl | rfl
  · cases hn
    omega
  · cases hn
  · cases hn
    omega
  · cases hn
    omega

/-- The database reads the values that were printed. -/
theorem readInsert_insertUdpText :
    readInsert "CliInfo" (insertUdpText e ipaddr port) = some (udpRow e ipaddr port) := by
  rw [insertUdpText_eq]
  exact readInsert_insertText (List.cons_ne_nil _ _) (udpRow_fits e ipaddr port)

theorem length_intText_le {n : Int} {k : Nat} (hk : 0 < k) (hn : n.natAbs < 10 ^ k) :
    (intText n).length ≤ k + 1 := by
  have hlen := (Nat.length_toDigits_le_iff (b := 10) (by decide) hk).mpr hn
  by_cases hneg : n < 0
  · rw [intText, if_pos hneg, List.length_cons]
    omega
  · rw [intText, if_neg hneg]
    omega

theorem insertUdpText_fits : (insertUdpText e ipaddr port).length < SQL_CMD_SIZE := by
  have hlo := e.le_toInt
  have hhi := e.toInt_lt
  have hip := ipaddr.toNat_lt
  have hport := port.toNat_lt
  have h₁ : (intText e.toInt).length ≤ 10 + 1 := length_intText_le (by decide) (by omega)
  have h₂ : (intText ipaddr.toNat).length ≤ 10 + 1 := length_intText_le (by decide) (by omega)
  have h₃ : (intText port.toNat).length ≤ 5 + 1 := length_intText_le (by decide) (by omega)
  unfold insertUdpText
  rw [← insertHead_cliInfo]
  simp [SQL_CMD_SIZE, List.length_append, length_insertHead_cliInfo]
  omega

end Text

/-! ## 2. The row in the table -/

/-- No row of the table has the endid. -/
def NotYetIn (t : Table) (endid : EndId) : Prop :=
  ∀ row ∈ t, cliInfo.get row "endid" ≠ some endid.toInt

section Table

variable {t : Table} {e : EndId} (hkeyed : cliInfo.keyed t = true) (hnew : NotYetIn t e)

include hkeyed hnew in
theorem keyed_append_udpRow (ipaddr : UInt32) (port : UInt16) :
    cliInfo.keyed (t ++ [udpRow e ipaddr port]) = true := by
  simp only [Schema.keyed, Bool.and_eq_true, decide_eq_true_eq, List.all_eq_true] at hkeyed ⊢
  obtain ⟨hsome, hnodup⟩ := hkeyed
  have hkey : cliInfo.get (udpRow e ipaddr port) cliInfo.key = some e.toInt := rfl
  constructor
  · intro row hrow
    rcases List.mem_append.mp hrow with hrow | hrow
    · exact hsome row hrow
    · rw [List.mem_singleton.mp hrow, hkey]
      rfl
  · rw [List.map_append, List.nodup_append]
    refine ⟨hnodup, List.nodup_singleton _, ?_⟩
    intro a ha b hb
    obtain ⟨row, hrow, rfl⟩ := List.mem_map.mp ha
    rw [List.map_singleton, List.mem_singleton, hkey] at hb
    subst hb
    exact hnew row hrow

include hkeyed hnew in
/-- The `INSERT` succeeds, and the `UPDATE` is not needed. -/
theorem addUdpCliToDatabase_new (ipaddr : UInt32) (port : UInt16) :
    addUdpCliToDatabase t e ipaddr port = t ++ [udpRow e ipaddr port] := by
  have hok : cliInfo.keyed (t ++ [[some e.toInt, none, some (ipaddr.toNat : Int),
      some (port.toNat : Int)]]) = true := keyed_append_udpRow hkeyed hnew ipaddr port
  have hwidth : cliInfo.columns.length = 4 := rfl
  simp [addUdpCliToDatabase, sqlite3Exec, Lib.Sql.exec, hwidth, hok, udpRow]

include hnew in
/-- The lookup finds the new row and no other. -/
theorem select_udpRow (ipaddr : UInt32) (port : UInt16) :
    (sqlite3Exec (t ++ [udpRow e ipaddr port]) (.select (.eq "endid" e.toInt))).rows =
      [udpRow e ipaddr port] := by
  have hknown : cliInfo.known (Cond.eq "endid" e.toInt).columns = true := by
    simp only [Cond.columns]
    decide
  have hnone : t.filter (fun row => (Cond.eq "endid" e.toInt).holds cliInfo row) = [] := by
    rw [List.filter_eq_nil_iff]
    intro row hrow hholds
    exact hnew row hrow (by simpa [Cond.holds] using hholds)
  have hself : (Cond.eq "endid" e.toInt).holds cliInfo (udpRow e ipaddr port) = true := by
    have hkey : cliInfo.get (udpRow e ipaddr port) "endid" = some e.toInt := rfl
    simp [Cond.holds, hkey]
  simp only [sqlite3Exec, Lib.Sql.exec, if_pos hknown, List.filter_append, hnone,
    List.nil_append, List.filter_singleton, hself, cond_true]

include hnew in
theorem getCliByEndid_udpRow (ipaddr : UInt32) (port : UInt16) :
    getCliByEndid (t ++ [udpRow e ipaddr port]) e .UNSET =
      .UDP_LINK { sinFamily := AF_INET, sinAddr := ipaddr, sinPort := port } := by
  rw [getCliByEndid, select_udpRow hnew]
  have hrow := Registry.selectResultHandler_row e (.udp ipaddr port)
  have hrowEq : Registry.row (e, .udp ipaddr port) = udpRow e ipaddr port := rfl
  rw [hrowEq] at hrow
  simp only [foldRows, hrow, Link.handle]

end Table

/-- For an endid that is not in the table yet, every address and port printed into the
    `INSERT` are what a lookup on a zeroed handle yields. -/
theorem udp_address_survives {t : Table} {e : EndId} (hkeyed : cliInfo.keyed t = true)
    (hnew : NotYetIn t e) (ipaddr : UInt32) (port : UInt16) :
    (insertUdpText e ipaddr port).length < SQL_CMD_SIZE ∧
      ∃ row, readInsert "CliInfo" (insertUdpText e ipaddr port) = some row ∧
        addUdpCliToDatabase t e ipaddr port = t ++ [row] ∧
        getCliByEndid (addUdpCliToDatabase t e ipaddr port) e .UNSET =
          .UDP_LINK { sinFamily := AF_INET, sinAddr := ipaddr, sinPort := port } := by
  refine ⟨insertUdpText_fits e ipaddr port, udpRow e ipaddr port,
    readInsert_insertUdpText e ipaddr port, addUdpCliToDatabase_new hkeyed hnew ipaddr port, ?_⟩
  rw [addUdpCliToDatabase_new hkeyed hnew]
  exact getCliByEndid_udpRow hnew ipaddr port

/-- The address 224.0.0.1 in a table with one client: `atoi` returns a negative `int`. -/
theorem udp_address_survives_upper :
    getCliByEndid (addUdpCliToDatabase [[some 3, some 5, none, none]] 7 0xe0000001 65535) 7
        .UNSET =
      .UDP_LINK { sinFamily := AF_INET, sinAddr := 0xe0000001, sinPort := 65535 } := by
  have hkeyed : cliInfo.keyed [[some 3, some 5, none, none]] = true := by decide
  have hnew : NotYetIn [[some 3, some 5, none, none]] 7 := by
    intro row hrow
    rw [List.mem_singleton.mp hrow]
    decide
  obtain ⟨-, row, -, -, hget⟩ := udp_address_survives hkeyed hnew 0xe0000001 65535
  exact hget

end SocketPractice.Socket
