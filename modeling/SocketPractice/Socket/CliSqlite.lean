import SocketPractice.Lib.Assoc
import SocketPractice.Lib.Decimal
import SocketPractice.Lib.Runs
import SocketPractice.Lib.Sql
import SocketPractice.Socket.SockMsg

/-!
# The client table of the server (`cli_sqlite3.c`)

The server keeps one row for each registered client: its endid and either the TCP
descriptor or the UDP address it can be reached at.  A registration is an `INSERT`
that is turned into an `UPDATE` when the endid is taken.  The `UPDATE` of the UDP
path names a column `addr`, which the table does not have (its column is
`ipaddr`), so it is refused and the old row stays.

The statements are kept as syntax with the column names of the SQL text; the
mutex around each call and the log output are left out.
-/

namespace SocketPractice.Socket

open Lib.Sql Lib.Decimal

/-! ## 1. The code -/

/-- `CREATE TABLE CliInfo` of `create_cli_sql_database`. -/
def cliInfo : Schema := { columns := ["endid", "fd", "ipaddr", "port"], key := "endid" }

def sqlite3Exec (t : Table) (st : Statement) : Outcome := Lib.Sql.exec cliInfo t st

def addTcpCliToDatabase (t : Table) (endid : EndId) (fd : Int32) : Table :=
  let r := sqlite3Exec t (.insert [some endid.toInt, some fd.toInt, none, none])
  if r.code = .constraint then
    (sqlite3Exec r.table (.update [("fd", some fd.toInt), ("ipaddr", none), ("port", none)]
      (.eq "endid" endid.toInt))).table
  else r.table

def delTcpCliFromDatabaseByFd (t : Table) (fd : Int32) : Table :=
  (sqlite3Exec t (.delete (.eq "fd" fd.toInt))).table

def addUdpCliToDatabase (t : Table) (endid : EndId) (ipaddr : UInt32) (port : UInt16) : Table :=
  let r := sqlite3Exec t (.insert [some endid.toInt, none, some ipaddr.toNat, some port.toNat])
  if r.code = .constraint then
    (sqlite3Exec r.table (.update [("fd", none), ("addr", some ipaddr.toNat),
      ("port", some port.toNat)] (.eq "endid" endid.toInt))).table
  else r.table

def delUdpCliFromDatabaseByIpaddr (t : Table) (ipaddr : UInt32) (port : UInt16) : Table :=
  (sqlite3Exec t (.delete (.and (.eq "ipaddr" ipaddr.toNat) (.eq "port" port.toNat)))).table

def AF_INET : UInt16 := 2

structure SockaddrIn where
  sinFamily : UInt16
  sinAddr : UInt32
  sinPort : UInt16
deriving DecidableEq, Repr

/-- `socket_handle_t`: the tag `socket_type` and the member of the union it selects. -/
inductive SocketHandle where
  | UNSET
  | TCP_LINK (fd : Int32)
  | UDP_LINK (addr : SockaddrIn)
deriving DecidableEq, Repr

/-- The callback of the lookup on one row, given as column texts; `none` stands for
    `SQLITE_ERROR`. -/
def selectResultHandler (handle : SocketHandle) (retv : List (Option (List Char))) :
    Option SocketHandle :=
  match retv with
  | [_, fd, ipaddr, port] =>
      if handle ≠ .UNSET then some handle
      else match fd, ipaddr, port with
        | some fd, none, none => some (.TCP_LINK (atoi fd))
        | none, some ipaddr, some port => some (.UDP_LINK
            { sinFamily := AF_INET
              sinAddr := (atoi ipaddr).toUInt32
              sinPort := (atoi port).toUInt32.toUInt16 })
        | _, _, _ => some handle
  | _ => none

/-- The rows of a result are handed to the callback one by one, until it fails. -/
def foldRows {σ : Type} (callback : σ → List (Option (List Char)) → Option σ) :
    σ → List Row → σ
  | s, [] => s
  | s, row :: rows =>
      match callback s (row.map (Option.map intText)) with
      | some s' => foldRows callback s' rows
      | none => s

def getCliByEndid (t : Table) (endid : EndId) (handle : SocketHandle) : SocketHandle :=
  foldRows selectResultHandler handle
    (sqlite3Exec t (.select (.eq "endid" endid.toInt))).rows

/-! ## 2. The registry behind the table -/

/-- How a client is reached. -/
inductive Link where
  | tcp (fd : Int32)
  | udp (ipaddr : UInt32) (port : UInt16)
deriving DecidableEq, Repr

/-- What a lookup leaves in a zeroed handle for the link it found. -/
def Link.handle : Option Link → SocketHandle
  | none => .UNSET
  | some (.tcp fd) => .TCP_LINK fd
  | some (.udp ipaddr port) =>
      .UDP_LINK { sinFamily := AF_INET, sinAddr := ipaddr, sinPort := port }

theorem Link.handle_injective : Function.Injective Link.handle := by
  intro a b h
  match a, b with
  | none, none => rfl
  | none, some (.tcp _) => cases h
  | none, some (.udp _ _) => cases h
  | some (.tcp _), none => cases h
  | some (.udp _ _), none => cases h
  | some (.tcp _), some (.tcp _) => cases h; rfl
  | some (.tcp _), some (.udp _ _) => cases h
  | some (.udp _ _), some (.tcp _) => cases h
  | some (.udp _ _), some (.udp _ _) => cases h; rfl

/-- The registered clients, in the order of the rows; an endid occurs once. -/
abbrev Registry := Lib.Assoc EndId Link

namespace Registry

def row : EndId × Link → Row
  | (e, .tcp fd) => [some e.toInt, some fd.toInt, none, none]
  | (e, .udp ipaddr port) => [some e.toInt, none, some ipaddr.toNat, some port.toNat]

def table (r : Registry) : Table := r.entries.map row

theorem get_endid (p : EndId × Link) : cliInfo.get (row p) "endid" = some p.1.toInt := by
  obtain ⟨e, k⟩ := p
  cases k <;> rfl

/-- A `WHERE endid == e` selects the rows of the entries of `e`. -/
theorem holds_endid (p : EndId × Link) (e : EndId) :
    (Cond.eq "endid" e.toInt).holds cliInfo (row p) = decide (p.1 = e) := by
  rw [Cond.holds, get_endid, Bool.eq_iff_iff]
  simp [Int32.toInt_inj]

theorem holds_fd (p : EndId × Link) (fd : Int32) :
    (Cond.eq "fd" fd.toInt).holds cliInfo (row p) = decide (p.2 = .tcp fd) := by
  obtain ⟨e, k⟩ := p
  cases k with
  | tcp fd' =>
      have hget : cliInfo.get (row (e, .tcp fd')) "fd" = some fd'.toInt := rfl
      rw [Cond.holds, hget, Bool.eq_iff_iff]
      simp [Int32.toInt_inj]
  | udp ipaddr port =>
      have hget : cliInfo.get (row (e, .udp ipaddr port)) "fd" = none := rfl
      rw [Cond.holds, hget, Bool.eq_iff_iff]
      simp

theorem holds_ipaddr (p : EndId × Link) (ipaddr : UInt32) (port : UInt16) :
    (Cond.and (.eq "ipaddr" ipaddr.toNat) (.eq "port" port.toNat)).holds cliInfo (row p) =
      decide (p.2 = .udp ipaddr port) := by
  obtain ⟨e, k⟩ := p
  cases k with
  | tcp fd =>
      have hget : cliInfo.get (row (e, .tcp fd)) "ipaddr" = none := rfl
      rw [Cond.holds, Cond.holds, hget, Bool.eq_iff_iff]
      simp
  | udp ip' port' =>
      have hip : cliInfo.get (row (e, .udp ip' port')) "ipaddr" = some (ip'.toNat : Int) := rfl
      have hport : cliInfo.get (row (e, .udp ip' port')) "port" = some (port'.toNat : Int) := rfl
      rw [Cond.holds, Cond.holds, Cond.holds, hip, hport, Bool.eq_iff_iff]
      simp only [Bool.and_eq_true, beq_iff_eq, Option.some.injEq, decide_eq_true_eq,
        Link.udp.injEq, Int.natCast_inj, UInt32.toNat_inj, UInt16.toNat_inj]

theorem keyed_map_row (l : List (EndId × Link)) :
    cliInfo.keyed (l.map row) = decide (l.map Prod.fst).Nodup := by
  have hkey : (l.map row).map (fun r => cliInfo.get r cliInfo.key) =
      (l.map Prod.fst).map fun e => (some e.toInt : Value) := by
    rw [List.map_map, List.map_map]
    exact List.map_congr_left fun p _ => get_endid p
  have hinj : Function.Injective fun e : EndId => (some e.toInt : Value) := by
    intro a b h
    exact Int32.toInt_inj.mp (Option.some.inj h)
  have hall : ((l.map row).all fun r => (cliInfo.get r cliInfo.key).isSome) = true := by
    rw [List.all_eq_true]
    intro r hr
    rcases List.mem_map.mp hr with ⟨p, -, rfl⟩
    exact congrArg Option.isSome (get_endid p)
  simp only [Schema.keyed, hall, hkey, List.nodup_map_iff hinj, Bool.true_and]

theorem keyed (r : Registry) : cliInfo.keyed r.table = true := by
  rw [table, keyed_map_row]
  exact decide_eq_true r.nodup

/-! ### The statements on the registry's table -/

/-- An `INSERT` adds the client, or violates the key when it is registered. -/
theorem exec_insert (r : Registry) (e : EndId) (k : Link) :
    sqlite3Exec r.table (.insert (row (e, k))) =
      if e ∈ r.keys then ⟨.constraint, r.table, []⟩ else ⟨.ok, table (r.set e k), []⟩ := by
  have hlen : (row (e, k)).length = cliInfo.columns.length := by cases k <;> rfl
  have happ : r.table ++ [row (e, k)] = (r.entries ++ [(e, k)]).map row := by
    simp [table]
  by_cases he : e ∈ r.keys
  · have hnot : ¬ ((r.entries ++ [(e, k)]).map Prod.fst).Nodup := by
      rw [List.map_append]
      intro hnd
      exact (List.nodup_append.mp hnd).2.2 e he e (by simp) rfl
    simp only [sqlite3Exec, Lib.Sql.exec, hlen, happ, keyed_map_row, hnot, decide_false, he,
      ne_eq, not_true_eq_false, if_false, if_true, Bool.false_eq_true]
  · have hset : (r.set e k).entries = r.entries ++ [(e, k)] := by
      simp only [Lib.Assoc.set, if_neg he]
    have hnd : ((r.entries ++ [(e, k)]).map Prod.fst).Nodup := hset ▸ (r.set e k).nodup
    have htable : table (r.set e k) = (r.entries ++ [(e, k)]).map row := by rw [table, hset]
    simp only [sqlite3Exec, Lib.Sql.exec, hlen, happ, keyed_map_row, hnd, decide_true, he,
      ne_eq, not_true_eq_false, if_false, if_true, htable]

/-- The `UPDATE` of the TCP path replaces the link. -/
theorem exec_update_tcp (r : Registry) (e : EndId) (fd : Int32) (he : e ∈ r.keys) :
    sqlite3Exec r.table (.update [("fd", some fd.toInt), ("ipaddr", none), ("port", none)]
      (.eq "endid" e.toInt)) = ⟨.ok, table (r.set e (.tcp fd)), []⟩ := by
  have hknown : cliInfo.known ["fd", "ipaddr", "port", "endid"] = true := by decide
  have hassign : cliInfo.assign r.table
      [("fd", some fd.toInt), ("ipaddr", none), ("port", none)] (.eq "endid" e.toInt) =
      table (r.set e (.tcp fd)) := by
    simp only [Lib.Assoc.set, if_pos he, Lib.Assoc.replace, Schema.assign, table, List.map_map]
    apply List.map_congr_left
    intro p _
    obtain ⟨a, b⟩ := p
    simp only [Function.comp_apply, holds_endid]
    by_cases hae : a = e
    · subst hae
      cases b <;> simp <;> rfl
    · simp [hae]
  simp only [sqlite3Exec, Lib.Sql.exec, List.map_cons, List.map_nil, Cond.columns,
    List.cons_append, List.nil_append, hknown, if_true, hassign, keyed]

/-- The `UPDATE` of the UDP path is refused: `CliInfo` has no column `addr`. -/
theorem exec_update_udp (t : Table) (e : EndId) (ipaddr : UInt32) (port : UInt16) :
    sqlite3Exec t (.update [("fd", none), ("addr", some ipaddr.toNat),
      ("port", some port.toNat)] (.eq "endid" e.toInt)) = ⟨.error, t, []⟩ := by
  have hknown : cliInfo.known ["fd", "addr", "port", "endid"] = false := by decide
  exact exec_update_unknown cliInfo t hknown

theorem exec_delete (r : Registry) (k : Link) (cond : Cond)
    (hknown : cliInfo.known cond.columns = true)
    (hcond : ∀ p, cond.holds cliInfo (row p) = decide (p.2 = k)) :
    sqlite3Exec r.table (.delete cond) = ⟨.ok, table (r.dropVal k), []⟩ := by
  have hfilter : (r.table.filter fun t => !cond.holds cliInfo t) = table (r.dropVal k) := by
    simp only [table, Lib.Assoc.dropVal, List.filter_map]
    congr 1
    apply List.filter_congr
    intro p _
    simp [hcond p]
  simp only [sqlite3Exec, Lib.Sql.exec, hknown, if_true, hfilter]

theorem exec_select (r : Registry) (e : EndId) :
    (sqlite3Exec r.table (.select (.eq "endid" e.toInt))).rows =
      (r.entries.filter fun p => p.1 = e).map row := by
  have hknown : cliInfo.known ["endid"] = true := by decide
  simp only [sqlite3Exec, Lib.Sql.exec, Cond.columns, hknown, if_true, table, List.filter_map]
  congr 1
  apply List.filter_congr
  intro p _
  simp [holds_endid]

/-! ### The calls on the registry's table -/

theorem add_tcp_table (r : Registry) (e : EndId) (fd : Int32) :
    addTcpCliToDatabase r.table e fd = table (r.set e (.tcp fd)) := by
  have hins := exec_insert r e (.tcp fd)
  unfold addTcpCliToDatabase
  simp only [show [some e.toInt, some fd.toInt, none, none] = row (e, .tcp fd) from rfl, hins]
  by_cases he : e ∈ r.keys
  · simp only [if_pos he, if_true, exec_update_tcp r e fd he]
  · simp [if_neg he]

/-- A UDP registration is recorded for a new endid and lost for a known one. -/
theorem add_udp_table (r : Registry) (e : EndId) (ipaddr : UInt32) (port : UInt16) :
    addUdpCliToDatabase r.table e ipaddr port =
      if e ∈ r.keys then r.table else table (r.set e (.udp ipaddr port)) := by
  have hins := exec_insert r e (.udp ipaddr port)
  unfold addUdpCliToDatabase
  simp only [show [some e.toInt, none, some (ipaddr.toNat : Int), some (port.toNat : Int)] =
    row (e, .udp ipaddr port) from rfl, hins]
  by_cases he : e ∈ r.keys
  · simp only [if_pos he, if_true, exec_update_udp]
  · simp [if_neg he]

theorem del_tcp_table (r : Registry) (fd : Int32) :
    delTcpCliFromDatabaseByFd r.table fd = table (r.dropVal (.tcp fd)) := by
  rw [delTcpCliFromDatabaseByFd, exec_delete r _ _ (by rfl) fun p => holds_fd p fd]

theorem del_udp_table (r : Registry) (ipaddr : UInt32) (port : UInt16) :
    delUdpCliFromDatabaseByIpaddr r.table ipaddr port = table (r.dropVal (.udp ipaddr port)) := by
  rw [delUdpCliFromDatabaseByIpaddr,
    exec_delete r _ _ (by rfl) fun p => holds_ipaddr p ipaddr port]

/-- The callback turns the row of a registered client into its link. -/
theorem selectResultHandler_row (e : EndId) (k : Link) :
    selectResultHandler .UNSET ((row (e, k)).map (Option.map intText)) =
      some (Link.handle (some k)) := by
  cases k with
  | tcp fd => simp [selectResultHandler, row, Link.handle, atoi_int32]
  | udp ipaddr port =>
      simp [selectResultHandler, row, Link.handle, atoi_uint32, atoi_uint16]

/-- A lookup in a zeroed handle yields the link of the endid. -/
theorem get_cli_table (r : Registry) (e : EndId) :
    getCliByEndid r.table e .UNSET = Link.handle (r.get e) := by
  rw [getCliByEndid, exec_select]
  rcases hget : r.get e with _ | k
  · have hnil : (r.entries.filter fun p => p.1 = e) = [] := by
      rw [List.filter_eq_nil_iff]
      intro p hp hpe
      have hmem : p.1 ∈ r.keys := List.mem_map_of_mem hp
      rw [of_decide_eq_true hpe] at hmem
      exact (r.mem_keys_iff e).mp hmem hget
    rw [hnil]
    rfl
  · have hone : (r.entries.filter fun p => p.1 = e) = [(e, k)] := r.filter_key_eq hget
    rw [hone]
    simp only [List.map_cons, List.map_nil, foldRows, selectResultHandler_row]

end Registry

/-! ## 3. Sequences of calls -/

inductive DbCall where
  | addTcp (endid : EndId) (fd : Int32)
  | addUdp (endid : EndId) (ipaddr : UInt32) (port : UInt16)
  | delTcp (fd : Int32)
  | delUdp (ipaddr : UInt32) (port : UInt16)
deriving DecidableEq, Repr

/-- The call as the code carries it out. -/
def DbCall.run (t : Table) : DbCall → Table
  | .addTcp e fd => addTcpCliToDatabase t e fd
  | .addUdp e ipaddr port => addUdpCliToDatabase t e ipaddr port
  | .delTcp fd => delTcpCliFromDatabaseByFd t fd
  | .delUdp ipaddr port => delUdpCliFromDatabaseByIpaddr t ipaddr port

/-- What the registrations mean: the most recent one of an endid counts until a
    delete of its own descriptor or address removes it. -/
def DbCall.register (links : EndId → Option Link) : DbCall → EndId → Option Link
  | .addTcp e fd => Function.update links e (some (.tcp fd))
  | .addUdp e ipaddr port => Function.update links e (some (.udp ipaddr port))
  | .delTcp fd => fun e => if links e = some (.tcp fd) then none else links e
  | .delUdp ipaddr port => fun e =>
      if links e = some (.udp ipaddr port) then none else links e

/-- The table together with the registrations it should hold. -/
structure DbState where
  table : Table
  links : EndId → Option Link

def dbStep (s : DbState) (c : DbCall) : Option DbState :=
  some { table := c.run s.table, links := c.register s.links }

def newDb : DbState := { table := [], links := fun _ => none }

/-- Every lookup on a zeroed handle yields exactly the link that counts. -/
def LastRegistrationWins (s : DbState) : Prop :=
  ∀ e, getCliByEndid s.table e .UNSET = Link.handle (s.links e)

/-- A UDP registration finds its endid unregistered, or registered at this very
    address. -/
def UdpEndidFree (s : DbState) : DbCall → Prop
  | .addUdp e ipaddr port => s.links e = none ∨ s.links e = some (.udp ipaddr port)
  | _ => True

def IsCliInfo (s : DbState) : Prop := ∃ r : Registry, s.table = r.table

theorem isCliInfo_step (s : DbState) (c : DbCall) (t : DbState) (hs : IsCliInfo s)
    (hstep : dbStep s c = some t) : IsCliInfo t := by
  obtain ⟨r, hr⟩ := hs
  cases hstep
  cases c with
  | addTcp e fd => exact ⟨r.set e (.tcp fd), by simp only [DbCall.run, hr, Registry.add_tcp_table]⟩
  | addUdp e ipaddr port =>
      by_cases he : e ∈ r.keys
      · exact ⟨r, by simp only [DbCall.run, hr, Registry.add_udp_table, if_pos he]⟩
      · exact ⟨r.set e (.udp ipaddr port), by
          simp only [DbCall.run, hr, Registry.add_udp_table, if_neg he]⟩
  | delTcp fd => exact ⟨r.dropVal (.tcp fd), by simp only [DbCall.run, hr, Registry.del_tcp_table]⟩
  | delUdp ipaddr port =>
      exact ⟨r.dropVal (.udp ipaddr port), by simp only [DbCall.run, hr, Registry.del_udp_table]⟩

/-- On the table of a registry the lookups are right when the registry has the
    links that count. -/
theorem lastRegistrationWins_iff {s : DbState} {r : Registry} (hr : s.table = r.table) :
    LastRegistrationWins s ↔ ∀ e, r.get e = s.links e := by
  unfold LastRegistrationWins
  simp only [hr, Registry.get_cli_table]
  exact forall_congr' fun e => Link.handle_injective.eq_iff

theorem lastRegistrationWins_step (s : DbState) (c : DbCall) (t : DbState)
    (hs : IsCliInfo s) (hwins : LastRegistrationWins s) (hstep : dbStep s c = some t) :
    LastRegistrationWins t ↔ UdpEndidFree s c := by
  obtain ⟨r, hr⟩ := hs
  have hget := (lastRegistrationWins_iff hr).mp hwins
  cases hstep
  cases c with
  | addTcp e fd =>
      rw [lastRegistrationWins_iff (r := r.set e (.tcp fd))
        (by simp only [DbCall.run, hr, Registry.add_tcp_table])]
      simp only [UdpEndidFree, iff_true]
      intro e'
      by_cases he : e' = e
      · simp [DbCall.register, he]
      · simp [DbCall.register, he, hget]
  | addUdp e ipaddr port =>
      by_cases he : e ∈ r.keys
      · -- the registration is lost, which is right only if it changes nothing
        rw [lastRegistrationWins_iff (r := r)
          (by simp only [DbCall.run, hr, Registry.add_udp_table, if_pos he])]
        have hsome : s.links e ≠ none := by
          rw [← hget]
          exact (r.mem_keys_iff e).mp he
        constructor
        · intro h
          have := h e
          simp only [DbCall.register, Function.update_self] at this
          exact Or.inr (by rw [← hget, this])
        · rintro (h | h) e'
          · exact absurd h hsome
          · by_cases he' : e' = e
            · simp [DbCall.register, he', hget, h]
            · simp [DbCall.register, he', hget]
      · rw [lastRegistrationWins_iff (r := r.set e (.udp ipaddr port))
          (by simp only [DbCall.run, hr, Registry.add_udp_table, if_neg he])]
        have hnone : s.links e = none := by
          by_contra h
          rw [← hget] at h
          exact he ((r.mem_keys_iff e).mpr h)
        constructor
        · intro _
          exact Or.inl hnone
        · intro _ e'
          by_cases he' : e' = e
          · simp [DbCall.register, he']
          · simp [DbCall.register, he', hget]
  | delTcp fd =>
      rw [lastRegistrationWins_iff (r := r.dropVal (.tcp fd))
        (by simp only [DbCall.run, hr, Registry.del_tcp_table])]
      simp [UdpEndidFree, DbCall.register, hget]
  | delUdp ipaddr port =>
      rw [lastRegistrationWins_iff (r := r.dropVal (.udp ipaddr port))
        (by simp only [DbCall.run, hr, Registry.del_udp_table])]
      simp [UdpEndidFree, DbCall.register, hget]

theorem exec_dbStep (s : DbState) (calls : List DbCall) :
    ∃ t, Lib.Runs.exec dbStep s calls = some t := by
  induction calls generalizing s with
  | nil => exact ⟨s, rfl⟩
  | cons c calls ih =>
      rcases ih { table := c.run s.table, links := c.register s.links } with ⟨t, ht⟩
      exact ⟨t, Lib.Runs.exec_cons_eq_some.mpr ⟨_, rfl, ht⟩⟩

/-- Along a sequence of calls every lookup yields the last registration that no
    delete removed, in every state passed, exactly if no UDP registration is made
    for an endid that is registered over another link at that time. -/
theorem last_registration_wins_iff (calls : List DbCall) :
    Lib.Runs.Always dbStep LastRegistrationWins newDb calls ↔
      Lib.Runs.Along dbStep UdpEndidFree newDb calls := by
  rcases exec_dbStep newDb calls with ⟨t, ht⟩
  have hempty : newDb.table = Registry.table Lib.Assoc.empty := rfl
  exact Lib.Runs.always_iff_along isCliInfo_step lastRegistrationWins_step
    ⟨_, hempty⟩ ((lastRegistrationWins_iff hempty).mpr fun _ => rfl) ht

/-- A client that registered over TCP and then over UDP is still looked up at its
    TCP descriptor. -/
theorem udp_reregistration_lost :
    getCliByEndid (([.addTcp 7 5, .addUdp 7 0x0100007f 4242] : List DbCall).foldl
        DbCall.run newDb.table) 7 .UNSET ≠
      Link.handle ((([.addTcp 7 5, .addUdp 7 0x0100007f 4242] : List DbCall).foldl
        DbCall.register newDb.links) 7) := by
  decide +kernel

end SocketPractice.Socket
