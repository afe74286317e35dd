import SocketPractice.Socket.CliSqlite
import SocketPractice.Socket.ServerSocket

/-!
# The broadcast of the server (`cli_sqlite3.c`, `server_tcp.c`, `server_udp.c`)

`traverse_table_send_msg` hands every row of the client table to a callback that writes
the row's endid into the one message of the broadcast and sends it over the link of the
row.  The results of the sends are logged and dropped, so a send that returns with an
error stops nothing.

A `send` to a connection that the peer has reset does not return: it raises `SIGPIPE`,
which this server, unlike the one of `socket_tcp`, neither handles nor ignores, so that
the process ends there.  A datagram socket raises no such signal.
-/

namespace SocketPractice.Socket

open Lib.Sql Lib.Bytes Lib.Decimal

/-! ## 1. The code -/

/-- How a `send` on a connection ends. -/
inductive SendRet where
  | ret (TXsize : Int)
  | sigpipe
deriving DecidableEq, Repr

/-- What the network does with the `i`-th message of a broadcast, if it goes over a
    connection and if it goes out as a datagram. -/
structure Net where
  send : Nat → SendRet
  sendto : Nat → Int

/-- The value of `send_msg_by_tcp`, or `none` when the signal ends the process. -/
def sendMsgByTcp : SendRet → Option Int32
  | .ret TXsize => if TXsize ≠ sizeofLcMsgPackage then some (-1) else some 0
  | .sigpipe => none

def sendMsgByUdp (TXsize : Int) : Int32 :=
  if TXsize ≠ sizeofLcMsgPackage then -1 else 0

/-- A broadcast in progress: the message, the sends attempted so far, and whether the
    process is gone. -/
structure Broadcast where
  msgPack : LcMsgPackage
  sent : List SrvCall
  killed : Bool

/-- The callback on one row, given as column texts; `none` stands for `SQLITE_ERROR`.
    A process that is gone is handed no further row. -/
def sendMsgToAllRet (net : Net) (s : Broadcast) (retv : List (Option (List Char))) :
    Option Broadcast :=
  if s.killed then none
  else match retv with
    | [endid, fd, ipaddr, port] =>
        match endid with
        -- `atoi(NULL)`
        | none => some { s with killed := true }
        | some endid =>
            let msgPack := s.msgPack.setDestid (atoi endid)
            match fd, ipaddr, port with
            | some fd, none, none =>
                let cliFd := atoi fd
                some {
                  msgPack := msgPack
                  sent := s.sent ++ [.sendMsgByTcp msgPack cliFd]
                  killed := (sendMsgByTcp (net.send s.sent.length)).isNone }
            | none, some ipaddr, some port =>
                let sAddr := (atoi ipaddr).toUInt32
                let sinPort := (atoi port).toUInt32.toUInt16
                let _ := sendMsgByUdp (net.sendto s.sent.length)
                some { s with
                  msgPack := msgPack
                  sent := s.sent ++ [.sendMsgByUdp msgPack sAddr sinPort] }
            | _, _, _ => some { s with msgPack := msgPack }
    | _ => none

def traverseTableSendMsg (net : Net) (t : Table) (msgPack : LcMsgPackage) : Broadcast :=
  foldRows (sendMsgToAllRet net) { msgPack := msgPack, sent := [], killed := false }
    (sqlite3Exec t (.select .all)).rows

/-! ## 2. What a broadcast should do -/

/-- The row of a client that is reached over a connection, and over nothing else. -/
def TcpRow (row : Row) : Prop := ∃ endid fd, row = [some endid, some fd, none, none]

def UdpRow (row : Row) : Prop :=
  ∃ endid ipaddr port, row = [some endid, none, some ipaddr, some port]

/-- The link of a row, as the arguments of the function that sends over it. -/
def SendsOver : Row → SrvCall → Prop
  | [_, fd, none, none], .sendMsgByTcp _ cliFd => fd = some cliFd.toInt
  | [_, none, ipaddr, port], .sendMsgByUdp _ sAddr sinPort =>
      ipaddr = some (sAddr.toNat : Int) ∧ port = some (sinPort.toNat : Int)
  | _, _ => False

/-- The message a call sends. -/
def SrvCall.msgPack? : SrvCall → Option LcMsgPackage
  | .sendMsgByTcp msgPack _ => some msgPack
  | .sendMsgByUdp msgPack _ _ => some msgPack
  | _ => none

/-- The message is the broadcast one, addressed to the client of the row. -/
structure AddressedTo (row : Row) (msg sent : LcMsgPackage) : Prop where
  destid : cliInfo.get row "endid" = some sent.destid.toInt
  msgType : sent.msgType = msg.msgType
  srcid : sent.srcid = msg.srcid
  data : sent.data = msg.data

/-- A send to the client of the row, over its own link. -/
def Reaches (msg : LcMsgPackage) (row : Row) (call : SrvCall) : Prop :=
  SendsOver row call ∧ ∃ sent, call.msgPack? = some sent ∧ AddressedTo row msg sent

/-- Every row has one link, an endid has one row, and the sends attempted are one for
    each row, to its client. -/
structure ReachesEveryone (net : Net) (t : Table) (msg : LcMsgPackage) : Prop where
  oneLink : ∀ row ∈ t, TcpRow row ∨ UdpRow row
  oneRow : (t.map fun row => cliInfo.get row "endid").Nodup
  sends : List.Forall₂ (Reaches msg) t (traverseTableSendMsg net t msg).sent

/-- No client but the one in the last row has a connection on which the send of its
    message raises the signal. -/
def NoSigpipe (net : Net) (t : Table) : Prop :=
  ∀ i row, t[i]? = some row → i + 1 < t.length → TcpRow row → net.send i ≠ .sigpipe

/-! ## 3. One row after the other -/

section Rows

variable {net : Net} {s : Broadcast}

/-- The send that the callback makes for a registered client. -/
def sendTo (msg : LcMsgPackage) : EndId × Link → SrvCall
  | (e, .tcp fd) => .sendMsgByTcp (msg.setDestid e) fd
  | (e, .udp ipaddr port) => .sendMsgByUdp (msg.setDestid e) ipaddr port

/-- Whether the `i`-th send raises the signal when it goes to this client. -/
def raises (net : Net) (i : Nat) : EndId × Link → Bool
  | (_, .tcp _) => net.send i = .sigpipe
  | (_, .udp _ _) => false

theorem sendMsgByTcp_isNone (r : SendRet) : (sendMsgByTcp r).isNone = decide (r = .sigpipe) := by
  cases r with
  | ret TXsize =>
      by_cases hsize : TXsize ≠ sizeofLcMsgPackage
      · simp [sendMsgByTcp, hsize]
      · simp [sendMsgByTcp, hsize]
  | sigpipe => rfl

/-- What the callback does with the row of a registered client. -/
theorem sendMsgToAllRet_row (hs : s.killed = false) (p : EndId × Link) :
    sendMsgToAllRet net s ((Registry.row p).map (Option.map intText)) =
      some { msgPack := s.msgPack.setDestid p.1, sent := s.sent ++ [sendTo s.msgPack p],
             killed := raises net s.sent.length p } := by
  obtain ⟨e, k⟩ := p
  cases k with
  | tcp fd =>
      simp [sendMsgToAllRet, hs, Registry.row, sendTo, raises, atoi_int32, sendMsgByTcp_isNone]
  | udp ipaddr port =>
      simp [sendMsgToAllRet, hs, Registry.row, sendTo, raises, atoi_int32, atoi_uint32,
        atoi_uint16]

theorem foldRows_killed (hs : s.killed = true) (rows : List Row) :
    foldRows (sendMsgToAllRet net) s rows = s := by
  cases rows with
  | nil => rfl
  | cons row rows => simp [foldRows, sendMsgToAllRet, hs]

/-- The destination that an earlier row left in the message is overwritten. -/
theorem sendTo_setDestid (msg : LcMsgPackage) (e : EndId) :
    sendTo (msg.setDestid e) = sendTo msg := by
  funext p
  obtain ⟨e', k⟩ := p
  have hset : (msg.setDestid e).setDestid e' = msg.setDestid e' := Buf.put32_put32 msg _ _ _
  cases k <;> simp only [sendTo, hset]

/-- The sends attempted for the clients from the `i`-th on: one for each, up to the first
    that raises the signal. -/
def attempts (net : Net) (msg : LcMsgPackage) : Nat → List (EndId × Link) → List SrvCall
  | _, [] => []
  | i, p :: ps => sendTo msg p :: if raises net i p then [] else attempts net msg (i + 1) ps

theorem foldRows_sent (hs : s.killed = false) (ps : List (EndId × Link)) :
    (foldRows (sendMsgToAllRet net) s (ps.map Registry.row)).sent =
      s.sent ++ attempts net s.msgPack s.sent.length ps := by
  induction ps generalizing s with
  | nil => simp [foldRows, attempts]
  | cons p ps ih =>
      simp only [List.map_cons, foldRows, sendMsgToAllRet_row hs, attempts]
      cases hraise : raises net s.sent.length p with
      | true => rw [foldRows_killed rfl, if_pos rfl]
      | false =>
          rw [ih rfl, if_neg Bool.false_ne_true]
          have hmsg : attempts net (s.msgPack.setDestid p.1) = attempts net s.msgPack := by
            funext i qs
            induction qs generalizing i with
            | nil => rfl
            | cons q qs ihq => simp only [attempts, sendTo_setDestid, ihq]
          rw [hmsg, List.append_assoc, List.length_append, List.length_singleton,
            List.singleton_append]

theorem rows_select_all (r : Registry) :
    (sqlite3Exec r.table (.select .all)).rows = r.entries.map Registry.row := by
  have hknown : cliInfo.known [] = true := rfl
  simp [sqlite3Exec, Lib.Sql.exec, Cond.columns, hknown, Cond.holds, Registry.table]

theorem traverseTableSendMsg_sent (net : Net) (r : Registry) (msg : LcMsgPackage) :
    (traverseTableSendMsg net r.table msg).sent = attempts net msg 0 r.entries := by
  rw [traverseTableSendMsg, rows_select_all, foldRows_sent rfl]
  rfl

/-- Every client is sent to if and only if none but the last raises the signal. -/
theorem length_attempts_iff (net : Net) (msg : LcMsgPackage) (i : Nat)
    (ps : List (EndId × Link)) :
    (attempts net msg i ps).length = ps.length ↔
      ∀ j p, ps[j]? = some p → j + 1 < ps.length → raises net (i + j) p = false := by
  induction ps generalizing i with
  | nil => simp [attempts]
  | cons p ps ih =>
      have hrest : (∀ j q, (p :: ps)[j]? = some q → j + 1 < (p :: ps).length →
          raises net (i + j) q = false) ↔
          (ps ≠ [] → raises net i p = false) ∧
            ∀ j q, ps[j]? = some q → j + 1 < ps.length → raises net (i + 1 + j) q = false := by
        constructor
        · intro h
          constructor
          · intro hne
            exact h 0 p rfl (by simpa using List.length_pos_iff.mpr hne)
          · intro j q hq hj
            rw [Nat.add_assoc, Nat.add_comm 1 j]
            exact h (j + 1) q (by simpa using hq) (by simpa using hj)
        · rintro ⟨hhead, htail⟩ j q hq hj
          cases j with
          | zero =>
              simp only [List.getElem?_cons_zero, Option.some.injEq] at hq
              subst hq
              apply hhead
              rintro rfl
              simp at hj
          | succ j =>
              rw [Nat.add_succ, ← Nat.succ_add]
              exact htail j q (by simpa using hq) (by simpa using hj)
      rw [hrest, attempts, List.length_cons, List.length_cons, Nat.add_right_cancel_iff]
      cases hraise : raises net i p with
      | true =>
          rw [if_pos rfl]
          constructor
          · intro h
            have hnil : ps = [] := List.eq_nil_of_length_eq_zero h.symm
            subst hnil
            simp
          · rintro ⟨hhead, -⟩
            by_contra hne
            have hps : ps ≠ [] := by
              rintro rfl
              exact hne rfl
            cases hhead hps
      | false =>
          rw [if_neg Bool.false_ne_true, ih (i + 1)]
          simp

theorem attempts_of_length {msg : LcMsgPackage} {i : Nat} {ps : List (EndId × Link)}
    (h : (attempts net msg i ps).length = ps.length) :
    attempts net msg i ps = ps.map (sendTo msg) := by
  induction ps generalizing i with
  | nil => rfl
  | cons p ps ih =>
      simp only [attempts, List.length_cons, Nat.add_right_cancel_iff] at h
      rw [attempts, List.map_cons]
      cases hraise : raises net i p with
      | true =>
          rw [hraise, if_pos rfl] at h
          have hnil : ps = [] := List.eq_nil_of_length_eq_zero h.symm
          subst hnil
          rfl
      | false =>
          rw [hraise, if_neg Bool.false_ne_true] at h
          rw [if_neg Bool.false_ne_true, ih h]

end Rows

/-! ## 4. Everyone, once -/

theorem addressedTo_setDestid (msg : LcMsgPackage) (p : EndId × Link) :
    AddressedTo (Registry.row p) msg (msg.setDestid p.1) where
  destid := by
    rw [Registry.get_endid, LcMsgPackage.destid, LcMsgPackage.setDestid, Buf.get32_put32]
    rfl
  msgType := Buf.get32_congr (Buf.take_put32_of_le msg _ _ (by decide))
  srcid := congrArg UInt32.toInt32 (Buf.get32_congr (Buf.take_put32_of_le msg _ _ (by decide)))
  data := congrArg (List.take MSG_DATA_LEN) (Buf.drop_put32_of_le msg _ _ (by decide))

theorem sendTo_reaches (msg : LcMsgPackage) (p : EndId × Link) :
    Reaches msg (Registry.row p) (sendTo msg p) := by
  have haddr := addressedTo_setDestid msg p
  obtain ⟨e, k⟩ := p
  cases k with
  | tcp fd => exact ⟨rfl, _, rfl, haddr⟩
  | udp ipaddr port => exact ⟨⟨rfl, rfl⟩, _, rfl, haddr⟩

theorem row_oneLink (p : EndId × Link) : TcpRow (Registry.row p) ∨ UdpRow (Registry.row p) := by
  obtain ⟨e, k⟩ := p
  cases k with
  | tcp fd => exact Or.inl ⟨_, _, rfl⟩
  | udp ipaddr port => exact Or.inr ⟨_, _, _, rfl⟩

theorem raises_eq_false {net : Net} {i : Nat} {p : EndId × Link} :
    raises net i p = false ↔ (TcpRow (Registry.row p) → net.send i ≠ .sigpipe) := by
  obtain ⟨e, k⟩ := p
  cases k with
  | tcp fd =>
      have htcp : TcpRow (Registry.row (e, .tcp fd)) := ⟨_, _, rfl⟩
      simp [raises, htcp]
  | udp ipaddr port =>
      have hudp : ¬ TcpRow (Registry.row (e, .udp ipaddr port)) := by
        rintro ⟨endid, fd, heq⟩
        cases heq
      simp [raises, hudp]

theorem noSigpipe_iff (net : Net) (r : Registry) :
    NoSigpipe net r.table ↔
      ∀ j p, r.entries[j]? = some p → j + 1 < r.entries.length → raises net j p = false := by
  simp only [NoSigpipe, Registry.table, List.getElem?_map, List.length_map,
    Option.map_eq_some_iff, raises_eq_false]
  constructor
  · intro h j p hp hj
    exact h j _ ⟨p, hp, rfl⟩ hj
  · rintro h j row ⟨p, hp, rfl⟩ hj
    exact h j p hp hj

/-- On the table of a registry a broadcast reaches everyone exactly if it survives all
    sends but the last. -/
theorem reachesEveryone_iff (net : Net) (r : Registry) (msg : LcMsgPackage) :
    ReachesEveryone net r.table msg ↔ NoSigpipe net r.table := by
  have hlength := length_attempts_iff net msg 0 r.entries
  simp only [Nat.zero_add] at hlength
  rw [noSigpipe_iff, ← hlength]
  constructor
  · intro h
    have hsends := h.sends.length_eq
    rw [traverseTableSendMsg_sent, Registry.table, List.length_map] at hsends
    exact hsends.symm
  · intro h
    refine ⟨?_, ?_, ?_⟩
    · intro row hrow
      obtain ⟨p, -, rfl⟩ := List.mem_map.mp hrow
      exact row_oneLink p
    · have hkeyed := r.keyed
      simp only [Schema.keyed, Bool.and_eq_true, decide_eq_true_eq] at hkeyed
      exact hkeyed.2
    · rw [traverseTableSendMsg_sent, attempts_of_length h, Registry.table,
        List.forall₂_map_left_iff, List.forall₂_map_right_iff, List.forall₂_same]
      intro p _
      exact sendTo_reaches msg p

/-- The table after any calls is that of a registry. -/
theorem isCliInfo_calls (calls : List DbCall) :
    ∃ r : Registry, calls.foldl DbCall.run newDb.table = r.table := by
  have hcalls : ∀ s : DbState, IsCliInfo s →
      ∃ r : Registry, calls.foldl DbCall.run s.table = r.table := by
    induction calls with
    | nil =>
        intro s hs
        exact hs
    | cons c calls ih =>
        intro s hs
        exact ih _ (isCliInfo_step s c _ hs rfl)
  exact hcalls newDb ⟨Lib.Assoc.empty, rfl⟩

/-- After any calls, a broadcast attempts one send for each registered client, over its
    own link and with its own endid, whatever the sends return, if and only if no send
    but the one for the last row raises `SIGPIPE`. -/
theorem broadcast_reaches_everyone_iff (calls : List DbCall) (net : Net) (msg : LcMsgPackage) :
    ReachesEveryone net (calls.foldl DbCall.run newDb.table) msg ↔
      NoSigpipe net (calls.foldl DbCall.run newDb.table) := by
  obtain ⟨r, hr⟩ := isCliInfo_calls calls
  rw [hr]
  exact reachesEveryone_iff net r msg

/-- The peer of descriptor 5 has reset its connection; all other sends succeed. -/
def firstReset : Net where
  send := fun i => if i = 0 then .sigpipe else .ret 528
  sendto := fun _ => 528

/-- The server dies at the first of two clients, so the second is never sent to. -/
theorem broadcast_stops_at_reset :
    ¬ ReachesEveryone firstReset
      (([.addTcp 7 5, .addTcp 8 6] : List DbCall).foldl DbCall.run newDb.table)
      (Buf.zero sizeofLcMsgPackage) := by
  intro h
  have hlength := h.sends.length_eq
  revert hlength
  decide +kernel

end SocketPractice.Socket
