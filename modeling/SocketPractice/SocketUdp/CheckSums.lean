import SocketPractice.SocketUdp.Routing

/-!
# Checksums on the wire (`client_udp.c`, `server_udp.c`)

Clients send through `SendMsgBufToServer`, which sets the checksum of every message.
The server forwards a message with the bytes it received, the checksum among them, but
the acknowledgements that it makes itself get none: their checksum byte is the zero of
the initialised buffer.  It is right only if the bytes that the acknowledgement has set
add up to zero.
-/

namespace SocketPractice.SocketUdp

open Lib.Bytes Lib.Links Lib.Runs Common

/-! ## 1. Clients and server -/

/-- What `SendMsgBufToServer` passes to `sendto`. -/
def sendMsgBufToServer (txBuf : LcMsg) : LcMsg := setCheckSum txBuf

/-- The server, what clients have sent to it, which of the messages for other ends it
    received as a client had sent them, and the datagrams on the wire.  A message that
    was damaged on its way to the server is not put on the wire when it is forwarded. -/
structure UdpSystem where
  server : SrvUdpRun
  sent : List LcMsg
  intact : List Bool
  wire : List LcMsg

inductive UdpEvent where
  | client (txBuf : LcMsg)
  | server (e : SrvUdpEvent)

/-- The whole datagram is one that a client has sent. -/
def Intact (sent : List LcMsg) (k : UdpAnswers) : Prop :=
  match k.recv with
  | .data c => ∃ m ∈ sent, c.whole = some m
  | _ => False

instance (sent : List LcMsg) (k : UdpAnswers) : Decidable (Intact sent k) := by
  unfold Intact
  split <;> infer_instance

def UdpCall.datagram : UdpCall → Option LcMsg
  | .sendto msg _ => some msg
  | .display _ => none

/-- The datagrams that the server sent in the step to `t`. -/
def newDatagrams (r t : SrvUdpRun) : List LcMsg :=
  (t.calls.drop r.calls.length).filterMap UdpCall.datagram

def udpStep (u : UdpSystem) : UdpEvent → Option UdpSystem
  | .client txBuf =>
      let datagram := sendMsgBufToServer txBuf
      some { u with sent := u.sent ++ [datagram], wire := u.wire ++ [datagram] }
  | .server e => do
      let t ← srvUdpStep u.server e
      let datagrams := newDatagrams u.server t
      match e with
      | .udp k =>
          let intact := (dataMsg k).toList.map fun _ => decide (Intact u.sent k)
          return { u with server := t, intact := u.intact ++ intact, wire := u.wire ++ datagrams }
      | .move _ _ _ => return { u with server := t, wire := u.wire ++ datagrams }
      | .task _ =>
          if u.intact[u.server.taken]? = some true then
            return { u with server := t, wire := u.wire ++ datagrams }
          return { u with server := t }

def newUdpSystem (msgBuf : LcMsg) : UdpSystem :=
  { server := newSrvUdpRun msgBuf, sent := [], intact := [], wire := [] }

/-- Every datagram on the wire is one that `CheckCheckSum` accepts. -/
def WireChecked (u : UdpSystem) : Prop := ∀ m ∈ u.wire, checkCheckSum m = true

/-- Any registration that is handled has a `srcEndID` whose bytes, with the type of the
    acknowledgement, add up to zero. -/
def AckSumsToZero (_ : UdpSystem) : UdpEvent → Prop
  | .server (.udp k) => ∀ v ∈ (registration k).toList, 1 + sumBytes (le32 v.cliID.toUInt32) = 0
  | _ => True

instance (u : UdpSystem) (e : UdpEvent) : Decidable (AckSumsToZero u e) := by
  unfold AckSumsToZero
  split <;> infer_instance

/-! ## 2. The checksum of an acknowledgement -/

theorem zeros_split {n k : Nat} (h : k + 4 = n) :
    List.replicate n (0 : UInt8) = List.replicate 4 0 ++ List.replicate k 0 := by
  rw [List.replicate_append_replicate, ← h, Nat.add_comm]

/-- The three integers that are set, and zeros up to the end of the union. -/
theorem txBuf_bytes (id : EndID) :
    (txBuf id).bytes = le32 1 ++ le32 0 ++ le32 id.toUInt32 ++ List.replicate 260 0 := by
  have hzero : (Buf.zero sizeofLcMsg).bytes =
      [] ++ List.replicate 4 0 ++ List.replicate 268 0 := by
    rw [List.nil_append, ← zeros_split (n := 272) (by decide)]
    rfl
  have htype := Buf.write_append _ 0 (le32 MsgType.SaveCliInfo.code) (by decide) hzero rfl rfl
  rw [List.nil_append, zeros_split (k := 264) (by decide), ← List.append_assoc] at htype
  have hsrc := Buf.write_append _ 4 (le32 LcEndID.toUInt32) (by decide) htype rfl rfl
  rw [zeros_split (k := 260) (by decide), ← List.append_assoc] at hsrc
  exact Buf.write_append _ 8 (le32 id.toUInt32) (show 8 + 4 ≤ sizeofLcMsg by decide) hsrc
    rfl rfl

theorem checkCheckSum_txBuf (id : EndID) :
    checkCheckSum (txBuf id) = true ↔ 1 + sumBytes (le32 id.toUInt32) = 0 := by
  have hlen : (le32 1 ++ le32 0 ++ le32 id.toUInt32).length = 12 := rfl
  have hbyte : (txBuf id).bytes.getD sizeofMsg 0 = 0 := by
    rw [txBuf_bytes, List.getD_eq_getElem?_getD,
      List.getElem?_append_right (by rw [hlen]; decide), hlen,
      List.getElem?_replicate_of_lt (by decide)]
    rfl
  have htake : (txBuf id).bytes.take sizeofMsg =
      le32 1 ++ le32 0 ++ le32 id.toUInt32 ++ List.replicate 256 0 := by
    have hmin : min (sizeofMsg - 12) 260 = 256 := by decide
    rw [txBuf_bytes, List.take_append, List.take_of_length_le (by rw [hlen]; decide), hlen,
      List.take_replicate, hmin]
  have hsum : checkSum (txBuf id) = 1 + sumBytes (le32 id.toUInt32) := by
    rw [checkSum, htake, sumBytes_append, sumBytes_append, sumBytes_append, sumBytes_zeros,
      UInt8.add_zero]
    rfl
  rw [checkCheckSum, hbyte, hsum, decide_eq_true_eq]

/-! ## 3. Runs -/

/-- What clients have sent is checked, and the messages that are marked as intact are
    among it. -/
structure UdpInv (u : UdpSystem) : Prop where
  server : u.server.faulted = false → ∃ gone ns ms, SrvUdpInv u.server gone ns ms
  sent : ∀ m ∈ u.sent, checkCheckSum m = true
  length : u.intact.length = (received u.server.handled).length
  intact : ∀ (i : Nat) (m : LcMsg), u.intact[i]? = some true →
    (received u.server.handled)[i]? = some m → m ∈ u.sent

theorem newDatagrams_eq {r t : SrvUdpRun} {calls : List UdpCall}
    (h : t.calls = r.calls ++ calls) : newDatagrams r t = calls.filterMap UdpCall.datagram := by
  rw [newDatagrams, h, List.drop_left]

/-- A task sends the message it was given, or nothing. -/
theorem mem_of_outcome {vs : List ClisInfoListNode} {m m' : LcMsg} {calls : List UdpCall}
    (hout : outcome vs m = some calls) (hm : m' ∈ calls.filterMap UdpCall.datagram) : m' = m := by
  unfold outcome at hout
  split at hout
  · split at hout
    · obtain rfl := Option.some.inj hout
      simp [UdpCall.datagram] at hm
    · obtain ⟨v, -, rfl⟩ := Option.map_eq_some_iff.mp hout
      simpa [UdpCall.datagram] using hm
  · obtain rfl := Option.some.inj hout
    simp at hm

theorem mem_sent_of_intact {sent : List LcMsg} {k : UdpAnswers} {m : LcMsg}
    (hm : dataMsg k = some m) (h : Intact sent k) : m ∈ sent := by
  unfold Intact at h
  split at h
  · rename_i c hrecv
    obtain ⟨m', hsent, hwhole⟩ := h
    simp only [dataMsg, hrecv, rxBuf, Buf.recv_of_whole _ hwhole, Option.ite_none_right_eq_some,
      Option.some.injEq] at hm
    exact hm.2 ▸ hsent
  · exact absurd h id

section Step

variable {u v : UdpSystem}

theorem udpStep_client {txBuf : LcMsg} (hu : UdpInv u)
    (hstep : udpStep u (.client txBuf) = some v) :
    UdpInv v ∧ (WireChecked u → WireChecked v) := by
  obtain rfl := Option.some.inj hstep
  refine ⟨⟨hu.server, ?_, hu.length, fun i m hi hm => ?_⟩, fun hwire => ?_⟩
  · intro m hm
    rcases List.mem_append.mp hm with hm | hm
    · exact hu.sent m hm
    · rw [List.mem_singleton.mp hm]
      exact checkCheckSum_setCheckSum txBuf
  · exact List.mem_append_left _ (hu.intact i m hi hm)
  · intro m hm
    rcases List.mem_append.mp hm with hm | hm
    · exact hwire m hm
    · rw [List.mem_singleton.mp hm]
      exact checkCheckSum_setCheckSum txBuf

/-- A datagram is answered with an acknowledgement if it is a registration. -/
theorem udpStep_udp {k : UdpAnswers} (hu : UdpInv u)
    (hstep : udpStep u (.server (.udp k)) = some v) :
    UdpInv v ∧ v.wire = u.wire ++ (registration k).toList.map fun n => txBuf n.cliID := by
  simp only [udpStep, Option.bind_eq_bind, Option.bind_eq_some_iff, Option.pure_def,
    Option.some.injEq] at hstep
  obtain ⟨t, ht, rfl⟩ := hstep
  obtain ⟨gone, ns, ms, hinv⟩ := hu.server (srvUdpStep_enabled ht).1
  obtain ⟨-, hhandled, hcalls, hinv'⟩ := srvUdpStep_udp hinv ht
  have hreceived : received t.handled = received u.server.handled ++ (dataMsg k).toList := by
    rw [hhandled, received_cons]
  refine ⟨⟨fun _ => ⟨_, _, _, hinv'⟩, hu.sent, ?_, fun i m hi hm => ?_⟩, ?_⟩
  · simp [hreceived, hu.length]
  · rw [hreceived] at hm
    by_cases hlt : i < u.intact.length
    · rw [List.getElem?_append_left hlt] at hi
      rw [List.getElem?_append_left (hu.length ▸ hlt)] at hm
      exact hu.intact i m hi hm
    · rw [List.getElem?_append_right (Nat.le_of_not_lt hlt)] at hi
      rw [List.getElem?_append_right (by rw [← hu.length]; exact Nat.le_of_not_lt hlt),
        ← hu.length] at hm
      have hdata : dataMsg k = some m := by
        have := List.mem_of_getElem? hm
        simpa using this
      have hintact : Intact u.sent k := by
        have := List.mem_of_getElem? hi
        simpa [hdata] using this
      exact mem_sent_of_intact hdata hintact
  · rw [newDatagrams_eq hcalls, List.filterMap_map]
    cases registration k <;> rfl

theorem udpStep_move {queue tmp taskNode : Addr} (hu : UdpInv u)
    (hstep : udpStep u (.server (.move queue tmp taskNode)) = some v) :
    UdpInv v ∧ v.wire = u.wire := by
  simp only [udpStep, Option.bind_eq_bind, Option.bind_eq_some_iff, Option.pure_def,
    Option.some.injEq] at hstep
  obtain ⟨t, ht, rfl⟩ := hstep
  obtain ⟨gone, ns, ms, hinv⟩ := hu.server (srvUdpStep_enabled ht).1
  obtain ⟨-, hhandled, hcalls, ns', ms', hinv'⟩ := srvUdpStep_move hinv ht
  refine ⟨⟨fun _ => ⟨_, _, _, hinv'⟩, hu.sent, by rw [hhandled]; exact hu.length, ?_⟩, ?_⟩
  · rw [hhandled]
    exact hu.intact
  · have hnone := hcalls.trans (List.append_nil u.server.calls).symm
    rw [newDatagrams_eq hnone]
    simp

/-- A message that arrived intact is forwarded as a client had sent it. -/
theorem udpStep_task {list : Addr} (hu : UdpInv u)
    (hstep : udpStep u (.server (.task list)) = some v) :
    UdpInv v ∧ ∀ m ∈ v.wire, m ∈ u.wire ∨ m ∈ u.sent := by
  simp only [udpStep, Option.bind_eq_bind, Option.bind_eq_some_iff] at hstep
  obtain ⟨t, ht, hstep⟩ := hstep
  obtain ⟨gone, ns, ms, hinv⟩ := hu.server (srvUdpStep_enabled ht).1
  have hserver := srvUdpStep_inv ht hu.server
  obtain ⟨m, ns', rfl, hhandled, hout⟩ := srvUdpStep_task hinv ht
  have hnext : (received u.server.handled)[u.server.taken]? = some m := by
    rw [hinv.order, ← hinv.taken]
    simp
  have hlength : u.intact.length = (received t.handled).length := by
    rw [hhandled]
    exact hu.length
  have hintact : ∀ (i : Nat) (m : LcMsg), u.intact[i]? = some true →
      (received t.handled)[i]? = some m → m ∈ u.sent := by
    rw [hhandled]
    exact hu.intact
  have hsent : ∀ m' ∈ newDatagrams u.server t, m' = m := by
    intro m' hm'
    split at hout
    · rw [newDatagrams_eq (hout.2.trans (List.append_nil u.server.calls).symm)] at hm'
      simp at hm'
    · rename_i calls hcalls
      rw [newDatagrams_eq hout.2.1] at hm'
      exact mem_of_outcome hcalls hm'
  by_cases hmark : u.intact[u.server.taken]? = some true
  · rw [if_pos hmark] at hstep
    obtain rfl := Option.some.inj hstep
    refine ⟨⟨hserver, hu.sent, hlength, hintact⟩, ?_⟩
    intro m' hm'
    rcases List.mem_append.mp hm' with hm' | hm'
    · exact Or.inl hm'
    · rw [hsent m' hm']
      exact Or.inr (hu.intact _ m hmark hnext)
  · rw [if_neg hmark] at hstep
    obtain rfl := Option.some.inj hstep
    exact ⟨⟨hserver, hu.sent, hlength, hintact⟩, fun m' hm' => Or.inl hm'⟩

theorem udpStep_spec {e : UdpEvent} (hu : UdpInv u) (hstep : udpStep u e = some v) :
    UdpInv v ∧ (WireChecked u → (WireChecked v ↔ AckSumsToZero u e)) := by
  cases e with
  | client txBuf =>
      obtain ⟨hv, hwire⟩ := udpStep_client hu hstep
      exact ⟨hv, fun h => iff_of_true (hwire h) trivial⟩
  | server e =>
      cases e with
      | udp k =>
          obtain ⟨hv, hwire⟩ := udpStep_udp hu hstep
          refine ⟨hv, ?_⟩
          intro h
          rw [WireChecked, hwire]
          constructor
          · intro hall n hn
            exact (checkCheckSum_txBuf n.cliID).mp
              (hall _ (List.mem_append_right _ (List.mem_map_of_mem hn)))
          · intro hack m hm
            rcases List.mem_append.mp hm with hm | hm
            · exact h m hm
            · obtain ⟨n, hn, rfl⟩ := List.mem_map.mp hm
              exact (checkCheckSum_txBuf n.cliID).mpr (hack n hn)
      | move queue tmp taskNode =>
          obtain ⟨hv, hwire⟩ := udpStep_move hu hstep
          refine ⟨hv, fun h => iff_of_true ?_ trivial⟩
          rw [WireChecked, hwire]
          exact h
      | task list =>
          obtain ⟨hv, hwire⟩ := udpStep_task hu hstep
          refine ⟨hv, fun h => iff_of_true (fun m hm => ?_) trivial⟩
          rcases hwire m hm with hm | hm
          · exact h m hm
          · exact hu.sent m hm

end Step

/-! ## 4. When all datagrams are checked -/

/-- In every state of a run all datagrams on the wire have a right checksum if and only
    if the bytes of the `srcEndID` of every registration that is handled add up to 255,
    modulo 256. -/
theorem udp_wire_checked_iff (msgBuf : LcMsg) (evs : List UdpEvent) (u : UdpSystem)
    (hrun : exec udpStep (newUdpSystem msgBuf) evs = some u) :
    Always udpStep WireChecked (newUdpSystem msgBuf) evs ↔
      Along udpStep AckSumsToZero (newUdpSystem msgBuf) evs := by
  have hinv : UdpInv (newUdpSystem msgBuf) :=
    { server := fun _ => ⟨[], [], [], newSrvUdpRun_inv msgBuf⟩
      sent := fun m hm => absurd hm List.not_mem_nil
      length := rfl
      intact := fun i m hi => by simp [newUdpSystem] at hi }
  exact always_iff_along (fun _ _ _ hs hstep => (udpStep_spec hs hstep).1)
    (fun _ _ _ hs hI hstep => (udpStep_spec hs hstep).2 hI) hinv
    (fun m hm => absurd hm List.not_mem_nil) hrun

/-- Client 7 registers, and the acknowledgement has the wrong checksum. -/
theorem udp_wire_unchecked_ack :
    ∃ u, exec udpStep (newUdpSystem (Buf.zero sizeofLcMsg))
        [.client (registrationOf 7),
          .server (udpEvent (setCheckSum (registrationOf 7)) addrA 1 2)] = some u ∧
      ¬ Always udpStep WireChecked (newUdpSystem (Buf.zero sizeofLcMsg))
        [.client (registrationOf 7),
          .server (udpEvent (setCheckSum (registrationOf 7)) addrA 1 2)] := by
  have hrun : (exec udpStep (newUdpSystem (Buf.zero sizeofLcMsg))
      [.client (registrationOf 7),
        .server (udpEvent (setCheckSum (registrationOf 7)) addrA 1 2)]).map
      (fun u => u.wire.all checkCheckSum) = some false := by
    decide +kernel
  obtain ⟨u, hu, hwire⟩ := Option.map_eq_some_iff.mp hrun
  refine ⟨u, hu, ?_⟩
  intro hall
  have hchecked : u.wire.all checkCheckSum = true := List.all_eq_true.mpr (hall.last hu)
  rw [hwire] at hchecked
  cases hchecked

/-- Client 255 registers and gets a message. -/
def registeredAndSent : List UdpEvent :=
  [.client (registrationOf 255), .server (udpEvent (setCheckSum (registrationOf 255)) addrA 1 2),
    .client (dataMsgTo 255), .server (udpEvent (setCheckSum (dataMsgTo 255)) addrB 3 4),
    .server (.move 5 1 2), .server (.task 6)]

theorem udp_wire_checked_client255 :
    ∃ u, exec udpStep (newUdpSystem (Buf.zero sizeofLcMsg)) registeredAndSent = some u ∧
      Always udpStep WireChecked (newUdpSystem (Buf.zero sizeofLcMsg)) registeredAndSent := by
  have hrun : (exec udpStep (newUdpSystem (Buf.zero sizeofLcMsg)) registeredAndSent).isSome := by
    decide +kernel
  obtain ⟨u, hu⟩ := Option.isSome_iff_exists.mp hrun
  exact ⟨u, hu, (udp_wire_checked_iff _ _ u hu).mpr (by decide +kernel)⟩

end SocketPractice.SocketUdp
