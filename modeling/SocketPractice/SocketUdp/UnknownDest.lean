import SocketPractice.SocketUdp.Routing

/-!
# Messages for an end that nobody registered

A peer chooses the end a message is for.  `SrvMsgProcessTask` shows a message for the
server and looks up the address of any other end; it then reads the node it was given,
which is `NULL` when there is none.  So the server ends with the first message for an
end that is not registered at that time, and handles every other as it should.
-/

namespace SocketPractice.SocketUdp

open Lib.Bytes Lib.Links Lib.Keyed Lib.Runs Common

/-! ## 1. What should become of a message -/

/-- The message of the task that is run next. -/
def nextMsg (r : SrvUdpRun) : Option LcMsg := (received r.handled)[r.taken]?

/-- The task from `r` to `t` ends, and has shown the message, sent it on, or dropped it
    without a trace in the registry and the queue. -/
structure Handled (r t : SrvUdpRun) (m : LcMsg) : Prop where
  ok : t.faulted = false
  display : LcMsg.destEndID m = SETVER_ENDID → t.calls = r.calls ++ [.display m]
  forward : LcMsg.destEndID m ≠ SETVER_ENDID →
    ∀ addr, latestAddr r.handled (LcMsg.destEndID m) = some addr →
      t.calls = r.calls ++ [.sendto m addr]
  drop : LcMsg.destEndID m ≠ SETVER_ENDID → latestAddr r.handled (LcMsg.destEndID m) = none →
    t.calls = r.calls ∧ (∀ vs, r.srv.cliInfo.Lists vs → t.srv.cliInfo.Lists vs) ∧
      t.srv.msgQueue = r.srv.msgQueue

/-- A task that is run has a message and handles it. -/
def TaskHandles (r : SrvUdpRun) : SrvUdpEvent → Prop
  | .task list => ∀ t, srvUdpStep r (.task list) = some t →
      ∃ m, nextMsg r = some m ∧ IsDataMsg m ∧ Handled r t m
  | _ => True

/-- The message of a task is for the server or for an end that a datagram has
    registered. -/
def DestKnown (r : SrvUdpRun) : SrvUdpEvent → Prop
  | .task _ => ∀ m ∈ nextMsg r, LcMsg.destEndID m = SETVER_ENDID ∨
      (latestAddr r.handled (LcMsg.destEndID m)).isSome
  | _ => True

instance (r : SrvUdpRun) : (e : SrvUdpEvent) → Decidable (DestKnown r e)
  | .task _ => Option.decidableForallMem _
  | .udp _ | .move .. => inferInstanceAs (Decidable True)

/-! ## 2. One task -/

section Step

variable {r t : SrvUdpRun} {gone ns ms : List LcMsg}

theorem nextMsg_eq (hr : SrvUdpInv r gone ns ms) : nextMsg r = (ns ++ ms)[0]? := by
  rw [nextMsg, hr.order, ← hr.taken, List.getElem?_append_right (Nat.le_refl _), Nat.sub_self]

theorem isDataMsg_nextMsg {m : LcMsg} (h : nextMsg r = some m) : IsDataMsg m :=
  isDataMsg_of_mem_received (List.mem_of_getElem? h)

/-- The task of a data message does nothing exactly if its end is unknown. -/
theorem outcome_eq_none_iff {m : LcMsg} (hdata : IsDataMsg m) :
    outcome (r.handled.filterMap registration) m = none ↔
      ¬ (LcMsg.destEndID m = SETVER_ENDID ∨
        (latestAddr r.handled (LcMsg.destEndID m)).isSome) := by
  unfold outcome latestAddr
  rw [if_pos hdata]
  by_cases hdest : LcMsg.destEndID m = SETVER_ENDID
  · simp [hdest]
  · simp [hdest]

theorem taskHandles_iff {e : SrvUdpEvent} (hr : SrvUdpInv r gone ns ms)
    (hstep : srvUdpStep r e = some t) : TaskHandles r e ↔ DestKnown r e := by
  cases e with
  | udp k => exact Iff.rfl
  | move queue tmp taskNode => exact Iff.rfl
  | task list =>
      obtain ⟨m, ns', rfl, hhandled, hout⟩ := srvUdpStep_task hr hstep
      have hnext : nextMsg r = some m := nextMsg_eq hr
      have hdata := isDataMsg_nextMsg hnext
      have hknown : DestKnown r (.task list) ↔ LcMsg.destEndID m = SETVER_ENDID ∨
          (latestAddr r.handled (LcMsg.destEndID m)).isSome := by
        simp only [DestKnown, hnext, Option.mem_some_iff, forall_eq']
      rw [hknown]
      cases hoc : outcome (r.handled.filterMap registration) m with
      | none =>
          rw [hoc] at hout
          refine iff_of_false ?_ ((outcome_eq_none_iff hdata).mp hoc)
          intro h
          obtain ⟨m', -, -, hm'⟩ := h t hstep
          exact Bool.noConfusion (hm'.ok.symm.trans hout.1)
      | some calls =>
          rw [hoc] at hout
          obtain ⟨hok, hcalls, -⟩ := hout
          have hsome : LcMsg.destEndID m = SETVER_ENDID ∨
              (latestAddr r.handled (LcMsg.destEndID m)).isSome := by
            apply Classical.byContradiction
            intro hnot
            rw [(outcome_eq_none_iff hdata).mpr hnot] at hoc
            cases hoc
          refine iff_of_true ?_ hsome
          intro t' ht'
          obtain rfl : t = t' := Option.some.inj (hstep.symm.trans ht')
          refine ⟨m, hnext, hdata, hok, ?_, ?_, ?_⟩
          · intro hdest
            rw [outcome, if_pos hdata, if_pos hdest, Option.some.injEq] at hoc
            rw [hcalls, hoc]
          · intro hdest addr haddr
            obtain ⟨v, hv, rfl⟩ := Option.map_eq_some_iff.mp haddr
            rw [outcome, if_pos hdata, if_neg hdest, hv, Option.map_some, Option.some.injEq] at hoc
            rw [hcalls, hoc]
          · intro hdest hnone
            rcases hsome with h | h
            · exact absurd h hdest
            · rw [hnone] at h
              cases h

end Step

/-! ## 3. Runs -/

/-- In every run of datagrams, moves and tasks each task handles its message, if and only
    if each of these messages is for the server or for an end that is registered when the
    task is run. -/
theorem srv_udp_survives_iff_destKnown (msgBuf : LcMsg) (evs : List SrvUdpEvent) (r : SrvUdpRun)
    (hrun : exec srvUdpStep (newSrvUdpRun msgBuf) evs = some r) :
    Along srvUdpStep TaskHandles (newSrvUdpRun msgBuf) evs ↔
      Along srvUdpStep DestKnown (newSrvUdpRun msgBuf) evs := by
  apply along_iff_along
    (J := fun r => r.faulted = false → ∃ gone ns ms, SrvUdpInv r gone ns ms) ?_ ?_ ?_ hrun
  · exact fun r e t hr _ hstep => srvUdpStep_inv hstep hr
  · intro r e t hr hstep
    obtain ⟨gone, ns, ms, hinv⟩ := hr (srvUdpStep_enabled hstep).1
    exact taskHandles_iff hinv hstep
  · exact fun _ => ⟨[], [], [], newSrvUdpRun_inv msgBuf⟩

/-- A message for 7 is queued and moved to the pool, and its task is run. -/
def messageFor7 : List SrvUdpEvent := [udpEvent (dataMsgTo 7) addrA 5 6, .move 7 1 2, .task 9]

theorem null_node_dereferenced :
    ∃ r, exec srvUdpStep (newSrvUdpRun (Buf.zero _)) messageFor7 = some r ∧ r.faulted = true ∧
      ¬ Along srvUdpStep TaskHandles (newSrvUdpRun (Buf.zero _)) messageFor7 := by
  have hrun : (exec srvUdpStep (newSrvUdpRun (Buf.zero _))
      [udpEvent (dataMsgTo 7) addrA 5 6, .move 7 1 2]).map
        (fun r => (srvUdpStep r (.task 9)).map SrvUdpRun.faulted) = some (some true) := by
    decide +kernel
  obtain ⟨r, hr, hlast⟩ := Option.map_eq_some_iff.mp hrun
  obtain ⟨t, ht, hfault⟩ := Option.map_eq_some_iff.mp hlast
  refine ⟨t, ?_, hfault, ?_⟩
  · exact exec_append_eq_some.mpr ⟨r, hr, exec_cons_eq_some.mpr ⟨t, ht, rfl⟩⟩
  · intro h
    have htask := along_iff_prefixes.mp h _ (.task 9) r (List.prefix_refl _) hr
    obtain ⟨m, -, -, hm⟩ := htask t ht
    exact Bool.noConfusion (hm.ok.symm.trans hfault)

/-- The same after 7 has registered. -/
theorem srv_udp_survives_registered :
    Along srvUdpStep TaskHandles (newSrvUdpRun (Buf.zero _))
      (udpEvent (registrationOf 7) addrB 1 2 :: messageFor7) := by
  obtain ⟨r, hr⟩ : ∃ r, exec srvUdpStep (newSrvUdpRun (Buf.zero _))
      (udpEvent (registrationOf 7) addrB 1 2 :: messageFor7) = some r := by
    apply Option.isSome_iff_exists.mp
    decide +kernel
  exact (srv_udp_survives_iff_destKnown (Buf.zero _) _ r hr).mpr (by decide +kernel)

end SocketPractice.SocketUdp
