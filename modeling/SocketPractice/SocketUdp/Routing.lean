import SocketPractice.SocketUdp.ServerUdp

/-!
# Datagrams on their way through the server

Datagrams are handled one after the other.  Between them `SrvMsgProcessThread` moves
messages from the queue to the pool, and the pool runs the tasks in their order.  The
registry then holds the registrations that were handled, the latest first, and the
messages in the pool and in the queue are the data messages that were handled, less
those whose task has run.  A task therefore gets the oldest message that is left, as it
was received, and sends it to the address of the latest registration.
-/

namespace SocketPractice.SocketUdp

open Lib.Bytes Lib.Links Lib.Keyed Lib.Runs Common
open Lib.Memory (Store Ptr)

/-! ## 1. The server taking steps -/

/-- One round of `SrvMsgProcessThread`, with its buffer. -/
def srvMsgProcessThread (s : ServerUdp) (msgBuf : LcMsg) (queue tmp taskNode : Addr) :
    Option (ServerUdp × LcMsg) := do
  let (msgQueue, ret, lcMsg) ← deSrvMsgQueue s.msgQueue queue true
  let s := { s with msgQueue := msgQueue }
  if ret = .QUEUE_EMPTY then
    return (s, msgBuf)
  let msgBuf := lcMsg.getD msgBuf
  let pool ← addTaskToServerPoolReleaseArgMem s.pool tmp taskNode .SrvMsgProcessTask
    (.lcMsg msgBuf)
  return ({ s with pool := pool }, msgBuf)

/-- The server with its history: whether it touched memory that is not allocated, the
    datagrams that were handled, latest first, how many tasks were run, and what was
    sent and shown. -/
structure SrvUdpRun where
  srv : ServerUdp
  msgBuf : LcMsg
  faulted : Bool
  handled : List UdpAnswers
  taken : Nat
  calls : List UdpCall

/-- A datagram is handled, a message is moved, or a task is run, with the addresses
    that `malloc` returns. -/
inductive SrvUdpEvent where
  | udp (k : UdpAnswers)
  | move (queue tmp taskNode : Addr)
  | task (list : Addr)

def SrvUdpRun.fault (r : SrvUdpRun) : SrvUdpRun := { r with faulted := true }

/-- What `malloc` returns is not in use. -/
def Unused (s : ServerUdp) : SrvUdpEvent → Prop
  | .udp k => s.cliInfo.heap k.node = none ∧ s.msgQueue.heap k.node = none ∧ k.node ≠ k.list
  | .move _ tmp taskNode => s.pool.args tmp = none ∧ s.pool.heap taskNode = none
  | .task _ => True

instance (s : ServerUdp) (e : SrvUdpEvent) : Decidable (Unused s e) := by
  unfold Unused
  cases e <;> infer_instance

def srvUdpStep (r : SrvUdpRun) (e : SrvUdpEvent) : Option SrvUdpRun :=
  if r.faulted = false ∧ Unused r.srv e then
    match e with
    | .udp k =>
        match porcessUdpMsg r.srv k with
        | some (srv, calls, _) =>
            some { r with srv := srv, handled := k :: r.handled, calls := r.calls ++ calls }
        | none => some r.fault
    | .move queue tmp taskNode =>
        match srvMsgProcessThread r.srv r.msgBuf queue tmp taskNode with
        | some (srv, msgBuf) => some { r with srv := srv, msgBuf := msgBuf }
        | none => some r.fault
    | .task list =>
        match takeTask r.srv.pool with
        | some (pool, some ⟨.SrvMsgProcessTask, arg⟩) =>
            match srvMsgProcessTask { r.srv with pool := pool } list arg with
            | some (srv, calls, _) =>
                some { r with srv := srv, taken := r.taken + 1, calls := r.calls ++ calls }
            | none => some { r.fault with taken := r.taken + 1 }
        | _ => none
  else none

/-- The server at its start; the buffer of the thread is not initialised. -/
def newSrvUdpRun (msgBuf : LcMsg) : SrvUdpRun :=
  { srv := newServerUdp, msgBuf := msgBuf, faulted := false, handled := [], taken := 0,
    calls := [] }

/-! ## 2. What the datagrams ask for -/

/-- The registration that a datagram is. -/
def registration (k : UdpAnswers) : Option ClisInfoListNode :=
  match k.recv with
  | .data c =>
      if IsSaveCliInfo (rxBuf c) then some ⟨LcMsg.srcEndID (rxBuf c), k.sockaddr⟩ else none
  | _ => none

/-- The message for another end that a datagram is. -/
def dataMsg (k : UdpAnswers) : Option LcMsg :=
  match k.recv with
  | .data c => if IsDataMsg (rxBuf c) then some (rxBuf c) else none
  | _ => none

/-- The source address of the latest registration of `d`. -/
def latestAddr (handled : List UdpAnswers) (d : EndID) : Option SockaddrIn :=
  (first ClisInfoListNode.cliID (handled.filterMap registration) d).map ClisInfoListNode.addr

/-- The messages that were received for other ends, oldest first. -/
def received (handled : List UdpAnswers) : List LcMsg := handled.reverse.filterMap dataMsg

theorem received_cons (k : UdpAnswers) (handled : List UdpAnswers) :
    received (k :: handled) = received handled ++ (dataMsg k).toList := by
  rw [received, List.reverse_cons, List.filterMap_append, received]
  cases hk : dataMsg k <;> simp [hk]

theorem isDataMsg_of_mem_received {handled : List UdpAnswers} {m : LcMsg}
    (hm : m ∈ received handled) : IsDataMsg m := by
  obtain ⟨k, -, hk⟩ := List.mem_filterMap.mp hm
  unfold dataMsg at hk
  split at hk
  · rename_i c _
    by_cases hdata : IsDataMsg (rxBuf c)
    · rw [if_pos hdata, Option.some.injEq] at hk
      exact hk ▸ hdata
    · rw [if_neg hdata] at hk
      cases hk
  · cases hk

theorem not_isDataMsg_of_isSaveCliInfo {m : LcMsg} (h : IsSaveCliInfo m) : ¬ IsDataMsg m := by
  intro hdata
  have := h.1.symm.trans hdata
  exact absurd this (by decide)

/-! ## 3. The handlers on what they find -/

/-- The tasks in the pool have the messages `ns`, each in a block of its own. -/
def Waiting (pool : ThreadPool) (ns : List LcMsg) : Prop :=
  ∃ args : List Addr, pool.Queued (args.map fun a => ⟨.SrvMsgProcessTask, some a⟩) ∧
    args.Nodup ∧ args.map pool.args = ns.map fun m => some (.lcMsg m)

section Handlers

variable {s : ServerUdp} {vs : List ClisInfoListNode} {ms ns : List LcMsg}

/-- What `PorcessUdpMsg` does with a datagram. -/
theorem porcessUdpMsg_spec (hreg : s.cliInfo.Lists vs) (hqueue : s.msgQueue.Queued ms)
    {k : UdpAnswers} (hunused : Unused s (.udp k)) :
    ∃ s' ret, porcessUdpMsg s k = some (s',
        (registration k).toList.map (fun v => .sendto (txBuf v.cliID) v.addr), ret) ∧
      s'.cliInfo.Lists ((registration k).toList ++ vs) ∧
      s'.msgQueue.Queued (ms ++ (dataMsg k).toList) ∧ s'.pool = s.pool := by
  obtain ⟨hcli, hmsg, hne⟩ := hunused
  cases hrecv : k.recv with
  | error =>
      exact ⟨s, false, by simp [porcessUdpMsg, registration, hrecv],
        by simpa [registration, hrecv] using hreg, by simpa [dataMsg, hrecv] using hqueue, rfl⟩
  | eof =>
      exact ⟨s, true, by simp [porcessUdpMsg, registration, hrecv],
        by simpa [registration, hrecv] using hreg, by simpa [dataMsg, hrecv] using hqueue, rfl⟩
  | data c =>
      by_cases hsave : IsSaveCliInfo (rxBuf c)
      · have hdata := not_isDataMsg_of_isSaveCliInfo hsave
        obtain ⟨cliInfo, hadd, hreg'⟩ := hreg.add hcli hne
          ⟨LcMsg.srcEndID (rxBuf c), k.sockaddr⟩
        refine ⟨{ s with cliInfo := cliInfo }, true, ?_, ?_, ?_, rfl⟩
        · simp [porcessUdpMsg, registration, hrecv, hsave, addNodeToCliInfoList, hadd]
        · simpa [registration, hrecv, hsave] using hreg'
        · simpa [dataMsg, hrecv, hdata] using hqueue
      · by_cases hdata : IsDataMsg (rxBuf c)
        · obtain ⟨msgQueue, hen, hqueue'⟩ := enSrvMsgQueue_spec hqueue hmsg hne (rxBuf c)
          refine ⟨{ s with msgQueue := msgQueue }, true, ?_, ?_, ?_, rfl⟩
          · simp [porcessUdpMsg, registration, hrecv, hsave, hdata, hen]
          · simpa [registration, hrecv, hsave] using hreg
          · simpa [dataMsg, hrecv, hdata] using hqueue'
        · refine ⟨s, true, ?_, ?_, ?_, rfl⟩
          · simp [porcessUdpMsg, registration, hrecv, hsave, hdata]
          · simpa [registration, hrecv, hsave] using hreg
          · simpa [dataMsg, hrecv, hdata] using hqueue

/-- A round of the thread moves the oldest message to the pool, if there is one. -/
theorem srvMsgProcessThread_spec (hqueue : s.msgQueue.Queued ms) (hwait : Waiting s.pool ns)
    {queue tmp taskNode : Addr} (hunused : Unused s (.move queue tmp taskNode)) (msgBuf : LcMsg) :
    ∃ s' msgBuf', srvMsgProcessThread s msgBuf queue tmp taskNode = some (s', msgBuf') ∧
      s'.cliInfo = s.cliInfo ∧
      ∃ ms' ns', s'.msgQueue.Queued ms' ∧ Waiting s'.pool ns' ∧ ns' ++ ms' = ns ++ ms := by
  obtain ⟨htmp, hnode⟩ := hunused
  rcases ms with _ | ⟨m, ms⟩
  · obtain ⟨msgQueue, hde, hqueue'⟩ := deSrvMsgQueue_nil hqueue queue
    exact ⟨{ s with msgQueue := msgQueue }, msgBuf, by simp [srvMsgProcessThread, hde], rfl,
      [], ns, hqueue', hwait, rfl⟩
  · obtain ⟨msgQueue, hde, hqueue'⟩ := deSrvMsgQueue_cons hqueue queue
    obtain ⟨args, htasks, hnd, hargs⟩ := hwait
    have hcopy : (copyArg s.pool tmp (.lcMsg m)).Queued
        (args.map fun a => ⟨.SrvMsgProcessTask, some a⟩) := htasks
    have hfree : (copyArg s.pool tmp (.lcMsg m)).heap taskNode = none := hnode
    obtain ⟨pool, hadd, htasks', hargs'⟩ := addTaskToPool_spec hcopy hfree .SrvMsgProcessTask
      (some tmp)
    have hnew : tmp ∉ args := by
      intro hmem
      have hsome : s.pool.args tmp ∈ args.map s.pool.args := List.mem_map_of_mem hmem
      rw [hargs, htmp] at hsome
      simp at hsome
    refine ⟨{ s with msgQueue := msgQueue, pool := pool }, m, ?_, rfl, ms, ns ++ [m], hqueue',
      ⟨args ++ [tmp], by simpa using htasks', ?_, ?_⟩, by simp⟩
    · simp [srvMsgProcessThread, hde, addTaskToServerPoolReleaseArgMem, hadd]
    · rw [List.nodup_append]
      refine ⟨hnd, List.nodup_singleton tmp, ?_⟩
      rintro a ha b hb rfl
      exact hnew (List.mem_singleton.mp hb ▸ ha)
    · have hold : args.map pool.args = args.map s.pool.args := by
        apply List.map_congr_left
        intro a ha
        have hne : a ≠ tmp := fun heq => hnew (heq ▸ ha)
        simp [hargs', copyArg, hne]
      rw [List.map_append, hold, hargs]
      simp [hargs', copyArg]

theorem Waiting.take {pool : ThreadPool} {m : LcMsg} (hwait : Waiting pool (m :: ns)) :
    ∃ pool' a, takeTask pool = some (pool', some ⟨.SrvMsgProcessTask, some a⟩) ∧
      pool'.args a = some (.lcMsg m) ∧ Waiting pool' ns ∧
      Waiting { pool' with args := Function.update pool'.args a none } ns := by
  obtain ⟨args, htasks, hnd, hargs⟩ := hwait
  rcases args with _ | ⟨a, args⟩
  · simp at hargs
  · obtain ⟨ha, hrest⟩ := List.cons.inj hargs
    obtain ⟨pool', htake, htasks', hsame⟩ := takeTask_cons htasks
    obtain ⟨hnot, hnd'⟩ := List.nodup_cons.mp hnd
    refine ⟨pool', a, htake, by rw [hsame, ha], ⟨args, htasks', hnd', by rw [hsame, hrest]⟩,
      args, htasks', hnd', ?_⟩
    rw [← hrest]
    apply List.map_congr_left
    intro b hb
    have hne : b ≠ a := fun heq => hnot (heq ▸ hb)
    simp [hsame, hne]

/-- What `SrvMsgProcessTask` does with the message `m`, without its memory. -/
def outcome (vs : List ClisInfoListNode) (m : LcMsg) : Option (List UdpCall) :=
  if IsDataMsg m then
    if LcMsg.destEndID m = SETVER_ENDID then some [.display m]
    else (first ClisInfoListNode.cliID vs (LcMsg.destEndID m)).map fun v => [.sendto m v.addr]
  else some []

theorem srvMsgProcessTask_spec (hreg : s.cliInfo.Lists vs) {a : Addr} {m : LcMsg}
    (ha : s.pool.args a = some (.lcMsg m)) (hwait : Waiting s.pool ns)
    (hfreed : Waiting { s.pool with args := Function.update s.pool.args a none } ns)
    (list : Addr) :
    match outcome vs m with
    | none => srvMsgProcessTask s list (some a) = none
    | some calls => ∃ s', srvMsgProcessTask s list (some a) = some (s', calls, true) ∧
        s'.cliInfo.Lists vs ∧ s'.msgQueue = s.msgQueue ∧ Waiting s'.pool ns := by
  have hload : s.pool.args.load (some a) = some (.lcMsg m) := ha
  have hfree := Store.free_eq ha
  by_cases hdata : IsDataMsg m
  · by_cases hdest : LcMsg.destEndID m = SETVER_ENDID
    · simp only [outcome, if_pos hdata, if_pos hdest]
      exact ⟨s, by simp [srvMsgProcessTask, hload, hdata, hdest], hreg, rfl, hwait⟩
    · simp only [outcome, if_pos hdata, if_neg hdest]
      obtain ⟨node, hget, hfirst, -⟩ :=
        hreg.find_first ClisInfoListNode.cliID list (LcMsg.destEndID m)
      have hget : getCliInfoNodeByCliID s.cliInfo list (LcMsg.destEndID m) =
          some (s.cliInfo.init list, node) := hget
      have htask : srvMsgProcessTask s list (some a) =
          (node.bind (s.cliInfo.init list).heap.val?).bind fun v =>
            some ({ s with
              cliInfo := s.cliInfo.init list
              pool := { s.pool with args := Function.update s.pool.args a none } },
              [.sendto m v.addr], true) := by
        simp [srvMsgProcessTask, hload, hdata, hdest, hget, hfree, Option.bind_assoc]
      rw [htask, hfirst]
      cases first ClisInfoListNode.cliID vs (LcMsg.destEndID m) with
      | none => rfl
      | some v => exact ⟨_, rfl, hreg.init list, rfl, hfreed⟩
  · simp only [outcome, if_neg hdata]
    exact ⟨{ s with pool := { s.pool with args := Function.update s.pool.args a none } },
      by simp [srvMsgProcessTask, hload, hdata, hfree], hreg, rfl, hfreed⟩

end Handlers

/-! ## 4. Runs -/

/-- The tasks of the messages `gone` have run; `ns` are in the pool and `ms` in the
    queue. -/
structure SrvUdpInv (r : SrvUdpRun) (gone ns ms : List LcMsg) : Prop where
  registry : r.srv.cliInfo.Lists (r.handled.filterMap registration)
  queue : r.srv.msgQueue.Queued ms
  waiting : Waiting r.srv.pool ns
  order : received r.handled = gone ++ (ns ++ ms)
  taken : gone.length = r.taken

section Step

variable {r t : SrvUdpRun} {gone ns ms : List LcMsg}

theorem srvUdpStep_enabled {e : SrvUdpEvent} (hstep : srvUdpStep r e = some t) :
    r.faulted = false ∧ Unused r.srv e := by
  simp only [srvUdpStep, Option.ite_none_right_eq_some] at hstep
  exact hstep.1

theorem srvUdpStep_udp {k : UdpAnswers} (hr : SrvUdpInv r gone ns ms)
    (hstep : srvUdpStep r (.udp k) = some t) :
    t.faulted = false ∧ t.handled = k :: r.handled ∧
      t.calls = r.calls ++ (registration k).toList.map (fun v => .sendto (txBuf v.cliID) v.addr) ∧
      SrvUdpInv t gone ns (ms ++ (dataMsg k).toList) := by
  simp only [srvUdpStep, Option.ite_none_right_eq_some] at hstep
  obtain ⟨⟨hok, hunused⟩, hstep⟩ := hstep
  obtain ⟨s', ret, heq, hreg, hqueue, hpool⟩ := porcessUdpMsg_spec hr.registry hr.queue hunused
  rw [heq] at hstep
  obtain rfl := Option.some.inj hstep
  refine ⟨hok, rfl, rfl, ?_, hqueue, by rw [hpool]; exact hr.waiting, ?_, hr.taken⟩
  · cases hk : registration k with
    | none => simpa [hk] using hreg
    | some v => simpa [hk] using hreg
  · rw [received_cons, hr.order]
    simp only [List.append_assoc]

theorem srvUdpStep_move {queue tmp taskNode : Addr} (hr : SrvUdpInv r gone ns ms)
    (hstep : srvUdpStep r (.move queue tmp taskNode) = some t) :
    t.faulted = false ∧ t.handled = r.handled ∧ t.calls = r.calls ∧
      ∃ ns' ms', SrvUdpInv t gone ns' ms' := by
  simp only [srvUdpStep, Option.ite_none_right_eq_some] at hstep
  obtain ⟨⟨hok, hunused⟩, hstep⟩ := hstep
  obtain ⟨s', msgBuf', heq, hreg, ms', ns', hqueue, hwait, horder⟩ :=
    srvMsgProcessThread_spec hr.queue hr.waiting hunused r.msgBuf
  rw [heq] at hstep
  obtain rfl := Option.some.inj hstep
  refine ⟨hok, rfl, rfl, ns', ms', by rw [hreg]; exact hr.registry, hqueue, hwait, ?_, hr.taken⟩
  rw [hr.order, horder]

/-- A task gets the oldest message that is left. -/
theorem srvUdpStep_task {list : Addr} (hr : SrvUdpInv r gone ns ms)
    (hstep : srvUdpStep r (.task list) = some t) :
    ∃ m ns', ns = m :: ns' ∧ t.handled = r.handled ∧
      match outcome (r.handled.filterMap registration) m with
      | none => t.faulted = true ∧ t.calls = r.calls
      | some calls => t.faulted = false ∧ t.calls = r.calls ++ calls ∧
          SrvUdpInv t (gone ++ [m]) ns' ms := by
  simp only [srvUdpStep, Option.ite_none_right_eq_some] at hstep
  obtain ⟨⟨hok, -⟩, hstep⟩ := hstep
  rcases ns with _ | ⟨m, ns⟩
  · obtain ⟨args, htasks, -, hargs⟩ := hr.waiting
    have hnil : args = [] := by simpa using hargs
    subst hnil
    rw [takeTask_nil htasks] at hstep
    cases hstep
  · obtain ⟨pool, a, htake, ha, hwait, hfreed⟩ := hr.waiting.take
    rw [htake] at hstep
    have hspec := srvMsgProcessTask_spec (s := { r.srv with pool := pool }) hr.registry ha hwait
      hfreed list
    refine ⟨m, ns, rfl, ?_⟩
    cases hout : outcome (r.handled.filterMap registration) m with
    | none =>
        rw [hout] at hspec
        simp only [hspec, Option.some.injEq] at hstep
        subst hstep
        exact ⟨rfl, rfl, rfl⟩
    | some calls =>
        rw [hout] at hspec
        obtain ⟨s', heq, hreg, hqueue, hwait'⟩ := hspec
        simp only [heq, Option.some.injEq] at hstep
        subst hstep
        refine ⟨rfl, hok, rfl, hreg, by rw [hqueue]; exact hr.queue, hwait', ?_, ?_⟩
        · rw [hr.order]
          simp
        · rw [List.length_append, hr.taken]
          rfl

theorem srvUdpStep_inv {e : SrvUdpEvent} (hstep : srvUdpStep r e = some t)
    (hr : r.faulted = false → ∃ gone ns ms, SrvUdpInv r gone ns ms) :
    t.faulted = false → ∃ gone ns ms, SrvUdpInv t gone ns ms := by
  intro hok
  obtain ⟨gone, ns, ms, hinv⟩ := hr (srvUdpStep_enabled hstep).1
  cases e with
  | udp k => exact ⟨_, _, _, (srvUdpStep_udp hinv hstep).2.2.2⟩
  | move queue tmp taskNode =>
      obtain ⟨-, -, -, ns', ms', ht⟩ := srvUdpStep_move hinv hstep
      exact ⟨_, _, _, ht⟩
  | task list =>
      obtain ⟨m, ns', -, -, hout⟩ := srvUdpStep_task hinv hstep
      split at hout
      · rw [hout.1] at hok
        cases hok
      · exact ⟨_, _, _, hout.2.2⟩

end Step

theorem newSrvUdpRun_inv (msgBuf : LcMsg) : SrvUdpInv (newSrvUdpRun msgBuf) [] [] [] where
  registry := ListTable.empty_lists
  queue := rfl
  waiting := ⟨[], ⟨1, rfl, [], initListHead_circular _ _, rfl⟩, List.nodup_nil, rfl⟩
  order := rfl
  taken := rfl

theorem srvUdpRun_inv {msgBuf : LcMsg} {evs : List SrvUdpEvent} {r : SrvUdpRun}
    (hrun : exec srvUdpStep (newSrvUdpRun msgBuf) evs = some r) (hok : r.faulted = false) :
    ∃ gone ns ms, SrvUdpInv r gone ns ms :=
  exec_invariant (I := fun r => r.faulted = false → ∃ gone ns ms, SrvUdpInv r gone ns ms)
    (fun _ _ _ hs hstep => srvUdpStep_inv hstep hs) (fun _ => ⟨[], [], [], newSrvUdpRun_inv msgBuf⟩)
    hrun hok

/-- A task gets the oldest message whose task has not run, byte for byte as it was
    received.  If the message is for a registered client, the task sends it to the source
    address of the latest registration of this client, and does nothing else. -/
theorem srv_udp_routes_to_latest (msgBuf : LcMsg) (evs : List SrvUdpEvent) (r t : SrvUdpRun)
    (list : Addr) (hrun : exec srvUdpStep (newSrvUdpRun msgBuf) evs = some r)
    (hstep : srvUdpStep r (.task list) = some t) :
    ∃ m, (received r.handled)[r.taken]? = some m ∧
      ∀ addr, LcMsg.destEndID m ≠ SETVER_ENDID →
        latestAddr r.handled (LcMsg.destEndID m) = some addr →
        t.faulted = false ∧ t.taken = r.taken + 1 ∧ t.calls = r.calls ++ [.sendto m addr] := by
  obtain ⟨gone, ns, ms, hinv⟩ := srvUdpRun_inv hrun (srvUdpStep_enabled hstep).1
  obtain ⟨m, ns', rfl, -, hout⟩ := srvUdpStep_task hinv hstep
  have hnext : (received r.handled)[r.taken]? = some m := by
    rw [hinv.order, ← hinv.taken]
    simp
  refine ⟨m, hnext, ?_⟩
  intro addr hdest haddr
  have hdata : IsDataMsg m := isDataMsg_of_mem_received (List.mem_of_getElem? hnext)
  obtain ⟨v, hv, rfl⟩ := Option.map_eq_some_iff.mp haddr
  have hsend : outcome (r.handled.filterMap registration) m = some [.sendto m v.addr] := by
    rw [outcome, if_pos hdata, if_neg hdest, hv]
    rfl
  rw [hsend] at hout
  obtain ⟨htok, hcalls, ht⟩ := hout
  refine ⟨htok, ?_, hcalls⟩
  rw [← ht.taken, ← hinv.taken, List.length_append]
  rfl

def registrationOf (id : EndID) : LcMsg :=
  LcMsg.setSrcEndID (LcMsg.setMsgType (Buf.zero sizeofLcMsg) .SaveCliInfo) id

def dataMsgTo (id : EndID) : LcMsg :=
  LcMsg.setDestEndID (LcMsg.setMsgType (Buf.zero sizeofLcMsg) .DataMsg) id

def udpEvent (m : LcMsg) (sockaddr : SockaddrIn) (list node : Addr) : SrvUdpEvent :=
  .udp { recv := .data (wholeChunk m), sockaddr := sockaddr, list := list, node := node }

/-- A client registers from two addresses, and a message for it is moved to the pool. -/
def twoRegistrations : List SrvUdpEvent :=
  [udpEvent (registrationOf 7) addrA 1 2, udpEvent (registrationOf 7) addrB 3 4,
    udpEvent (dataMsgTo 7) addrA 5 6, .move 7 1 2]

theorem srv_udp_routes_to_latest_twoRegistrations :
    ∃ r t, exec srvUdpStep (newSrvUdpRun (Buf.zero sizeofLcMsg)) twoRegistrations = some r ∧
      srvUdpStep r (.task 9) = some t ∧
      t.calls = r.calls ++ [.sendto (dataMsgTo 7) addrB] := by
  have hrun : (exec srvUdpStep (newSrvUdpRun (Buf.zero sizeofLcMsg)) twoRegistrations).map
      (fun r => ((srvUdpStep r (.task 9)).isSome, (received r.handled)[r.taken]?,
        latestAddr r.handled 7)) = some (true, some (dataMsgTo 7), some addrB) := by
    decide +kernel
  obtain ⟨r, hr, hfacts⟩ := Option.map_eq_some_iff.mp hrun
  simp only [Prod.mk.injEq] at hfacts
  obtain ⟨hsome, hmsg, haddr⟩ := hfacts
  obtain ⟨t, ht⟩ := Option.isSome_iff_exists.mp hsome
  obtain ⟨m, hm, hsent⟩ := srv_udp_routes_to_latest _ _ r t 9 hr ht
  obtain rfl := Option.some.inj (hmsg.symm.trans hm)
  have hdest : LcMsg.destEndID (dataMsgTo 7) = 7 := by decide +kernel
  refine ⟨r, t, hr, ht, (hsent addrB ?_ ?_).2.2⟩
  · rw [hdest]
    decide
  · rw [hdest]
    exact haddr

end SocketPractice.SocketUdp
