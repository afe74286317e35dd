import Mathlib.Algebra.Order.BigOperators.Group.Finset
import SocketPractice.Lib.Accounts
import SocketPractice.Lib.Threads
import SocketPractice.SocketUdp.ChatSystem

/-!
# Every typed line is accounted for

A typed line is in one place at a time: in the pool of the client who typed it, on the wire to
the server, in the hands of a worker or of the thread of the server, in its queue, on the wire
to the clients, in the pool of a client, or on a screen.  It gets lost where the wire loses it
and where a `sendto` fails; it becomes two where the wire doubles it.  There is no other way as
long as the threads of the server do not race, so that without doubling no line is ever shown
more often than it was typed.  A server that has not survived keeps what it had.
-/

namespace SocketPractice.SocketUdp.Chat

open Lib.Accounts Lib.Bytes Lib.Links Lib.Network Lib.Runs Lib.Threads Common
open ClientInterface (Client zeros)

/-! ## 1. Where a line is -/

/-- What a line was typed as: by whom, for whom, and with what. -/
structure LineKey where
  src : EndID
  dest : EndID
  data : List UInt8

/-- The message carries such a line. -/
def LineKey.of (k : LineKey) (m : LcMsg) : Bool :=
  LcMsg.msgType m = MsgType.DataMsg.code ∧ LcMsg.srcEndID m = k.src ∧
    LcMsg.destEndID m = k.dest ∧ LcMsg.data m = k.data

def LineKey.ofTask (k : LineKey) : ClientTask → Bool
  | .ProcessServerMsg m => k.of m
  | .SendMsgBufToServer m => k.of m

/-- In the hands of a worker of the server. -/
def LineKey.ofSrvTask (k : LineKey) : SrvTask → Bool
  | .addNode _ _ _ => false
  | .answer _ _ => false
  | .enQueue _ m => k.of m
  | .srvMsgProcessTask m => k.of m
  | .getNode _ m => k.of m
  | .copyNode _ m => k.of m
  | .sendto _ m => k.of m

/-- In the hands of `SrvMsgProcessThread`. -/
def LineKey.ofThread (k : LineKey) : MsgProcessPc → Nat
  | .deQueue _ => 0
  | .addTask m => [m].countP k.of

def LineKey.typedAs {ι : Type} (k : LineKey) (p : Parties ι) (l : ι × EndID × Line) : Bool :=
  p.lcEndID l.1 = k.src ∧ l.2.1 = k.dest ∧ Line.padded l.2.2 = k.data

/-- In the pool of the client and on its screen. -/
def atClient (k : LineKey) (c : ChatClient) : Nat :=
  c.client.tasks.countP k.ofTask + (messages c.client).countP k.of

/-- In the queue, in the hands of the threads, and on the screen of the server. -/
def atServer (k : LineKey) (s : ChatServer) : Nat :=
  s.tasks.countP k.ofSrvTask + k.ofThread s.msgProcess + s.queued.countP k.of +
    s.shown.countP k.of

def onWire (k : LineKey) (wire : List (SockaddrIn × LcMsg)) : Nat :=
  wire.countP fun d => k.of d.2

/-- The message of the task is not sent if its `sendto` fails. -/
def lostAtClient (k : LineKey) (c : ChatClient) : ClientEvent → Nat
  | .program (.work n false) =>
      match c.client.tasks[n]? with
      | some (.SendMsgBufToServer m) => [m].countP k.of
      | _ => 0
  | _ => 0

section Places

variable {ι : Type} (k : LineKey) (p : Parties ι) (u : ChatSystem ι)

/-- Everywhere. -/
def held [Fintype ι] : Nat :=
  (∑ i, atClient k (u.clients i)) + onWire k u.toServer + atServer k u.srv + onWire k u.toClients

/-- How often such a line was typed. -/
def typedCount : Nat := u.typed.countP (k.typedAs p)

/-- Such lines that get lost in a step. -/
def lost (u : ChatSystem ι) : ChatEvent ι → Nat
  | .client i e => lostAtClient k (u.clients i) e
  | .disturbToServer (.lose n) => onWire k u.toServer[n]?.toList
  | .disturbToClients (.lose n) => onWire k u.toClients[n]?.toList
  | _ => 0

/-- Such lines that become two. -/
def doubled (u : ChatSystem ι) : ChatEvent ι → Nat
  | .disturbToServer (.double n) => onWire k u.toServer[n]?.toList
  | .disturbToClients (.double n) => onWire k u.toClients[n]?.toList
  | _ => 0

end Places

/-! ## 2. At a client -/

section Client

variable {k : LineKey} {lcEndID : EndID}

theorem of_carries {id dest : EndID} {line : Line} {m : LcMsg}
    (h : Carries id dest line (.SendMsgBufToServer m)) :
    k.of m = decide (id = k.src ∧ dest = k.dest ∧ line.padded = k.data) := by
  obtain ⟨htype, hsrc, hdest, hdata⟩ := h
  rw [LineKey.of, hsrc, hdest, hdata, decide_eq_decide]
  exact and_iff_right htype

theorem of_setCheckSum (k : LineKey) (m : LcMsg) : k.of (setCheckSum m) = k.of m := by
  obtain ⟨htype, hsrc, hdest, hdata⟩ := setCheckSum_words m
  rw [LineKey.of, LineKey.of, htype, hsrc, hdest, hdata]

theorem countP_setCheckSum (k : LineKey) (m : LcMsg) :
    [setCheckSum m].countP k.of = [m].countP k.of := by
  rw [List.countP_singleton, List.countP_singleton, of_setCheckSum]

theorem countP_ofTask_process (k : LineKey) (m : LcMsg) :
    [ClientTask.ProcessServerMsg m].countP k.ofTask = [m].countP k.of := by
  rw [List.countP_singleton, List.countP_singleton, LineKey.ofTask]

theorem countP_ofTask_send (k : LineKey) (m : LcMsg) :
    [ClientTask.SendMsgBufToServer m].countP k.ofTask = [m].countP k.of := by
  rw [List.countP_singleton, List.countP_singleton, LineKey.ofTask]

theorem of_eq_false {m : LcMsg} (h : LcMsg.msgType m ≠ MsgType.DataMsg.code) : k.of m = false :=
  decide_eq_false fun hm => h hm.1

theorem not_of_saveCliInfo {m : LcMsg} (h : LcMsg.msgType m = MsgType.SaveCliInfo.code) :
    k.of m = false := by
  apply of_eq_false
  rw [h]
  decide

/-- One element less. -/
theorem countP_eraseIdx {α : Type} (q : α → Bool) {l : List α} {n : Nat} {a : α}
    (h : l[n]? = some a) : (l.eraseIdx n).countP q + [a].countP q = l.countP q := by
  obtain ⟨hn, rfl⟩ := List.getElem?_eq_some_iff.mp h
  have hperm := (List.getElem_cons_eraseIdx_perm hn).countP_eq q
  rw [← hperm]
  simp only [List.countP_cons, List.countP_nil]
  omega

/-- Only a line that is typed comes to the tasks. -/
theorem countP_adds {typed : Option (EndID × Line)} {new : List ClientTask}
    (h : Adds lcEndID typed new) :
    new.countP k.ofTask =
      typed.toList.countP fun l => decide (lcEndID = k.src ∧ l.1 = k.dest ∧
        Line.padded l.2 = k.data) := by
  unfold Adds at h
  split at h
  · rename_i dest line
    obtain ⟨m, rfl, hcarries⟩ := h
    simp [LineKey.ofTask, of_carries hcarries]
  · rcases h with rfl | ⟨m, rfl, hreg⟩
    · rfl
    · simp [LineKey.ofTask, not_of_saveCliInfo hreg.1]

/-- What `ProcessServerMsg` takes from the pool it shows, if it is a line. -/
theorem countP_processServerMsg (c : Client) (m : LcMsg) :
    (messages (ClientInterface.processServerMsg c m)).countP k.of =
      (messages c).countP k.of + [m].countP k.of := by
  by_cases hack : LcMsg.msgType m = MsgType.SaveCliInfo.code
  · rw [processServerMsg_ack hack]
    simp [messages, not_of_saveCliInfo hack]
  · by_cases hdata : LcMsg.msgType m = MsgType.DataMsg.code
    · rw [processServerMsg_data hdata, messages_show, List.countP_append]
    · rw [ClientInterface.processServerMsg, if_neg hack, if_neg hdata]
      simp [of_eq_false hdata]

theorem lostAtClient_of_not_works {c : ChatClient} {e : ClientEvent} (h : ¬ Works e) :
    lostAtClient k c e = 0 := by
  unfold lostAtClient
  split
  · exact absurd trivial h
  · rfl

/-- A step of a client: what it holds and what it puts onto the wire, against what it held and
    the line that was typed. -/
theorem atClient_step (k : LineKey) {c t : ChatClient} {e : ClientEvent}
    (hstep : clientStep lcEndID c e = some t) :
    atClient k t + (newSent c t).countP k.of + lostAtClient k c e = atClient k c +
      (typedLine c e).toList.countP fun l => decide (lcEndID = k.src ∧ l.1 = k.dest ∧
        Line.padded l.2 = k.data) := by
  rcases clientStep_cases hstep with
    ⟨hworks, hsame, new, htasks, hadds⟩ | ⟨n, sendto, task, rfl, htask, ht⟩
  · have hsent : newSent c t = [] := newSent_eq (hsame.sent.trans (List.append_nil _).symm)
    rw [atClient, atClient, htasks, hsame.messages, hsent, lostAtClient_of_not_works hworks,
      List.countP_append, countP_adds hadds, List.countP_nil]
    omega
  · have htasks := countP_eraseIdx k.ofTask htask
    have htyped : typedLine c (.program (.work n sendto)) = none := rfl
    rw [htyped, Option.toList_none, List.countP_nil, Nat.add_zero, atClient, atClient, ← htasks]
    cases task with
    | ProcessServerMsg m =>
        obtain ⟨htasks', hsent'⟩ :=
          processServerMsg_same { c.client with tasks := c.client.tasks.eraseIdx n } m
        have hlost : lostAtClient k c (.program (.work n sendto)) = 0 := by
          cases sendto with
          | true => rfl
          | false => simp only [lostAtClient, htask]
        rw [ClientInterface.runTask] at ht
        have hsent : newSent c t = [] :=
          newSent_eq (by rw [ht, hsent']; exact (List.append_nil _).symm)
        have htaken : t.client.tasks = c.client.tasks.eraseIdx n := by rw [ht, htasks']
        have hshown : (messages t.client).countP k.of =
            (messages c.client).countP k.of + [m].countP k.of := by
          rw [ht]
          exact countP_processServerMsg _ m
        rw [hlost, hsent, htaken, hshown, countP_ofTask_process, List.countP_nil]
        omega
    | SendMsgBufToServer m =>
        cases sendto with
        | true =>
            have hsent : newSent c t = [setCheckSum m] := newSent_eq (by rw [ht]; rfl)
            have hlost : lostAtClient k c (.program (.work n true)) = 0 := rfl
            have hclient : t.client.tasks = c.client.tasks.eraseIdx n ∧
                messages t.client = messages c.client := by
              rw [ht]
              exact ⟨rfl, rfl⟩
            rw [hlost, hsent, hclient.1, hclient.2, countP_ofTask_send, countP_setCheckSum]
            omega
        | false =>
            have hsent : newSent c t = [] :=
              newSent_eq (by rw [ht]; exact (List.append_nil _).symm)
            have hlost : lostAtClient k c (.program (.work n false)) = [m].countP k.of := by
              simp only [lostAtClient, htask]
            have hclient : t.client.tasks = c.client.tasks.eraseIdx n ∧
                messages t.client = messages c.client := by
              rw [ht]
              exact ⟨rfl, rfl⟩
            rw [hlost, hsent, hclient.1, hclient.2, countP_ofTask_send, List.countP_nil]
            omega

end Client

/-! ## 3. At the server -/

section Server

variable {k : LineKey} {s t : ChatServer}

theorem onWire_singleton (k : LineKey) (addr : SockaddrIn) (m : LcMsg) :
    onWire k [(addr, m)] = [m].countP k.of := rfl

/-- What a worker does with a task leaves a line in it where it was, or puts it into one other
    place. -/
theorem does_count (k : LineKey) {task : SrvTask} {rest : Option SrvTask}
    {sent : List (SockaddrIn × LcMsg)} (h : Does s task t rest sent) :
    rest.toList.countP k.ofSrvTask + t.queued.countP k.of + t.shown.countP k.of + onWire k sent =
      [task].countP k.ofSrvTask + s.queued.countP k.of + s.shown.countP k.of := by
  have hmsg : ∀ {task : SrvTask} {m : LcMsg}, k.ofSrvTask task = k.of m →
      [task].countP k.ofSrvTask = [m].countP k.of := by
    intro task m heq
    rw [List.countP_singleton, List.countP_singleton, heq]
  cases h with
  | addInit hpc => rfl
  | add => rfl
  | @answer cliID addr =>
      have hack : k.of (txBuf cliID) = false := not_of_saveCliInfo (msgType_header _ _ _ _)
      have hsent : onWire k [(addr, txBuf cliID)] = 0 := by
        rw [onWire_singleton, List.countP_singleton, hack]
        rfl
      rw [hsent]
      rfl
  | queueInit hpc => rfl
  | @enQueue m msgQueue =>
      rw [hmsg (m := m) rfl, Option.toList_none, List.countP_nil, List.countP_append]
      simp only [onWire, List.countP_nil]
      omega
  | @display m hdata hdest =>
      rw [hmsg (m := m) rfl, Option.toList_none, List.countP_nil, List.countP_append]
      simp only [onWire, List.countP_nil]
      omega
  | search hdata hdest => rfl
  | @drop m hdata =>
      have hnot : k.of m = false := of_eq_false hdata
      rw [hmsg (m := m) rfl, List.countP_singleton, hnot]
      rfl
  | getInit hpc => rfl
  | get hfirst hnone => rfl
  | copy hmem hid => rfl
  | null => rfl
  | @sendto addr m =>
      rw [hmsg (m := m) rfl, onWire_singleton, Option.toList_none, List.countP_nil]
      omega

theorem atServer_step (k : LineKey) {e : SrvEvent} {sent : List (SockaddrIn × LcMsg)}
    (hs : SrvInv s) (hstep : srvStep s e = some (t, sent)) :
    atServer k t + onWire k sent = atServer k s := by
  obtain ⟨-, -, hcases⟩ := srvStep_cases hs hstep
  cases e with
  | work n list node =>
      obtain ⟨task, s', rest, htask, hdoes, rfl⟩ := hcases
      obtain ⟨htasks, hthread, -⟩ := hdoes.same
      have hone := countP_eraseIdx k.ofSrvTask htask
      have hcount := does_count k hdoes
      simp only [atServer, htasks, hthread, List.countP_append]
      simp only at hcount
      omega
  | msgProcess queue =>
      obtain ⟨rfl, hmoves⟩ := hcases
      cases hmoves with
      | wait hpc =>
          simp only [atServer, hpc, LineKey.ofThread, onWire, List.countP_nil]
          omega
      | @take m queued msgQueue hpc hqueued =>
          simp only [atServer, hpc, hqueued, LineKey.ofThread, onWire, List.countP_nil,
            List.countP_cons]
          omega
      | @addTask m hpc =>
          have hone : [SrvTask.srvMsgProcessTask m].countP k.ofSrvTask = [m].countP k.of := by
            rw [List.countP_singleton, List.countP_singleton, LineKey.ofSrvTask]
          simp only [atServer, hpc, LineKey.ofThread, onWire, List.countP_nil, List.countP_append,
            hone]
          omega

/-- A datagram that a worker receives is in its hands. -/
theorem atServer_receive (k : LineKey) (s : ChatServer) (addr : SockaddrIn) (m : LcMsg) :
    atServer k (s.receive addr m) = atServer k s + [m].countP k.of := by
  have hhands : (recvTask m addr).toList.countP k.ofSrvTask = [m].countP k.of := by
    unfold recvTask
    by_cases hsave : IsSaveCliInfo m
    · rw [if_pos hsave, List.countP_singleton, not_of_saveCliInfo hsave.1]
      rfl
    · rw [if_neg hsave]
      by_cases hdata : IsDataMsg m
      · rw [if_pos hdata, List.countP_singleton]
        exact List.countP_singleton
      · rw [if_neg hdata, List.countP_singleton, of_eq_false hdata]
        rfl
  simp only [ChatServer.receive, rxBuf_wholeChunk, atServer, List.countP_append, hhands]
  omega

end Server

/-! ## 4. Everywhere -/

section Balance

variable (k : LineKey)

theorem onWire_append (w w' : List (SockaddrIn × LcMsg)) :
    onWire k (w ++ w') = onWire k w + onWire k w' := List.countP_append

theorem onWire_arrive {wire rest : List (SockaddrIn × LcMsg)} {n : Nat} {addr : SockaddrIn}
    {m : LcMsg} (h : arrive wire n = some ((addr, m), rest)) :
    onWire k wire = onWire k rest + [m].countP k.of := by
  rw [onWire, (perm_of_arrive h).countP_eq, ← List.singleton_append, List.countP_append,
    Nat.add_comm]
  rfl

theorem onWire_lose {wire wire' : List (SockaddrIn × LcMsg)} {n : Nat}
    (h : disturb wire (.lose n) = some wire') :
    onWire k wire' + onWire k wire[n]?.toList = onWire k wire := by
  obtain ⟨⟨⟨addr, m⟩, rest⟩, harrive, rfl⟩ := Option.map_eq_some_iff.mp h
  obtain ⟨c, hc, heq⟩ := Option.map_eq_some_iff.mp harrive
  obtain ⟨rfl, -⟩ := Prod.mk.inj heq
  rw [onWire_arrive k harrive, hc]
  rfl

theorem onWire_double {wire wire' : List (SockaddrIn × LcMsg)} {n : Nat}
    (h : disturb wire (.double n) = some wire') :
    onWire k wire' = onWire k wire + onWire k wire[n]?.toList := by
  obtain ⟨b, hb, rfl⟩ := Option.map_eq_some_iff.mp h
  rw [onWire_append, hb]
  rfl

variable {ι : Type} [Fintype ι] [DecidableEq ι] {p : Parties ι} {u v : ChatSystem ι}

/-- The lines that a step of a client sends and types. -/
theorem held_client {i : ι} {e : ClientEvent} (hstep : chatStep p u (.client i e) = some v) :
    held k v + lost k u (.client i e) + typedCount k p u = held k u + typedCount k p v := by
  obtain ⟨c, hc, rfl⟩ := Option.map_eq_some_iff.mp hstep
  have hclient := atClient_step k hc
  have hsum := sum_update (atClient k) u.clients (Finset.mem_univ i) c
  have hwire : onWire k ((newSent (u.clients i) c).map fun m => (p.addr i, m)) =
      (newSent (u.clients i) c).countP k.of := by
    rw [onWire, List.countP_map]
    rfl
  have htyped : ((typedLine (u.clients i) e).toList.map fun l => (i, l)).countP (k.typedAs p) =
      (typedLine (u.clients i) e).toList.countP fun l => decide (p.lcEndID i = k.src ∧
        l.1 = k.dest ∧ Line.padded l.2 = k.data) := by
    rw [List.countP_map]
    rfl
  simp only [held, lost, typedCount, onWire_append, hwire, List.countP_append, htyped]
  omega

theorem held_arriveClient {i : ι} {n : Nat} (hstep : chatStep p u (.arriveClient i n) = some v) :
    held k v = held k u ∧ v.typed = u.typed := by
  simp only [chatStep, Option.bind_eq_bind, Option.bind_eq_some_iff, Option.pure_def] at hstep
  obtain ⟨⟨⟨addr, m⟩, rest⟩, harrive, hstep⟩ := hstep
  obtain ⟨-, hstep⟩ := Option.ite_none_right_eq_some.mp hstep
  obtain rfl := Option.some.inj hstep
  refine ⟨?_, rfl⟩
  have hwire := onWire_arrive k harrive
  have hsum := sum_update (atClient k) u.clients (Finset.mem_univ i) ((u.clients i).receive m)
  have hclient : atClient k ((u.clients i).receive m) =
      atClient k (u.clients i) + [m].countP k.of := by
    have htasks : ((u.clients i).receive m).client.tasks =
        (u.clients i).client.tasks ++ [ClientTask.ProcessServerMsg m] := by
      show _ ++ [ClientTask.ProcessServerMsg ((u.clients i).client.RxBuf.recv (wholeChunk m))] = _
      rw [Buf.recv_of_whole _ (whole_wholeChunk m)]
    have hshown : messages ((u.clients i).receive m).client = messages (u.clients i).client := rfl
    rw [atClient, atClient, htasks, hshown, List.countP_append, countP_ofTask_process]
    omega
  simp only [held]
  omega

/-- What there is of a line changes with what is typed, lost and doubled only. -/
theorem held_step {e : ChatEvent ι} (hu : ChatInv p u) (hstep : chatStep p u e = some v) :
    held k v + lost k u e + typedCount k p u =
      held k u + doubled k u e + typedCount k p v := by
  cases e with
  | client i e => exact held_client k hstep
  | arriveClient i n =>
      obtain ⟨hheld, htyped⟩ := held_arriveClient k hstep
      simp only [lost, doubled, typedCount, hheld, htyped]
  | server e =>
      obtain ⟨⟨t, sent⟩, hsrv, rfl⟩ := Option.map_eq_some_iff.mp hstep
      have hserver := atServer_step k hu.server hsrv
      simp only [lost, doubled, typedCount, held, onWire_append]
      omega
  | arriveServer n =>
      obtain ⟨-, hstep⟩ := Option.ite_none_left_eq_some.mp hstep
      simp only [Option.bind_eq_bind, Option.bind_eq_some_iff, Option.pure_def] at hstep
      obtain ⟨⟨⟨addr, m⟩, rest⟩, harrive, hstep⟩ := hstep
      obtain rfl := Option.some.inj hstep
      have hwire := onWire_arrive k harrive
      have hserver := atServer_receive k u.srv addr m
      simp only [lost, doubled, typedCount, held]
      omega
  | disturbToServer d =>
      obtain ⟨wire, hwire, rfl⟩ := Option.map_eq_some_iff.mp hstep
      cases d with
      | lose n =>
          have hlose := onWire_lose k hwire
          simp only [held, lost, doubled, typedCount]
          omega
      | double n =>
          have hdouble := onWire_double k hwire
          simp only [held, lost, doubled, typedCount]
          omega
  | disturbToClients d =>
      obtain ⟨wire, hwire, rfl⟩ := Option.map_eq_some_iff.mp hstep
      cases d with
      | lose n =>
          have hlose := onWire_lose k hwire
          simp only [held, lost, doubled, typedCount]
          omega
      | double n =>
          have hdouble := onWire_double k hwire
          simp only [held, lost, doubled, typedCount]
          omega

theorem conserved {RxBuf : ι → LcMsg} {evs : List (ChatEvent ι)}
    (hrun : exec (chatStep p) (newChatSystem RxBuf) evs = some u) :
    held k u + total (chatStep p) (lost k) (newChatSystem RxBuf) evs =
      typedCount k p u + total (chatStep p) (doubled k) (newChatSystem RxBuf) evs := by
  have hnothing : held k (newChatSystem RxBuf) = 0 := by
    simp only [held, Nat.add_eq_zero_iff, Finset.sum_eq_zero_iff]
    exact ⟨⟨⟨fun _ _ => rfl, rfl⟩, rfl⟩, rfl⟩
  have hnone : typedCount k p (newChatSystem RxBuf) = 0 := rfl
  have hstep : ∀ s e t, ChatInv p s → chatStep p s e = some t →
      held k t + lost k s e + typedCount k p s = held k s + doubled k s e + typedCount k p t :=
    fun _ _ _ hs ht => held_step k hs ht
  have hbalance := @balance _ _ (chatStep p) _ _ _ _ _ (fun _ _ _ hs ht => chatStep_inv hs ht)
    hstep _ _ _ (newChatSystem_inv RxBuf) hrun
  rw [hnothing, hnone, Nat.add_zero, Nat.zero_add] at hbalance
  rw [hbalance, Nat.add_comm]

/-- In every run, what there is of a line and what got lost of it is what was typed and what
    was doubled. -/
theorem chat_lines_conserved (p : Parties ι) (RxBuf : ι → LcMsg)
    (evs : List (ChatEvent ι)) (u : ChatSystem ι)
    (hrun : exec (chatStep p) (newChatSystem RxBuf) evs = some u) :
    held k u + total (chatStep p) (lost k) (newChatSystem RxBuf) evs =
      typedCount k p u + total (chatStep p) (doubled k) (newChatSystem RxBuf) evs :=
  conserved k hrun

/-- How often such a line is on a screen. -/
def shownCount (u : ChatSystem ι) : Nat :=
  (∑ i, (messages (u.clients i).client).countP k.of) + u.srv.shown.countP k.of

omit [DecidableEq ι] in
theorem shownCount_le_held (u : ChatSystem ι) : shownCount k u ≤ held k u := by
  have hclients : ∑ i, (messages (u.clients i).client).countP k.of ≤
      ∑ i, atClient k (u.clients i) :=
    Finset.sum_le_sum fun i _ => Nat.le_add_left _ _
  have hserver : u.srv.shown.countP k.of ≤ atServer k u.srv := Nat.le_add_left _ _
  unfold shownCount held
  omega

/-- As long as a line is not doubled on a wire, the screens of all clients and of the server
    show it no more often than it was typed; and if none is lost either, all that were typed
    are on a screen or on their way. -/
theorem chat_lines_at_most_once (p : Parties ι) (RxBuf : ι → LcMsg)
    (evs : List (ChatEvent ι)) (u : ChatSystem ι)
    (hrun : exec (chatStep p) (newChatSystem RxBuf) evs = some u)
    (hdoubled : Along (chatStep p) (fun u e => doubled k u e = 0)
      (newChatSystem RxBuf) evs) :
    shownCount k u ≤ typedCount k p u ∧
      (Along (chatStep p) (fun u e => lost k u e = 0) (newChatSystem RxBuf) evs →
        held k u = typedCount k p u) := by
  have hbalance := conserved k hrun
  rw [total_eq_zero hdoubled, Nat.add_zero] at hbalance
  constructor
  · calc
      shownCount k u ≤ held k u := shownCount_le_held k u
      _ ≤ typedCount k p u := by
        rw [← hbalance]
        exact Nat.le_add_right _ _
  · intro hlost
    rw [total_eq_zero hlost, Nat.add_zero] at hbalance
    exact hbalance

end Balance

/-- The line of the first client in `lineShown`. -/
def helloKey : LineKey := ⟨7, 8, Line.padded hello⟩

theorem chat_lines_conserved_lineShown :
    ∃ u, exec (chatStep twoParties) chatStart lineShown = some u ∧
      held helloKey u + total (chatStep twoParties) (lost helloKey) chatStart lineShown = 1 := by
  have hrun : (exec (chatStep twoParties) chatStart lineShown).map
      (fun u => typedCount helloKey twoParties u) = some 1 := by
    decide +kernel
  have hdoubled : total (chatStep twoParties) (doubled helloKey) chatStart lineShown = 0 :=
    total_eq_zero (by decide +kernel)
  obtain ⟨u, hu, htyped⟩ := Option.map_eq_some_iff.mp hrun
  have hbalance := chat_lines_conserved helloKey twoParties _ _ u hu
  refine ⟨u, hu, ?_⟩
  calc
    _ = typedCount helloKey twoParties u +
        total (chatStep twoParties) (doubled helloKey) chatStart lineShown := hbalance
    _ = 1 := by rw [htyped, hdoubled]

theorem chat_lines_at_most_once_lineShown :
    ∃ u, exec (chatStep twoParties) chatStart lineShown = some u ∧ held helloKey u = 1 := by
  have hrun : (exec (chatStep twoParties) chatStart lineShown).map
      (fun u => typedCount helloKey twoParties u) = some 1 := by
    decide +kernel
  obtain ⟨u, hu, htyped⟩ := Option.map_eq_some_iff.mp hrun
  have hall := (chat_lines_at_most_once helloKey twoParties _ _ u hu (by decide +kernel)).2
    (by decide +kernel)
  exact ⟨u, hu, hall.trans htyped⟩

end SocketPractice.SocketUdp.Chat
