import Mathlib.Data.Fintype.Defs
import SocketPractice.Lib.Network
import SocketPractice.SocketUdp.ChatClient
import SocketPractice.SocketUdp.ChatServer
import SocketPractice.SocketUdp.CheckSums

/-!
# Clients, server and what is between them

Any number of clients run against one server, whose workers and whose thread take their steps
in any order.  What the pool of a client sends goes onto the wire to the server, and what the
server sends goes onto the wire to the clients.  Both wires lose datagrams, double them and
let them overtake each other.

Three things hold in every run of the whole, as far as it goes without a data race at the
server.  A client that has come to the menu is registered with the server, under its own
address.  A message that a client or the server shows was typed, line for line, by the client
whose number it bears, and for the one who shows it.  And as long as lines are for clients
that have come so far, and for those whose messages one has been shown, the server survives.
-/

namespace SocketPractice.SocketUdp.Chat

open Lib.Bytes Lib.Keyed Lib.Links Lib.Network Lib.Runs Common
open ClientInterface (Client)

/-! ## 1. The whole -/

/-- The numbers of the clients, and the addresses that their sockets are bound to; no two
    sockets share one. -/
structure Parties (ι : Type) where
  lcEndID : ι → EndID
  addr : ι → SockaddrIn
  addr_inj : Function.Injective addr

/-- The clients, the server, the two wires (with where a datagram is from, and where it is
    to), and the lines that were typed, each with who typed it and for whom. -/
structure ChatSystem (ι : Type) where
  clients : ι → ChatClient
  srv : ChatServer
  toServer : List (SockaddrIn × LcMsg)
  toClients : List (SockaddrIn × LcMsg)
  typed : List (ι × EndID × Line)

inductive ChatEvent (ι : Type) where
  | client (i : ι) (e : ClientEvent)
  | arriveClient (i : ι) (k : Nat)
  | server (e : SrvEvent)
  | arriveServer (k : Nat)
  | disturbToServer (d : Disturbance)
  | disturbToClients (d : Disturbance)

/-- What the client sent in the step to `t`. -/
def newSent (c t : ChatClient) : List LcMsg := t.client.sent.drop c.client.sent.length

section System

variable {ι : Type}

/-- A round of `RecvServerMsgThread` with a datagram. -/
def ChatClient.receive (c : ChatClient) (m : LcMsg) : ChatClient :=
  { c with client := ClientInterface.recvServerMsg c.client (.data (wholeChunk m)) }

/-- The `recvfrom` of a worker, with a datagram. -/
def ChatServer.receive (s : ChatServer) (addr : SockaddrIn) (m : LcMsg) : ChatServer :=
  { s with tasks := s.tasks ++ (recvTask (rxBuf (wholeChunk m)) addr).toList }

variable [DecidableEq ι]

/-- A datagram arrives whole, at the client whose address it bears.  A `recvfrom` that fails
    changes nothing, and a `sendto` of the server that fails is one whose datagram gets
    lost. -/
def chatStep (p : Parties ι) (u : ChatSystem ι) : ChatEvent ι → Option (ChatSystem ι)
  | .client i e =>
      (clientStep (p.lcEndID i) (u.clients i) e).map fun c =>
        { u with
          clients := Function.update u.clients i c
          toServer := u.toServer ++ (newSent (u.clients i) c).map fun m => (p.addr i, m)
          typed := u.typed ++ (typedLine (u.clients i) e).toList.map fun l => (i, l) }
  | .arriveClient i k => do
      let ((addr, m), rest) ← arrive u.toClients k
      if addr = p.addr i then
        return { u with
          clients := Function.update u.clients i ((u.clients i).receive m)
          toClients := rest }
      else none
  | .server e =>
      (srvStep u.srv e).map fun (srv, sent) =>
        { u with srv := srv, toClients := u.toClients ++ sent }
  | .arriveServer k =>
      if u.srv.faulted = true then none
      else do
        let ((addr, m), rest) ← arrive u.toServer k
        return { u with srv := u.srv.receive addr m, toServer := rest }
  | .disturbToServer d => (disturb u.toServer d).map fun wire => { u with toServer := wire }
  | .disturbToClients d => (disturb u.toClients d).map fun wire => { u with toClients := wire }

/-- All start; `RxBuf` is what `malloc` found. -/
def newChatSystem (RxBuf : ι → LcMsg) : ChatSystem ι where
  clients i := { client := ClientInterface.start (RxBuf i), typing := none }
  srv := newChatServer
  toServer := []
  toClients := []
  typed := []

end System

/-! ## 2. What is true of a message wherever it is -/

section Facts

variable {ι : Type} (p : Parties ι)

/-- The message carries a line that was typed, from the client who typed it to the one it was
    typed for. -/
def Typed (typed : List (ι × EndID × Line)) (m : LcMsg) : Prop :=
  ∃ i dest line, (i, dest, line) ∈ typed ∧
    Carries (p.lcEndID i) dest line (.SendMsgBufToServer m)

/-- The server has entered this client with this client's address. -/
def Registered (s : ChatServer) (i : ι) : Prop :=
  (⟨p.lcEndID i, p.addr i⟩ : ClisInfoListNode) ∈ s.entered

/-- What is sent to a client: an answer to its registration, or a typed line for it. -/
def ForClient (u : ChatSystem ι) (i : ι) (m : LcMsg) : Prop :=
  (LcMsg.msgType m = MsgType.SaveCliInfo.code ∧ Registered p u.srv i) ∨
    (Typed p u.typed m ∧ LcMsg.destEndID m = p.lcEndID i)

/-- What a client sends: its registration, or a line that it typed. -/
def FromClient (u : ChatSystem ι) (i : ι) (m : LcMsg) : Prop :=
  IsRegistration (p.lcEndID i) m ∨ Typed p u.typed m

def TaskOk (u : ChatSystem ι) (i : ι) : ClientTask → Prop
  | .SendMsgBufToServer m => FromClient p u i m
  | .ProcessServerMsg m => ForClient p u i m

/-- What the workers of the server have in their hands. -/
def SrvTaskOk (u : ChatSystem ι) : SrvTask → Prop
  | .addNode _ cliID addr => ∃ i, cliID = p.lcEndID i ∧ addr = p.addr i
  | .answer cliID addr => ∃ i, cliID = p.lcEndID i ∧ addr = p.addr i ∧ Registered p u.srv i
  | .enQueue _ m => Typed p u.typed m
  | .srvMsgProcessTask m => Typed p u.typed m
  | .getNode _ m => Typed p u.typed m ∧ LcMsg.destEndID m ≠ SETVER_ENDID
  | .copyNode _ m => Typed p u.typed m
  | .sendto addr m => Typed p u.typed m ∧ ∃ i, addr = p.addr i ∧ LcMsg.destEndID m = p.lcEndID i

structure ClientOk (u : ChatSystem ι) (i : ι) (c : ChatClient) : Prop where
  started : Started c
  tasks : ∀ task ∈ c.client.tasks, TaskOk p u i task
  flag : c.client.boolInitCliInfo = true → Registered p u.srv i
  shown : ∀ m ∈ messages c.client, Typed p u.typed m ∧ LcMsg.destEndID m = p.lcEndID i

structure ChatInv (u : ChatSystem ι) : Prop where
  server : SrvInv u.srv
  clients : ∀ i, ClientOk p u i (u.clients i)
  toServer : ∀ addr m, (addr, m) ∈ u.toServer → ∃ i, addr = p.addr i ∧ FromClient p u i m
  tasks : ∀ task ∈ u.srv.tasks, SrvTaskOk p u task
  registry : ∀ v ∈ u.srv.entered, ∃ i, v = ⟨p.lcEndID i, p.addr i⟩
  queued : ∀ m ∈ u.srv.queued, Typed p u.typed m
  thread : ∀ m, u.srv.msgProcess = .addTask m → Typed p u.typed m
  toClients : ∀ addr m, (addr, m) ∈ u.toClients → ∃ i, addr = p.addr i ∧ ForClient p u i m
  displayed : ∀ m ∈ u.srv.shown, Typed p u.typed m ∧ LcMsg.destEndID m = SETVER_ENDID
  authors : ∀ i dest line, (i, dest, line) ∈ u.typed → Registered p u.srv i

/-- More lines were typed and more clients entered. -/
structure Grows (u v : ChatSystem ι) : Prop where
  typed : ∀ l ∈ u.typed, l ∈ v.typed
  entered : ∀ n ∈ u.srv.entered, n ∈ v.srv.entered

section Grows

variable {p} {u v : ChatSystem ι} {i : ι}

theorem Typed.mono (hg : Grows u v) {m : LcMsg} (h : Typed p u.typed m) : Typed p v.typed m := by
  obtain ⟨i, dest, line, htyped, hcarries⟩ := h
  exact ⟨i, dest, line, hg.typed _ htyped, hcarries⟩

theorem Registered.mono (hg : Grows u v) (h : Registered p u.srv i) : Registered p v.srv i :=
  hg.entered _ h

theorem Grows.of_eq (htyped : v.typed = u.typed) (hentered : v.srv.entered = u.srv.entered) :
    Grows u v :=
  ⟨fun _ h => htyped ▸ h, fun _ h => hentered ▸ h⟩

theorem ForClient.mono (hg : Grows u v) {m : LcMsg} (h : ForClient p u i m) :
    ForClient p v i m := by
  rcases h with ⟨htype, hreg⟩ | ⟨htyped, hdest⟩
  · exact .inl ⟨htype, hreg.mono hg⟩
  · exact .inr ⟨htyped.mono hg, hdest⟩

theorem FromClient.mono (hg : Grows u v) {m : LcMsg} (h : FromClient p u i m) :
    FromClient p v i m := by
  rcases h with hreg | htyped
  · exact .inl hreg
  · exact .inr (htyped.mono hg)

theorem TaskOk.mono (hg : Grows u v) {task : ClientTask} (h : TaskOk p u i task) :
    TaskOk p v i task := by
  cases task with
  | ProcessServerMsg m => exact ForClient.mono hg h
  | SendMsgBufToServer m => exact FromClient.mono hg h

theorem SrvTaskOk.mono (hg : Grows u v) {task : SrvTask} (h : SrvTaskOk p u task) :
    SrvTaskOk p v task := by
  cases task with
  | addNode pc cliID addr => exact h
  | answer cliID addr =>
      obtain ⟨i, hid, haddr, hreg⟩ := h
      exact ⟨i, hid, haddr, hreg.mono hg⟩
  | enQueue pc m => exact Typed.mono hg h
  | srvMsgProcessTask m => exact Typed.mono hg h
  | getNode pc m => exact ⟨h.1.mono hg, h.2⟩
  | copyNode listNode m => exact Typed.mono hg h
  | sendto addr m => exact ⟨h.1.mono hg, h.2⟩

theorem ClientOk.mono (hg : Grows u v) {c : ChatClient} (h : ClientOk p u i c) :
    ClientOk p v i c where
  started := h.started
  tasks task htask := (h.tasks task htask).mono hg
  flag hflag := (h.flag hflag).mono hg
  shown m hm := ⟨(h.shown m hm).1.mono hg, (h.shown m hm).2⟩

end Grows

end Facts

/-! ## 3. What the steps preserve -/

section Steps

variable {ι : Type} {p : Parties ι} {u v : ChatSystem ι} {i : ι}

theorem Typed.msgType {typed : List (ι × EndID × Line)} {m : LcMsg} (h : Typed p typed m) :
    LcMsg.msgType m = MsgType.DataMsg.code := by
  obtain ⟨i, dest, line, -, hcarries⟩ := h
  exact hcarries.1

theorem newSent_eq {c t : ChatClient} {new : List LcMsg}
    (h : t.client.sent = c.client.sent ++ new) : newSent c t = new := by
  rw [newSent, h, List.drop_left]

/-- Carrying out a task that is as it should be. -/
theorem ClientOk.runTask {c : ChatClient} (h : ClientOk p u i c) {k : Nat} {sendto : Bool}
    {task : ClientTask} (htask : c.client.tasks[k]? = some task) {t : ChatClient}
    (hstarted : Started t)
    (ht : t.client = ClientInterface.runTask { c.client with tasks := c.client.tasks.eraseIdx k }
      sendto task) :
    ClientOk p u i t ∧ ∀ m ∈ newSent c t, FromClient p u i m := by
  have hok := h.tasks task (List.mem_of_getElem? htask)
  have hrest : ∀ task ∈ c.client.tasks.eraseIdx k, TaskOk p u i task :=
    fun task hmem => h.tasks task (List.mem_of_mem_eraseIdx hmem)
  cases task with
  | SendMsgBufToServer m =>
      cases sendto with
      | false =>
          have hsent : newSent c t = [] := newSent_eq (by rw [ht]; exact (List.append_nil _).symm)
          refine ⟨⟨hstarted, ?_, ?_, ?_⟩, by simp [hsent]⟩
          · rw [ht]
            exact hrest
          · rw [ht]
            exact h.flag
          · rw [ht]
            exact h.shown
      | true =>
          have hsent : newSent c t = [setCheckSum m] := newSent_eq (by rw [ht]; rfl)
          refine ⟨⟨hstarted, ?_, ?_, ?_⟩, ?_⟩
          · rw [ht]
            exact hrest
          · rw [ht]
            exact h.flag
          · rw [ht]
            exact h.shown
          · intro m' hm'
            rw [hsent] at hm'
            rw [List.mem_singleton.mp hm']
            rcases hok with hreg | ⟨j, dest, line, htyped, hcarries⟩
            · exact .inl hreg.setCheckSum
            · exact .inr ⟨j, dest, line, htyped, carries_setCheckSum hcarries⟩
  | ProcessServerMsg m =>
      rcases hok with ⟨htype, hreg⟩ | ⟨htyped, hdest⟩
      · rw [ClientInterface.runTask, processServerMsg_ack htype] at ht
        have hsent : newSent c t = [] := newSent_eq (by rw [ht]; exact (List.append_nil _).symm)
        refine ⟨⟨hstarted, ?_, fun _ => hreg, ?_⟩, by simp [hsent]⟩
        · rw [ht]
          exact hrest
        · rw [ht]
          exact h.shown
      · rw [ClientInterface.runTask, processServerMsg_data htyped.msgType] at ht
        have hsent : newSent c t = [] := newSent_eq (by rw [ht]; exact (List.append_nil _).symm)
        refine ⟨⟨hstarted, ?_, ?_, ?_⟩, by simp [hsent]⟩
        · rw [ht]
          exact hrest
        · rw [ht]
          exact h.flag
        · intro m' hm'
          rw [ht, messages_show] at hm'
          rcases List.mem_append.mp hm' with hm' | hm'
          · exact h.shown m' hm'
          · rw [List.mem_singleton.mp hm']
            exact ⟨htyped, hdest⟩

theorem ClientOk.step {c t : ChatClient} {e : ClientEvent} (h : ClientOk p u i c)
    (hstep : clientStep (p.lcEndID i) c e = some t) (hg : Grows u v)
    (htyped : ∀ l ∈ (typedLine c e).toList, (i, l) ∈ v.typed) :
    ClientOk p v i t ∧ ∀ m ∈ newSent c t, FromClient p v i m := by
  have hstarted := h.started.step hstep
  have h := h.mono hg
  rcases clientStep_cases hstep with
    ⟨-, hsame, new, htasks, hadds⟩ | ⟨k, sendto, task, -, htask, ht⟩
  · have hsent : newSent c t = [] :=
      newSent_eq (hsame.sent.trans (List.append_nil _).symm)
    refine ⟨⟨hstarted, ?_, ?_, ?_⟩, by simp [hsent]⟩
    · rw [htasks]
      intro task htask
      rcases List.mem_append.mp htask with hold | hnew
      · exact h.tasks task hold
      · unfold Adds at hadds
        split at hadds
        · rename_i dest line hline
          obtain ⟨m, rfl, hcarries⟩ := hadds
          rw [List.mem_singleton.mp hnew]
          exact .inr ⟨i, dest, line, htyped _ (by simp [hline]), hcarries⟩
        · rcases hadds with rfl | ⟨m, rfl, hreg⟩
          · cases hnew
          · rw [List.mem_singleton.mp hnew]
            exact .inl hreg
    · rw [hsame.flag]
      exact h.flag
    · rw [hsame.messages]
      exact h.shown
  · exact h.runTask htask hstarted ht

/-! The server receives datagrams, and its workers and its thread take steps. -/

theorem rxBuf_wholeChunk (m : LcMsg) : rxBuf (wholeChunk m) = m :=
  Buf.recv_of_whole _ (whole_wholeChunk m)

/-- What the server has to see to in a step to `t`, in which it sends `sent`. -/
theorem ChatInv.of_server (hu : ChatInv p u) {t : ChatServer} {sent : List (SockaddrIn × LcMsg)}
    (hinv : SrvInv t) (hentered : ∀ v ∈ u.srv.entered, v ∈ t.entered)
    (htasks : ∀ task ∈ t.tasks, SrvTaskOk p { u with srv := t } task)
    (hregistry : ∀ v ∈ t.entered, ∃ i, v = ⟨p.lcEndID i, p.addr i⟩)
    (hqueued : ∀ m ∈ t.queued, Typed p u.typed m)
    (hthread : ∀ m, t.msgProcess = .addTask m → Typed p u.typed m)
    (hsent : ∀ addr m, (addr, m) ∈ sent →
      ∃ i, addr = p.addr i ∧ ForClient p { u with srv := t } i m)
    (hshown : ∀ m ∈ t.shown, Typed p u.typed m ∧ LcMsg.destEndID m = SETVER_ENDID) :
    ChatInv p { u with srv := t, toClients := u.toClients ++ sent } := by
  have hg : Grows u { u with srv := t, toClients := u.toClients ++ sent } :=
    ⟨fun _ h => h, hentered⟩
  constructor
  · exact hinv
  · exact fun i => (hu.clients i).mono hg
  · intro addr m hm
    obtain ⟨i, haddr, hfrom⟩ := hu.toServer addr m hm
    exact ⟨i, haddr, hfrom.mono hg⟩
  · exact fun task htask => (htasks task htask).mono (.of_eq rfl rfl)
  · exact hregistry
  · exact hqueued
  · exact hthread
  · intro addr m hm
    rcases List.mem_append.mp hm with hold | hnew
    · obtain ⟨i, haddr, hfor⟩ := hu.toClients addr m hold
      exact ⟨i, haddr, hfor.mono hg⟩
    · exact hsent addr m hnew
  · exact hshown
  · exact fun i dest line htyped => (hu.authors i dest line htyped).mono hg

/-- What a worker does with a task is as it should be. -/
structure DoesOk (p : Parties ι) (u : ChatSystem ι) (t : ChatServer) (rest : Option SrvTask)
    (sent : List (SockaddrIn × LcMsg)) : Prop where
  rest : ∀ task, rest = some task → SrvTaskOk p { u with srv := t } task
  registry : ∀ v ∈ t.entered, ∃ i, v = ⟨p.lcEndID i, p.addr i⟩
  queued : ∀ m ∈ t.queued, Typed p u.typed m
  shown : ∀ m ∈ t.shown, Typed p u.typed m ∧ LcMsg.destEndID m = SETVER_ENDID
  sent : ∀ addr m, (addr, m) ∈ sent →
    ∃ i, addr = p.addr i ∧ ForClient p { u with srv := t } i m

/-- A step that lists, queues, shows and sends nothing. -/
theorem ChatInv.doesOk (hu : ChatInv p u) {t : ChatServer} {rest : Option SrvTask}
    (hentered : t.entered = u.srv.entered) (hqueued : t.queued = u.srv.queued)
    (hshown : t.shown = u.srv.shown)
    (hrest : ∀ task, rest = some task → SrvTaskOk p { u with srv := t } task) :
    DoesOk p u t rest [] where
  rest := hrest
  registry := hentered ▸ hu.registry
  queued := hqueued ▸ hu.queued
  shown := hshown ▸ hu.displayed
  sent _ _ h := absurd h List.not_mem_nil

theorem ChatInv.does (hu : ChatInv p u) {s t : ChatServer} {task : SrvTask}
    {rest : Option SrvTask} {sent : List (SockaddrIn × LcMsg)} (h : Does s task t rest sent)
    (hentered : s.entered = u.srv.entered) (hqueued : s.queued = u.srv.queued)
    (hshown : s.shown = u.srv.shown) (hok : SrvTaskOk p u task) : DoesOk p u t rest sent := by
  have hregistry : ∀ v ∈ s.entered, ∃ i, v = ⟨p.lcEndID i, p.addr i⟩ := hentered ▸ hu.registry
  have hqueue : ∀ m ∈ s.queued, Typed p u.typed m := hqueued ▸ hu.queued
  have hdisplayed : ∀ m ∈ s.shown, Typed p u.typed m ∧ LcMsg.destEndID m = SETVER_ENDID :=
    hshown ▸ hu.displayed
  cases h with
  | addInit hpc =>
      refine hu.doesOk hentered hqueued hshown ?_
      rintro _ ⟨⟩
      exact hok
  | add =>
      obtain ⟨i, rfl, rfl⟩ := hok
      refine ⟨?_, ?_, hqueue, hdisplayed, fun _ _ h => absurd h List.not_mem_nil⟩
      · rintro _ ⟨⟩
        exact ⟨i, rfl, rfl, List.mem_cons_self⟩
      · intro v hv
        rcases List.mem_cons.mp hv with rfl | hv
        · exact ⟨i, rfl⟩
        · exact hregistry v hv
  | answer =>
      obtain ⟨i, rfl, rfl, hreg⟩ := hok
      refine ⟨fun _ h => (by cases h), hregistry, hqueue, hdisplayed, ?_⟩
      intro addr m hm
      obtain ⟨rfl, rfl⟩ := Prod.mk.inj (List.mem_singleton.mp hm)
      refine ⟨i, rfl, .inl ⟨msgType_header _ _ _ _, ?_⟩⟩
      show _ ∈ s.entered
      rw [hentered]
      exact hreg
  | queueInit hpc =>
      refine hu.doesOk hentered hqueued hshown ?_
      rintro _ ⟨⟩
      exact hok
  | enQueue =>
      refine ⟨fun _ h => (by cases h), hregistry, ?_, hdisplayed,
        fun _ _ h => absurd h List.not_mem_nil⟩
      intro m hm
      rcases List.mem_append.mp hm with hold | hnew
      · exact hqueue m hold
      · rw [List.mem_singleton.mp hnew]
        exact hok
  | display hdata hdest =>
      refine ⟨fun _ h => (by cases h), hregistry, hqueue, ?_,
        fun _ _ h => absurd h List.not_mem_nil⟩
      intro m hm
      rcases List.mem_append.mp hm with hold | hnew
      · exact hdisplayed m hold
      · rw [List.mem_singleton.mp hnew]
        exact ⟨hok, hdest⟩
  | search hdata hdest =>
      refine hu.doesOk hentered hqueued hshown ?_
      rintro _ ⟨⟩
      exact ⟨hok, hdest⟩
  | drop hdata =>
      exact hu.doesOk hentered hqueued hshown fun _ h => by cases h
  | getInit hpc =>
      refine hu.doesOk hentered hqueued hshown ?_
      rintro _ ⟨⟩
      exact hok
  | get hfirst hnone =>
      refine hu.doesOk hentered hqueued hshown ?_
      rintro _ ⟨⟩
      exact hok.1
  | copy hmem hid =>
      refine hu.doesOk hentered hqueued hshown ?_
      rintro _ ⟨⟩
      obtain ⟨i, rfl⟩ := hregistry _ hmem
      exact ⟨hok, i, rfl, hid.symm⟩
  | null =>
      refine hu.doesOk hentered hqueued hshown ?_
      rintro _ ⟨⟩
      exact hok
  | sendto =>
      obtain ⟨htyped, i, rfl, hdest⟩ := hok
      refine ⟨fun _ h => (by cases h), hregistry, hqueue, hdisplayed, ?_⟩
      intro addr m hm
      obtain ⟨rfl, rfl⟩ := Prod.mk.inj (List.mem_singleton.mp hm)
      exact ⟨i, rfl, .inr ⟨htyped, hdest⟩⟩

theorem ChatInv.moves (hu : ChatInv p u) {t : ChatServer} (hinv : SrvInv t)
    (h : Moves u.srv t) : ChatInv p { u with srv := t, toClients := u.toClients ++ [] } := by
  have hold : ∀ task ∈ u.srv.tasks, ∀ t : ChatServer, t.entered = u.srv.entered →
      SrvTaskOk p { u with srv := t } task := by
    intro task htask t heq
    have hg : Grows u { u with srv := t } := .of_eq rfl heq
    exact (hu.tasks task htask).mono hg
  cases h with
  | wait hpc =>
      exact hu.of_server hinv (fun _ h => h) (fun task htask => hold task htask _ rfl) hu.registry
        hu.queued (fun _ h => by cases h) (fun _ _ h => absurd h List.not_mem_nil) hu.displayed
  | take hpc hqueued =>
      refine hu.of_server hinv (fun _ h => h) (fun task htask => hold task htask _ rfl) hu.registry
        ?_ ?_ (fun _ _ h => absurd h List.not_mem_nil) hu.displayed
      · exact fun m hm => hu.queued m (hqueued ▸ List.mem_cons_of_mem _ hm)
      · intro m hm
        obtain rfl := MsgProcessPc.addTask.inj hm
        exact hu.queued _ (hqueued ▸ List.mem_cons_self)
  | addTask hpc =>
      refine hu.of_server hinv (fun _ h => h) ?_ hu.registry hu.queued (fun _ h => by cases h)
        (fun _ _ h => absurd h List.not_mem_nil) hu.displayed
      intro task htask
      rcases List.mem_append.mp htask with htask | hnew
      · exact hold task htask _ rfl
      · rw [List.mem_singleton.mp hnew]
        exact hu.thread _ hpc

theorem ChatInv.srvStep {e : SrvEvent} {t : ChatServer} {sent : List (SockaddrIn × LcMsg)}
    (hu : ChatInv p u) (hstep : Chat.srvStep u.srv e = some (t, sent)) :
    ChatInv p { u with srv := t, toClients := u.toClients ++ sent } := by
  obtain ⟨hinv, -, hcases⟩ := srvStep_cases hu.server hstep
  cases e with
  | work k list node =>
      obtain ⟨task, s', rest, htask, hdoes, rfl⟩ := hcases
      have hok := hu.tasks task (List.mem_of_getElem? htask)
      have hnew := hu.does hdoes rfl rfl rfl hok
      obtain ⟨htasks, hthread, hentered⟩ := hdoes.same
      have hg : Grows u { u with srv := { s' with tasks := s'.tasks ++ rest.toList } } :=
        ⟨fun _ h => h, hentered⟩
      refine hu.of_server hinv hentered ?_ hnew.registry hnew.queued ?_ hnew.sent hnew.shown
      · intro task' htask'
        rcases List.mem_append.mp htask' with hold | hrest
        · rw [htasks] at hold
          exact (hu.tasks task' (List.mem_of_mem_eraseIdx hold)).mono hg
        · exact (hnew.rest task' (Option.mem_toList.mp hrest)).mono (.of_eq rfl rfl)
      · intro m hm
        exact hu.thread m (hthread.symm.trans hm)
  | msgProcess queue =>
      obtain ⟨rfl, hmoves⟩ := hcases
      exact hu.moves hinv hmoves

theorem recvTask_ok {m : LcMsg} (hfrom : FromClient p u i m) {task : SrvTask}
    (h : recvTask m (p.addr i) = some task) :
    SrvTaskOk p u task ∧ task.listPc ≠ some .locked ∧ task.queuePc ≠ some .locked ∧
      ∀ pos m, task ≠ .copyNode pos m := by
  unfold recvTask at h
  split at h
  · rename_i hsave
    obtain rfl := Option.some.inj h
    refine ⟨⟨i, ?_, rfl⟩, by simp [SrvTask.listPc], by simp [SrvTask.queuePc],
      fun _ _ h => by cases h⟩
    rcases hfrom with ⟨-, hsrc, -⟩ | htyped
    · exact hsrc
    · exact absurd htyped.msgType (not_isDataMsg_of_isSaveCliInfo hsave)
  · split at h
    · rename_i hdata
      obtain rfl := Option.some.inj h
      refine ⟨?_, by simp [SrvTask.listPc], by simp [SrvTask.queuePc],
      fun _ _ h => by cases h⟩
      rcases hfrom with ⟨htype, -⟩ | htyped
      · have hcode : MsgType.SaveCliInfo.code = MsgType.DataMsg.code := htype.symm.trans hdata
        exact absurd hcode (by decide)
      · exact htyped
    · cases h

/-- A worker receives a datagram of a client. -/
theorem ChatInv.receive (hu : ChatInv p u) {m : LcMsg} (hfrom : FromClient p u i m) :
    ChatInv p { u with srv := u.srv.receive (p.addr i) m } := by
  have hnew : ∀ task ∈ (u.srv.receive (p.addr i) m).tasks, task ∈ u.srv.tasks ∨
      SrvTaskOk p u task ∧ task.listPc ≠ some .locked ∧ task.queuePc ≠ some .locked ∧
        ∀ pos m, task ≠ .copyNode pos m := by
    intro task htask
    rcases List.mem_append.mp htask with hold | hnew
    · exact .inl hold
    · rw [rxBuf_wholeChunk, Option.mem_toList] at hnew
      exact .inr (recvTask_ok hfrom hnew)
  have hinv : SrvInv (u.srv.receive (p.addr i) m) :=
    { hu.server with
      listMade := fun task htask hlocked => by
        rcases hnew task htask with hold | ⟨-, hne, -⟩
        · exact hu.server.listMade task hold hlocked
        · exact absurd hlocked hne
      queueMade := fun task htask hlocked => by
        rcases hnew task htask with hold | ⟨-, -, hne, -⟩
        · exact hu.server.queueMade task hold hlocked
        · exact absurd hlocked hne
      found := fun pos m' hm => by
        rcases hnew _ hm with hold | ⟨-, -, -, hne⟩
        · exact hu.server.found pos m' hold
        · exact absurd rfl (hne _ _) }
  have hserver := @ChatInv.of_server _ _ _ hu _ [] hinv (fun _ h => h) ?_ hu.registry hu.queued
    hu.thread (fun _ _ h => absurd h List.not_mem_nil) hu.displayed
  · rwa [List.append_nil] at hserver
  · intro task htask
    rcases hnew task htask with hold | ⟨hok, -⟩
    · exact (hu.tasks task hold).mono (.of_eq rfl rfl)
    · exact hok.mono (.of_eq rfl rfl)

/-- Fewer datagrams on the wires. -/
theorem ChatInv.of_wires {toServer toClients : List (SockaddrIn × LcMsg)} (hu : ChatInv p u)
    (hserver : ∀ d ∈ toServer, d ∈ u.toServer) (hclients : ∀ d ∈ toClients, d ∈ u.toClients) :
    ChatInv p { u with toServer := toServer, toClients := toClients } where
  server := hu.server
  clients i := by
    apply (hu.clients i).mono
    exact .of_eq rfl rfl
  toServer addr m hm := hu.toServer addr m (hserver _ hm)
  tasks task htask := (hu.tasks task htask).mono (.of_eq rfl rfl)
  registry := hu.registry
  queued := hu.queued
  thread := hu.thread
  toClients addr m hm := hu.toClients addr m (hclients _ hm)
  displayed := hu.displayed
  authors := hu.authors

variable [DecidableEq ι]

theorem ChatInv.client {e : ClientEvent} (hu : ChatInv p u)
    (hstep : chatStep p u (.client i e) = some v) : ChatInv p v := by
  obtain ⟨c, hc, rfl⟩ := Option.map_eq_some_iff.mp hstep
  have hg : Grows u { u with
      clients := Function.update u.clients i c
      toServer := u.toServer ++ (newSent (u.clients i) c).map fun m => (p.addr i, m)
      typed := u.typed ++ (typedLine (u.clients i) e).toList.map fun l => (i, l) } :=
    ⟨fun _ h => List.mem_append_left _ h, fun _ h => h⟩
  obtain ⟨hclient, hsent⟩ := (hu.clients i).step hc hg
    (fun l hl => List.mem_append_right _ (List.mem_map_of_mem hl))
  constructor
  · exact hu.server
  · intro j
    by_cases hj : j = i
    · subst hj
      show ClientOk p _ j (Function.update u.clients j c j)
      rw [Function.update_self]
      exact hclient
    · show ClientOk p _ j (Function.update u.clients i c j)
      rw [Function.update_of_ne hj]
      exact (hu.clients j).mono hg
  · intro addr m hm
    rcases List.mem_append.mp hm with hold | hnew
    · obtain ⟨j, haddr, hfrom⟩ := hu.toServer addr m hold
      exact ⟨j, haddr, hfrom.mono hg⟩
    · obtain ⟨m', hm', heq⟩ := List.mem_map.mp hnew
      obtain ⟨rfl, rfl⟩ := Prod.mk.inj heq
      exact ⟨i, rfl, hsent m' hm'⟩
  · exact fun task htask => (hu.tasks task htask).mono hg
  · exact hu.registry
  · exact fun m hm => (hu.queued m hm).mono hg
  · exact fun m hm => (hu.thread m hm).mono hg
  · intro addr m hm
    obtain ⟨j, haddr, hfor⟩ := hu.toClients addr m hm
    exact ⟨j, haddr, hfor.mono hg⟩
  · exact fun m hm => ⟨(hu.displayed m hm).1.mono hg, (hu.displayed m hm).2⟩
  · intro j dest line htyped
    rcases List.mem_append.mp htyped with hold | hnew
    · exact (hu.authors j dest line hold).mono hg
    · obtain ⟨l, hl, heq⟩ := List.mem_map.mp hnew
      obtain ⟨rfl, rfl⟩ := Prod.mk.inj heq
      exact ((hu.clients i).flag
        ((hu.clients i).started.flag_of_typedLine (Option.mem_toList.mp hl))).mono hg

theorem ChatInv.arriveClient {k : Nat} (hu : ChatInv p u)
    (hstep : chatStep p u (.arriveClient i k) = some v) : ChatInv p v := by
  simp only [chatStep, Option.bind_eq_bind, Option.bind_eq_some_iff, Option.pure_def] at hstep
  obtain ⟨⟨⟨addr, m⟩, rest⟩, harrive, hstep⟩ := hstep
  obtain ⟨haddr, hstep⟩ := Option.ite_none_right_eq_some.mp hstep
  obtain rfl := Option.some.inj hstep
  obtain ⟨hm, hrest⟩ := mem_of_arrive harrive
  obtain ⟨j, hj, hfor⟩ := hu.toClients addr m hm
  obtain rfl : j = i := p.addr_inj (hj.symm.trans haddr)
  have hwires := hu.of_wires (fun _ h => h) hrest
  have hc := hu.clients j
  refine ⟨hwires.server, ?_, hwires.toServer, ?_, hwires.registry, hwires.queued,
    hwires.thread, hwires.toClients, hwires.displayed, hwires.authors⟩
  intro i
  by_cases hi : i = j
  · subst hi
    simp only [Function.update_self]
    refine ⟨⟨hc.started.copy, hc.started.past, hc.started.typing⟩, ?_, hc.flag, hc.shown⟩
    intro task htask
    rcases List.mem_append.mp htask with hold | hnew
    · exact hc.tasks task hold
    · rw [List.mem_singleton.mp hnew, Buf.recv_of_whole _ (whole_wholeChunk m)]
      exact hfor.mono (.of_eq rfl rfl)
  · simp only [Function.update_of_ne hi]
    apply (hwires.clients i).mono
    exact .of_eq rfl rfl
  · exact fun task htask => (hwires.tasks task htask).mono (.of_eq rfl rfl)

theorem ChatInv.arriveServer {k : Nat} (hu : ChatInv p u)
    (hstep : chatStep p u (.arriveServer k) = some v) : ChatInv p v := by
  obtain ⟨-, hstep⟩ := Option.ite_none_left_eq_some.mp hstep
  simp only [Option.bind_eq_bind, Option.bind_eq_some_iff, Option.pure_def] at hstep
  obtain ⟨⟨⟨addr, m⟩, rest⟩, harrive, hstep⟩ := hstep
  obtain rfl := Option.some.inj hstep
  obtain ⟨hm, hrest⟩ := mem_of_arrive harrive
  obtain ⟨i, rfl, hfrom⟩ := hu.toServer addr m hm
  exact (hu.receive hfrom).of_wires hrest (fun _ h => h)

theorem chatStep_inv {e : ChatEvent ι} (hu : ChatInv p u) (hstep : chatStep p u e = some v) :
    ChatInv p v := by
  cases e with
  | client i e => exact hu.client hstep
  | arriveClient i k => exact hu.arriveClient hstep
  | server e =>
      obtain ⟨⟨t, sent⟩, hsrv, rfl⟩ := Option.map_eq_some_iff.mp hstep
      exact hu.srvStep hsrv
  | arriveServer k => exact hu.arriveServer hstep
  | disturbToServer d =>
      obtain ⟨wire, hwire, rfl⟩ := Option.map_eq_some_iff.mp hstep
      exact hu.of_wires (mem_of_disturb hwire) (fun _ h => h)
  | disturbToClients d =>
      obtain ⟨wire, hwire, rfl⟩ := Option.map_eq_some_iff.mp hstep
      exact hu.of_wires (fun _ h => h) (mem_of_disturb hwire)

omit [DecidableEq ι] in
theorem newChatSystem_inv (RxBuf : ι → LcMsg) : ChatInv p (newChatSystem RxBuf) where
  server := newChatServer_inv
  clients i :=
    { started := started_start (RxBuf i)
      tasks := fun _ h => absurd h List.not_mem_nil
      flag := fun h => absurd h Bool.false_ne_true
      shown := fun _ h => absurd h List.not_mem_nil }
  toServer _ _ h := absurd h List.not_mem_nil
  tasks _ h := absurd h List.not_mem_nil
  registry _ h := absurd h List.not_mem_nil
  queued _ h := absurd h List.not_mem_nil
  thread _ h := by cases h
  toClients _ _ h := absurd h List.not_mem_nil
  displayed _ h := absurd h List.not_mem_nil
  authors _ _ _ h := absurd h List.not_mem_nil

theorem chat_inv {RxBuf : ι → LcMsg} {evs : List (ChatEvent ι)}
    (hrun : exec (chatStep p) (newChatSystem RxBuf) evs = some u) : ChatInv p u :=
  exec_invariant (fun _ _ _ hs hstep => chatStep_inv hs hstep) (newChatSystem_inv RxBuf) hrun

end Steps

/-! ## 4. Every run -/

section Runs

variable {ι : Type} {p : Parties ι} {u v : ChatSystem ι}

/-- No two clients that are entered share a number, so a search for one finds its own node. -/
theorem ChatInv.first_eq (hu : ChatInv p u) (hids : Function.Injective p.lcEndID) {i : ι}
    (hreg : Registered p u.srv i) :
    first ClisInfoListNode.cliID u.srv.entered (p.lcEndID i) =
      some ⟨p.lcEndID i, p.addr i⟩ := by
  cases hfirst : first ClisInfoListNode.cliID u.srv.entered (p.lcEndID i) with
  | none =>
      have hnot := List.find?_eq_none.mp hfirst _ hreg
      simp at hnot
  | some n =>
      obtain ⟨hmem, hkey⟩ := mem_of_first hfirst
      obtain ⟨j, rfl⟩ := hu.registry n hmem
      obtain rfl : j = i := hids hkey
      rfl

variable [DecidableEq ι]

/-- A client whose flag is set, and so one that has come to the menu, is registered with the
    server under its own address: a call of `GetCliInfoNodeByCliID` finds its node, and what is
    in the hands of the workers for it goes there. -/
theorem chat_menu_registered (p : Parties ι) (hids : Function.Injective p.lcEndID)
    (RxBuf : ι → LcMsg) (evs : List (ChatEvent ι)) (u : ChatSystem ι)
    (hrun : exec (chatStep p) (newChatSystem RxBuf) evs = some u) (i : ι)
    (hflag : (u.clients i).client.boolInitCliInfo = true ∨ (u.clients i).client.ui = .menu) :
    (∀ list, addrOf u.srv.cliInfo list (p.lcEndID i) = some (some (p.addr i))) ∧
      (∀ k list node v m, chatStep p u (.server (.work k list node)) = some v →
        u.srv.tasks[k]? = some (.getNode .locked m) → LcMsg.destEndID m = p.lcEndID i →
        v.srv.faulted = false ∧ ∃ pos, .copyNode (some pos) m ∈ v.srv.tasks ∧
          v.srv.cliInfo.heap.val? pos = some ⟨p.lcEndID i, p.addr i⟩) ∧
      ∀ addr m, .sendto addr m ∈ u.srv.tasks → LcMsg.destEndID m = p.lcEndID i →
        addr = p.addr i := by
  have hu := chat_inv hrun
  have hreg : Registered p u.srv i := by
    apply (hu.clients i).flag
    rcases hflag with hflag | hmenu
    · exact hflag
    · exact (hu.clients i).started.past (.inl hmenu)
  have hfirst := hu.first_eq hids hreg
  refine ⟨?_, ?_, ?_⟩
  · intro list
    rw [addrOf_eq hu.server.registry, hfirst]
    rfl
  · intro k list node v m hstep htask hdest
    have hv := chatStep_inv hu hstep
    obtain ⟨⟨t, sent⟩, hsrv, rfl⟩ := Option.map_eq_some_iff.mp hstep
    obtain ⟨-, hok, task, s', rest, htask', hdoes, rfl⟩ := srvStep_cases hu.server hsrv
    obtain rfl := Option.some.inj (htask'.symm.trans htask)
    cases hdoes with
    | getInit hpc => exact absurd rfl hpc
    | @get _ cliInfo listNode hfound hnone =>
        rw [hdest, hfirst] at hfound
        obtain ⟨pos, rfl⟩ : ∃ pos, listNode = some pos := by
          cases listNode with
          | none => cases hfound
          | some pos => exact ⟨pos, rfl⟩
        exact ⟨hok, pos, List.mem_append_right _ List.mem_cons_self, hfound⟩
  · intro addr m htask hdest
    obtain ⟨-, j, rfl, hj⟩ := hu.tasks _ htask
    rw [hids (hj.symm.trans hdest)]

/-- What a client or the server shows was typed for it, by the client whose number the
    message bears; and that client is in the list of the server, so that it can be answered. -/
theorem chat_authentic (p : Parties ι) (RxBuf : ι → LcMsg) (evs : List (ChatEvent ι))
    (u : ChatSystem ι) (hrun : exec (chatStep p) (newChatSystem RxBuf) evs = some u) :
    u.srv.cliInfo.Lists u.srv.entered ∧
      (∀ i, ∀ m ∈ messages (u.clients i).client, ∃ j line, (j, p.lcEndID i, line) ∈ u.typed ∧
        Carries (p.lcEndID j) (p.lcEndID i) line (.SendMsgBufToServer m) ∧
        Registered p u.srv j) ∧
      ∀ m ∈ u.srv.shown, ∃ j line, (j, SETVER_ENDID, line) ∈ u.typed ∧
        Carries (p.lcEndID j) SETVER_ENDID line (.SendMsgBufToServer m) ∧
        Registered p u.srv j := by
  have hu := chat_inv hrun
  refine ⟨hu.server.registry, ?_, ?_⟩
  · intro i m hm
    obtain ⟨⟨j, dest, line, htyped, hcarries⟩, hdest⟩ := (hu.clients i).shown m hm
    obtain rfl : dest = p.lcEndID i := hcarries.2.2.1.symm.trans hdest
    exact ⟨j, line, htyped, hcarries, hu.authors j _ line htyped⟩
  · intro m hm
    obtain ⟨⟨j, dest, line, htyped, hcarries⟩, hdest⟩ := hu.displayed m hm
    obtain rfl : dest = SETVER_ENDID := hcarries.2.2.1.symm.trans hdest
    exact ⟨j, line, htyped, hcarries, hu.authors j _ line htyped⟩

end Runs

/-- Two clients, with the numbers 7 and 8. -/
def twoParties : Parties Bool where
  lcEndID i := if i then 8 else 7
  addr i := if i then addrB else addrA
  addr_inj := by
    unfold Function.Injective
    decide +kernel

open ClientInterface (zeros)

/-- The first attempt registers the client, the answer is handled, and the other four rounds
    and the last copy lead to the menu.  At the server a worker takes the steps `works`. -/
def comesToMenu (i : Bool) (works : List (ChatEvent Bool)) : List (ChatEvent Bool) :=
  List.replicate 2 (.client i (.program (.ui zeros))) ++
    [.client i (.program (.work 0 true)), .arriveServer 0] ++ works ++
    [.arriveClient i 0, .client i (.program (.work 0 true))] ++
    List.replicate 10 (.client i (.program (.ui zeros)))

def hello : Line := ⟨[104, 101, 121, 10], by decide, by decide⟩

/-- A worker at the task of index 0. -/
def works (n : Nat) (list node : Addr) : List (ChatEvent Bool) :=
  List.replicate n (.server (.work 0 list node))

/-- Both clients come to the menu, and the first sends the second a line, as far as the search
    for the second in the list of the server. -/
def lineOnItsWay : List (ChatEvent Bool) :=
  comesToMenu false (works 2 1 2 ++ works 1 9 2 ++ works 1 9 8) ++
    comesToMenu true (works 2 9 3 ++ works 1 9 8) ++
    [.client false (.program (.choose (some 1))), .client false (.enter (some 8) zeros),
      .client false (.read (.data hello) []), .client false (.program (.work 0 true)),
      .arriveServer 0] ++ works 3 5 6 ++ List.replicate 3 (.server (.msgProcess 9)) ++ works 2 9 8

/-- It comes to the second, which shows it. -/
def lineShown : List (ChatEvent Bool) :=
  lineOnItsWay ++ works 3 9 8 ++ [.arriveClient true 0, .client true (.program (.work 0 true))]

def chatStart : ChatSystem Bool := newChatSystem fun _ => zeros

/-- A worker is about to search for the client. -/
def searchesFor (id : EndID) : SrvTask → Bool
  | .getNode .locked m => LcMsg.destEndID m = id
  | _ => false

theorem chat_menu_registered_lineOnItsWay :
    ∃ u v pos, exec (chatStep twoParties) chatStart lineOnItsWay = some u ∧
      addrOf u.srv.cliInfo 9 8 = some (some addrB) ∧
      chatStep twoParties u (.server (.work 0 9 8)) = some v ∧
      v.srv.cliInfo.heap.val? pos = some ⟨8, addrB⟩ := by
  have hrun : (exec (chatStep twoParties) chatStart lineOnItsWay).map (fun u =>
      ((u.clients true).client.boolInitCliInfo,
        (chatStep twoParties u (.server (.work 0 9 8))).isSome,
        u.srv.tasks[0]?.map (searchesFor 8))) =
      some (true, true, some true) := by
    decide +kernel
  obtain ⟨u, hu, hfacts⟩ := Option.map_eq_some_iff.mp hrun
  simp only [Prod.mk.injEq] at hfacts
  obtain ⟨hflag, hsome, hsearch⟩ := hfacts
  obtain ⟨v, hv⟩ := Option.isSome_iff_exists.mp hsome
  obtain ⟨task, htask, hfor⟩ := Option.map_eq_some_iff.mp hsearch
  unfold searchesFor at hfor
  split at hfor
  · have hids : Function.Injective twoParties.lcEndID := by
      unfold Function.Injective
      decide +kernel
    obtain ⟨haddr, hfound, -⟩ := chat_menu_registered twoParties hids _ _ u hu true (.inl hflag)
    obtain ⟨-, pos, -, hval⟩ := hfound 0 9 8 v _ hv htask (of_decide_eq_true hfor)
    exact ⟨u, v, pos, hu, haddr 9, hv, hval⟩
  · cases hfor

theorem chat_authentic_lineShown :
    ∃ u m line, exec (chatStep twoParties) chatStart lineShown = some u ∧
      m ∈ messages (u.clients true).client ∧ (false, 8, line) ∈ u.typed ∧
      Carries 7 8 line (.SendMsgBufToServer m) := by
  have hrun : (exec (chatStep twoParties) chatStart lineShown).map (fun u =>
      ((messages (u.clients true).client).length, u.typed.map Prod.fst)) =
      some (1, [false]) := by
    decide +kernel
  obtain ⟨u, hu, hfacts⟩ := Option.map_eq_some_iff.mp hrun
  obtain ⟨hlength, htyped⟩ := Prod.mk.inj hfacts
  obtain ⟨m, hm⟩ := List.length_eq_one_iff.mp hlength
  have hmem : m ∈ messages (u.clients true).client := hm ▸ List.mem_singleton_self m
  obtain ⟨j, line, hline, hcarries, -⟩ :=
    (chat_authentic twoParties _ _ u hu).2.1 true m hmem
  have hj : j ∈ u.typed.map Prod.fst := List.mem_map_of_mem hline
  rw [htyped, List.mem_singleton] at hj
  subst hj
  exact ⟨u, m, line, hu, hmem, hline, hcarries⟩

/-! ## 5. Lines for those who can be reached -/

section Survives

variable {ι : Type} {p : Parties ι} {u v : ChatSystem ι}

/-- The server, a client whose flag is set, or the client that has sent a message shown at
    `i`. -/
def KnownDest (p : Parties ι) (u : ChatSystem ι) (i : ι) (dest : EndID) : Prop :=
  dest = SETVER_ENDID ∨ (∃ j, dest = p.lcEndID j ∧ (u.clients j).client.boolInitCliInfo = true) ∨
    ∃ m ∈ messages (u.clients i).client, dest = LcMsg.srcEndID m

/-- A line that is typed in this step is for one of these. -/
def ForKnown (p : Parties ι) (u : ChatSystem ι) : ChatEvent ι → Prop
  | .client i e => ∀ l ∈ (typedLine (u.clients i) e).toList, KnownDest p u i l.1
  | _ => True

instance [Fintype ι] (i : ι) (dest : EndID) : Decidable (KnownDest p u i dest) := by
  unfold KnownDest
  infer_instance

instance [Fintype ι] (u : ChatSystem ι) (e : ChatEvent ι) : Decidable (ForKnown p u e) := by
  unfold ForKnown
  split <;> infer_instance

/-- The lines so far were for the server and for clients that are entered. -/
def DestsEntered (p : Parties ι) (u : ChatSystem ι) : Prop :=
  ∀ i dest line, (i, dest, line) ∈ u.typed →
    dest = SETVER_ENDID ∨ ∃ j, dest = p.lcEndID j ∧ Registered p u.srv j

theorem KnownDest.entered {i : ι} {dest : EndID} (hu : ChatInv p u) (h : KnownDest p u i dest) :
    dest = SETVER_ENDID ∨ ∃ j, dest = p.lcEndID j ∧ Registered p u.srv j := by
  rcases h with hsrv | ⟨j, hj, hflag⟩ | ⟨m, hm, hsrc⟩
  · exact .inl hsrv
  · exact .inr ⟨j, hj, (hu.clients j).flag hflag⟩
  · obtain ⟨⟨j, d, line, htyped, hcarries⟩, -⟩ := (hu.clients i).shown m hm
    exact .inr ⟨j, hsrc.trans hcarries.2.1, hu.authors j d line htyped⟩

/-- A search for an entered number finds something. -/
theorem first_ne_none {s : ChatServer} {i : ι} (hreg : Registered p s i) :
    first ClisInfoListNode.cliID s.entered (p.lcEndID i) ≠ none := by
  intro hnone
  have hnot := List.find?_eq_none.mp hnone _ hreg
  simp at hnot

/-- The server runs, all that it has to forward is for clients that are entered, and no search
    for one has found nothing. -/
structure Safe (p : Parties ι) (u : ChatSystem ι) : Prop where
  inv : ChatInv p u
  dests : DestsEntered p u
  running : u.srv.faulted = false
  found : ∀ m, .copyNode none m ∉ u.srv.tasks

theorem DestsEntered.mono (hg : Grows u v) (h : DestsEntered p u) (hsame : v.typed = u.typed) :
    DestsEntered p v := by
  intro i dest line htyped
  rw [hsame] at htyped
  rcases h i dest line htyped with hsrv | ⟨j, hj, hreg⟩
  · exact .inl hsrv
  · exact .inr ⟨j, hj, hreg.mono hg⟩

/-- Only a worker with nothing in its hands goes wrong, and it gets there only by a search for
    a client that is not entered. -/
theorem Does.safe {s t : ChatServer} {task : SrvTask} {rest : Option SrvTask}
    {sent : List (SockaddrIn × LcMsg)} (h : Does s task t rest sent)
    (hhands : ∀ m, task ≠ .copyNode none m)
    (hknown : ∀ m, task = .getNode .locked m →
      first ClisInfoListNode.cliID s.entered (LcMsg.destEndID m) ≠ none) :
    t.faulted = s.faulted ∧ ∀ m, rest ≠ some (.copyNode none m) := by
  cases h with
  | null => exact absurd rfl (hhands _)
  | get hfirst hnone =>
      refine ⟨rfl, ?_⟩
      intro m heq
      obtain ⟨rfl, rfl⟩ := SrvTask.copyNode.inj (Option.some.inj heq)
      exact hknown _ rfl hfirst.symm
  | _ => exact ⟨rfl, fun m heq => by cases heq⟩

/-- Nothing of what `Safe` speaks about has changed at the server. -/
theorem Safe.of_same (hu : Safe p u) (hv : ChatInv p v) (hsrv : v.srv = u.srv)
    (htyped : ∀ l ∈ v.typed, l ∈ u.typed ∨ l.2.1 = SETVER_ENDID ∨
      ∃ j, l.2.1 = p.lcEndID j ∧ Registered p u.srv j) : Safe p v := by
  refine ⟨hv, ?_, by rw [hsrv]; exact hu.running, by rw [hsrv]; exact hu.found⟩
  rw [DestsEntered, hsrv]
  intro i dest line hline
  rcases htyped _ hline with hold | hnew
  · exact hu.dests i dest line hold
  · exact hnew

theorem Safe.srvStep {e : SrvEvent} {t : ChatServer} {sent : List (SockaddrIn × LcMsg)}
    (hu : Safe p u) (hstep : Chat.srvStep u.srv e = some (t, sent)) :
    Safe p { u with srv := t, toClients := u.toClients ++ sent } := by
  have hv := hu.inv.srvStep hstep
  obtain ⟨-, -, hcases⟩ := srvStep_cases hu.inv.server hstep
  cases e with
  | work k list node =>
      obtain ⟨task, s', rest, htask, hdoes, rfl⟩ := hcases
      have hmem := List.mem_of_getElem? htask
      obtain ⟨htasks, -, hentered⟩ := hdoes.same
      obtain ⟨hfault, hrest⟩ := hdoes.safe (fun m heq => hu.found m (heq ▸ hmem)) (by
        rintro m rfl
        obtain ⟨⟨i, dest, line, hline, hcarries⟩, hsrv⟩ := hu.inv.tasks _ hmem
        have hdest : LcMsg.destEndID m = dest := hcarries.2.2.1
        rcases hu.dests i dest line hline with heq | ⟨j, hj, hreg⟩
        · exact absurd (hdest.trans heq) hsrv
        · rw [hdest, hj]
          exact first_ne_none hreg)
      have hg : Grows u { u with srv := { s' with tasks := s'.tasks ++ rest.toList } } :=
        ⟨fun _ h => h, hentered⟩
      refine ⟨hv, ?_, hfault.trans hu.running, ?_⟩
      · exact hu.dests.mono (v := { u with srv := { s' with
          tasks := s'.tasks ++ rest.toList } }) hg rfl
      · intro m hm
        rcases List.mem_append.mp hm with hold | hnew
        · rw [htasks] at hold
          exact hu.found m (List.mem_of_mem_eraseIdx hold)
        · exact hrest m (Option.mem_toList.mp hnew)
  | msgProcess queue =>
      obtain ⟨rfl, hmoves⟩ := hcases
      cases hmoves with
      | wait hpc => exact ⟨hv, hu.dests, hu.running, hu.found⟩
      | take hpc hqueued => exact ⟨hv, hu.dests, hu.running, hu.found⟩
      | addTask hpc =>
          refine ⟨hv, hu.dests, hu.running, ?_⟩
          intro m hm
          rcases List.mem_append.mp hm with hold | hnew
          · exact hu.found m hold
          · cases List.mem_singleton.mp hnew

variable [DecidableEq ι]

theorem chatStep_safe {e : ChatEvent ι} (hu : Safe p u) (he : ForKnown p u e)
    (hstep : chatStep p u e = some v) : Safe p v := by
  have hv := chatStep_inv hu.inv hstep
  cases e with
  | client i e =>
      obtain ⟨c, hc, rfl⟩ := Option.map_eq_some_iff.mp hstep
      apply hu.of_same hv rfl
      intro l hl
      rcases List.mem_append.mp hl with hold | hnew
      · exact .inl hold
      · obtain ⟨l', hl', rfl⟩ := List.mem_map.mp hnew
        exact .inr ((he l' hl').entered hu.inv)
  | arriveClient i k =>
      simp only [chatStep, Option.bind_eq_bind, Option.bind_eq_some_iff, Option.pure_def] at hstep
      obtain ⟨⟨⟨addr, m⟩, rest⟩, harrive, hstep⟩ := hstep
      obtain ⟨haddr, hstep⟩ := Option.ite_none_right_eq_some.mp hstep
      obtain rfl := Option.some.inj hstep
      exact hu.of_same hv rfl (fun _ h => .inl h)
  | server e =>
      obtain ⟨⟨t, sent⟩, hsrv, rfl⟩ := Option.map_eq_some_iff.mp hstep
      exact hu.srvStep hsrv
  | arriveServer k =>
      obtain ⟨-, hstep⟩ := Option.ite_none_left_eq_some.mp hstep
      simp only [Option.bind_eq_bind, Option.bind_eq_some_iff, Option.pure_def] at hstep
      obtain ⟨⟨⟨addr, m⟩, rest⟩, harrive, hstep⟩ := hstep
      obtain rfl := Option.some.inj hstep
      obtain ⟨i, rfl, hfrom⟩ := hu.inv.toServer addr m (mem_of_arrive harrive).1
      refine ⟨hv, hu.dests, hu.running, ?_⟩
      intro m' hm'
      rcases List.mem_append.mp hm' with hold | hnew
      · exact hu.found m' hold
      · rw [rxBuf_wholeChunk, Option.mem_toList] at hnew
        exact (recvTask_ok hfrom hnew).2.2.2 none m' rfl
  | disturbToServer d =>
      obtain ⟨wire, hwire, rfl⟩ := Option.map_eq_some_iff.mp hstep
      exact hu.of_same hv rfl (fun _ h => .inl h)
  | disturbToClients d =>
      obtain ⟨wire, hwire, rfl⟩ := Option.map_eq_some_iff.mp hstep
      exact hu.of_same hv rfl (fun _ h => .inl h)

/-- The server survives every run in which each line is typed for the server, for a client
    whose flag is set by then, or in answer to a message that the typing client was shown. -/
theorem chat_server_survives (p : Parties ι) (RxBuf : ι → LcMsg) (evs : List (ChatEvent ι))
    (hknown : Along (chatStep p) (ForKnown p) (newChatSystem RxBuf) evs) :
    Always (chatStep p) (fun u => u.srv.faulted = false) (newChatSystem RxBuf) evs := by
  have hstart : Safe p (newChatSystem RxBuf) :=
    ⟨newChatSystem_inv RxBuf, fun _ _ _ h => absurd h List.not_mem_nil, rfl,
      fun _ h => absurd h List.not_mem_nil⟩
  have hall := always_of_invariant_along
    (fun _ _ _ hs hG hstep => chatStep_safe hs hG hstep) hstart hknown
  exact hall.mono fun _ h => h.running

end Survives

theorem chat_server_survives_lineShown :
    Always (chatStep twoParties) (fun u => u.srv.faulted = false) chatStart lineShown :=
  chat_server_survives twoParties _ _ (by decide +kernel)

end SocketPractice.SocketUdp.Chat
