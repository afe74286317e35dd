import SocketPractice.Socket.MsgQueue

/-!
# The server's message queue (`server_msgqueue.c`)

The queue is created by whoever uses it first: both calls test the pointer, and
`init_srv_msg_queue` tests it again, without the mutex; the section that creates
the queue holds the mutex but does not test.  A thread that passed both tests
before another one created the queue therefore replaces that queue, with the
messages in it.

Any number of threads make calls.  A step is an unprotected test or one whole
section under the mutex.
-/

namespace SocketPractice.Socket

open Lib.Bytes Lib.Links Lib.Runs Common

/-! ## 1. The code -/

inductive SrvQueueCall where
  | en (msgPackage : LcMsgPackage)
  | de
deriving DecidableEq

/-- Where a thread is in `en_srv_msg_queue` or `de_srv_msg_queue`. -/
inductive SrvQueuePc where
  | idle
  /-- Before the test of the call itself. -/
  | test (c : SrvQueueCall)
  /-- Before the test in `init_srv_msg_queue`. -/
  | initTest (c : SrvQueueCall)
  /-- Before the section of `init_srv_msg_queue`. -/
  | initLocked (c : SrvQueueCall)
  /-- Before the section of the call itself. -/
  | locked (c : SrvQueueCall)
deriving DecidableEq

structure SrvQueueState where
  heap : Heap LcMsgPackage
  /-- `srv_msg_queue.queue`. -/
  queue : Option Addr
  pcs : Nat → SrvQueuePc
  /-- The messages for which `en_srv_msg_queue` returned `QUEUE_SUCCESS`. -/
  accepted : List LcMsgPackage
  /-- The messages that `de_srv_msg_queue` returned. -/
  returned : List LcMsgPackage
  /-- Memory that is not allocated was accessed. -/
  fault : Bool

/-- A step of the thread `t`, with the address that `malloc` returns in it. -/
inductive SrvQueueEvent where
  | call (t : Nat) (c : SrvQueueCall)
  | test (t : Nat)
  | init (t : Nat) (queue : Addr)
  | en (t : Nat) (node : Addr)
  | de (t : Nat)
deriving DecidableEq

def SrvQueueState.goto (s : SrvQueueState) (t : Nat) (pc : SrvQueuePc) : SrvQueueState :=
  { s with pcs := Function.update s.pcs t pc }

def srvQueueStep (s : SrvQueueState) : SrvQueueEvent → Option SrvQueueState
  | .call t c => if s.pcs t = .idle then some (s.goto t (.test c)) else none
  | .test t =>
      match s.pcs t with
      | .test c => some (s.goto t (if s.queue.isSome then .locked c else .initTest c))
      | .initTest c => some (s.goto t (if s.queue.isSome then .locked c else .initLocked c))
      | _ => none
  | .init t queue =>
      match s.pcs t with
      | .initLocked c =>
          if s.heap queue = none then
            some (({ s with heap := initMsgQueue s.heap queue, queue := some queue } :
              SrvQueueState).goto t (.locked c))
          else none
      | _ => none
  | .en t node =>
      match s.pcs t with
      | .locked (.en msg) =>
          if s.heap node = none then
            match enMsgToQueue s.heap node s.queue (some msg) with
            | none => some (({ s with fault := true } : SrvQueueState).goto t .idle)
            | some (h, ret) => some (({ s with
                heap := h
                accepted := if ret = .QUEUE_SUCCESS then s.accepted ++ [msg] else s.accepted } :
                  SrvQueueState).goto t .idle)
          else none
      | _ => none
  | .de t =>
      match s.pcs t with
      | .locked .de =>
          match deMsgFromQueue s.heap s.queue true with
          | none => some (({ s with fault := true } : SrvQueueState).goto t .idle)
          | some (h, _, msg) => some (({ s with
              heap := h, returned := s.returned ++ msg.toList } : SrvQueueState).goto t .idle)
      | _ => none

/-- The server at start-up: `srv_msg_queue.queue` is `NULL`. -/
def newSrvQueue : SrvQueueState :=
  { heap := Heap.empty, queue := none, pcs := fun _ => .idle, accepted := [], returned := [],
    fault := false }

/-! ## 2. Conservation -/

/-- The queue that `srv_msg_queue.queue` points to holds `msgs`. -/
def Queued (s : SrvQueueState) (msgs : List LcMsgPackage) : Prop :=
  match s.queue with
  | none => msgs = []
  | some queue => Holds s.heap queue msgs

theorem Queued.unique {s : SrvQueueState} {msgs msgs' : List LcMsgPackage}
    (h : Queued s msgs) (h' : Queued s msgs') : msgs = msgs' := by
  unfold Queued at h h'
  rcases hq : s.queue with _ | queue
  · simp only [hq] at h h'; rw [h, h']
  · simp only [hq] at h h'; exact h.unique h'

/-- Every accepted message is in the queue or was returned, as often as it was
    accepted. -/
structure Conserved (s : SrvQueueState) : Prop where
  sound : s.fault = false
  perm : ∃ msgs, Queued s msgs ∧ s.accepted.Perm (msgs ++ s.returned)

/-- The section of `init_srv_msg_queue` runs while there is no queue or an empty
    one. -/
def InitEmpty (s : SrvQueueState) : SrvQueueEvent → Prop
  | .init _ _ => Queued s []
  | _ => True

theorem conserved_goto (s : SrvQueueState) (t : Nat) (pc : SrvQueuePc) :
    Conserved (s.goto t pc) ↔ Conserved s :=
  ⟨fun h => ⟨h.sound, h.perm⟩, fun h => ⟨h.sound, h.perm⟩⟩

theorem conserved_en {s : SrvQueueState} (hs : Conserved s) {node : Addr}
    (hfresh : s.heap node = none) (msg : LcMsgPackage) :
    ∃ h ret, enMsgToQueue s.heap node s.queue (some msg) = some (h, ret) ∧
      Conserved { s with
        heap := h
        accepted := if ret = .QUEUE_SUCCESS then s.accepted ++ [msg] else s.accepted } := by
  obtain ⟨hsound, msgs, hmsgs, hperm⟩ := hs
  rcases hq : s.queue with _ | queue
  · exact ⟨s.heap, .QUEUE_ERROR, rfl, hsound, msgs, by simpa [Queued, hq] using hmsgs, hperm⟩
  · simp only [Queued, hq] at hmsgs
    rcases enToQueue_listAdd hmsgs hfresh msg with ⟨h', heq, hh', -⟩
    refine ⟨h', .QUEUE_SUCCESS, heq, hsound, msg :: msgs, by simpa [Queued, hq] using hh', ?_⟩
    have happ : (s.accepted ++ [msg]).Perm (msg :: s.accepted) := List.perm_append_singleton _ _
    simpa using happ.trans (hperm.cons msg)

theorem conserved_de {s : SrvQueueState} (hs : Conserved s) :
    ∃ h ret msg, deMsgFromQueue s.heap s.queue true = some (h, ret, msg) ∧
      Conserved { s with heap := h, returned := s.returned ++ msg.toList } := by
  obtain ⟨hsound, msgs, hmsgs, hperm⟩ := hs
  cases hq : s.queue with
  | none =>
      exact ⟨s.heap, .QUEUE_ERROR, none, rfl, hsound, msgs, by simpa [Queued, hq] using hmsgs,
        by simpa using hperm⟩
  | some queue =>
      simp only [Queued, hq] at hmsgs
      rcases msgs with _ | ⟨msg, msgs⟩
      · exact ⟨s.heap, .QUEUE_EMPTY, none, deFromQueue_nil hmsgs true, hsound, [],
          by simpa [Queued, hq] using hmsgs, by simpa using hperm⟩
      · rcases deFromQueue_cons hmsgs true with ⟨h', node, heq, hh', -, -⟩
        refine ⟨h', .QUEUE_SUCCESS, some msg, heq, hsound, msgs,
          by simpa [Queued, hq] using hh', hperm.trans ?_⟩
        have hmid : (msgs ++ msg :: s.returned).Perm (msg :: (msgs ++ s.returned)) :=
          List.perm_middle
        have hend : (msgs ++ (s.returned ++ [msg])).Perm (msgs ++ msg :: s.returned) :=
          (List.perm_append_singleton msg s.returned).append_left msgs
        exact (hend.trans hmid).symm

/-- The new queue is empty, so nothing is lost if nothing was queued. -/
theorem conserved_init {s : SrvQueueState} (hs : Conserved s) (queue : Addr) :
    Conserved { s with heap := initMsgQueue s.heap queue, queue := some queue } ↔
      Queued s [] := by
  obtain ⟨hsound, msgs, hmsgs, hperm⟩ := hs
  have hnew : Holds (initMsgQueue s.heap queue) queue [] :=
    ⟨[], initListHead_circular _ _, rfl⟩
  constructor
  · rintro ⟨-, msgs', hmsgs', hperm'⟩
    obtain rfl : msgs' = [] := Holds.unique hmsgs' hnew
    have hall : s.accepted.Perm ([] ++ s.returned) := hperm'
    have hlen := hperm.length_eq.symm.trans hall.length_eq
    rw [List.length_append, List.nil_append] at hlen
    have hnil : msgs = [] := List.length_eq_zero_iff.mp (by omega)
    exact hnil ▸ hmsgs
  · intro hempty
    obtain rfl := hmsgs.unique hempty
    exact ⟨hsound, [], hnew, hperm⟩

theorem conserved_step (s : SrvQueueState) (e : SrvQueueEvent) (u : SrvQueueState)
    (hs : Conserved s) (hstep : srvQueueStep s e = some u) : Conserved u ↔ InitEmpty s e := by
  cases e with
  | call t c =>
      simp only [srvQueueStep, Option.ite_none_right_eq_some, Option.some.injEq] at hstep
      rcases hstep with ⟨-, rfl⟩
      simpa [InitEmpty, conserved_goto] using hs
  | test t =>
      simp only [srvQueueStep] at hstep
      split at hstep
      · cases hstep
        simpa [InitEmpty, conserved_goto] using hs
      · cases hstep
        simpa [InitEmpty, conserved_goto] using hs
      · cases hstep
  | init t queue =>
      simp only [srvQueueStep] at hstep
      split at hstep
      · simp only [Option.ite_none_right_eq_some, Option.some.injEq] at hstep
        rcases hstep with ⟨-, rfl⟩
        rw [conserved_goto, InitEmpty, conserved_init hs]
      · cases hstep
  | en t node =>
      simp only [srvQueueStep] at hstep
      split at hstep
      · rename_i msg _
        rcases Option.ite_none_right_eq_some.mp hstep with ⟨hfresh, hen⟩
        rcases conserved_en hs hfresh msg with ⟨h, ret, heq, hu⟩
        rw [heq] at hen
        cases hen
        simpa [InitEmpty, conserved_goto] using hu
      · cases hstep
  | de t =>
      simp only [srvQueueStep] at hstep
      split at hstep
      · rcases conserved_de hs with ⟨h, ret, msg, heq, hu⟩
        rw [heq] at hstep
        cases hstep
        simpa [InitEmpty, conserved_goto] using hu
      · cases hstep

/-! ## 3. Runs -/

theorem newSrvQueue_conserved : Conserved newSrvQueue :=
  ⟨rfl, [], rfl, List.Perm.nil⟩

/-- In a run no accepted message is lost or returned twice, in any state, if and
    only if the queue is never created over one that still holds messages. -/
theorem srv_msg_queue_conserved_iff (evs : List SrvQueueEvent) (s : SrvQueueState)
    (hrun : exec srvQueueStep newSrvQueue evs = some s) :
    Always srvQueueStep Conserved newSrvQueue evs ↔
      Along srvQueueStep InitEmpty newSrvQueue evs :=
  always_iff_along (J := fun _ => True) (fun _ _ _ _ _ => trivial)
    (fun s e u _ hs hstep => conserved_step s e u hs hstep) trivial newSrvQueue_conserved hrun

/-- Two workers at their first message: both pass the tests, and the second one
    creates the queue anew after the first one has put its message in. -/
def bothCreate : List SrvQueueEvent :=
  [.call 1 (.en (msgFrom 1)), .call 2 (.en (msgFrom 2)), .test 1, .test 2, .test 1, .test 2,
   .init 1 1, .en 1 2, .init 2 3]

/-- The first message was accepted and is gone. -/
theorem accepted_message_lost :
    ∃ s, exec srvQueueStep newSrvQueue bothCreate = some s ∧ s.accepted = [msgFrom 1] ∧
      s.returned = [] ∧ Queued s [] ∧ ¬ Conserved s := by
  obtain ⟨s, hs, haccepted, hreturned, hqueued⟩ : ∃ s,
      exec srvQueueStep newSrvQueue bothCreate = some s ∧ s.accepted = [msgFrom 1] ∧
        s.returned = [] ∧ Queued s [] :=
    ⟨_, rfl, rfl, rfl, [], initListHead_circular _ _, rfl⟩
  refine ⟨s, hs, haccepted, hreturned, hqueued, ?_⟩
  rintro ⟨-, msgs, hmsgs, hperm⟩
  rw [haccepted, hreturned, hmsgs.unique hqueued] at hperm
  exact absurd hperm.length_eq (by simp)

def oneCreates : List SrvQueueEvent :=
  [.call 1 (.en (msgFrom 1)), .test 1, .test 1, .init 1 1, .en 1 2,
   .call 2 (.en (msgFrom 2)), .test 2, .en 2 3]

theorem conserved_oneCreates : Always srvQueueStep Conserved newSrvQueue oneCreates := by
  obtain ⟨s, hs⟩ : ∃ s, exec srvQueueStep newSrvQueue oneCreates = some s := ⟨_, rfl⟩
  apply (srv_msg_queue_conserved_iff oneCreates s hs).mpr
  simp only [oneCreates, Along, InitEmpty, true_and, implies_true, and_true]
  rintro t1 h1 t2 h2 t3 h3
  obtain rfl := Option.some.inj (h1.symm.trans rfl)
  obtain rfl := Option.some.inj (h2.symm.trans rfl)
  obtain rfl := Option.some.inj (h3.symm.trans rfl)
  rfl

end SocketPractice.Socket
