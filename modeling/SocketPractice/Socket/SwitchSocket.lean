import SocketPractice.Lib.Runs
import SocketPractice.Socket.ClientSocket
import SocketPractice.Socket.ServerSocket

/-!
# The client's link and its registration (`client_socket.c`, `client_tcp.c`, `client_udp.c`)

The user switches between a TCP and a UDP link.  A switch selects the other kind of link,
closes the descriptor of the old one, opens a new one and registers over it, unless
`init_cli_info` says that the client is registered.  That flag is one bit: it is set by a
task of the pool after an acknowledgement of the server was received, over whatever link,
and cleared where a link is torn down.  A task that runs late sets it for a link that it
knows nothing of.

A step is one statement of the user interface, of the receive thread or of a pool task on
the shared state; what a thread does under the mutex of the flag is one step.  Every
opening of a descriptor counts as a link of its own, and the server's messages come in on
a connected link in any order and any number.
-/

namespace SocketPractice.Socket

open Lib.Bytes Lib.Runs

/-! ## 1. The code -/

inductive CliLink where
  | tcp
  | udp
deriving DecidableEq, Repr

def CliLink.other : CliLink → CliLink
  | .tcp => .udp
  | .udp => .tcp

/-- The link that the descriptor of this `socket_type` is for. -/
def SocketType.link? : SocketType → Option CliLink
  | .UNSET => none
  | .TCP_LINK => some .tcp
  | .UDP_LINK => some .udp

/-- The first statements of `switch_socket_type`. -/
def SocketType.switched (socketType : SocketType) : SocketType :=
  if socketType = .UNSET then .UDP_LINK
  else if socketType = .UDP_LINK then .TCP_LINK else .UDP_LINK

/-- Where the user interface is in `switch_socket_type`: in `try_destroy_client_…` of the
    other link, in `init_client_…`, or in `init_client_info`, whose `i` counts through both
    loops. -/
inductive SwitchPc where
  | idle
  | checkOther
  | clearFlag
  | closeOther
  | resetOther
  | checkOwn
  | socket
  | connect
  | checkFlag (i : Nat)
  | register (i : Nat)
deriving DecidableEq, Repr

/-- Where the receive thread is in `recv_msg_by_socket`; from `checkTcp` on it is in
    `try_destroy_client_tcp`. -/
inductive RecvPc where
  | choose
  | call (link : CliLink)
  | receive (link : CliLink) (opened : Nat)
  | handle (msgbuf : LcMsgPackage)
  | checkTcp
  | clearFlag
  | closeTcp
  | resetTcp
deriving DecidableEq

structure Client where
  socketType : SocketType
  /-- `g_cli_tcpfd` and `g_cli_udpfd`. -/
  fd : CliLink → Int32
  initCliInfo : Bool
  tasks : List ClientTask
  ui : SwitchPc
  rx : RecvPc
  /-- How often each descriptor was opened. -/
  opened : CliLink → Nat
  /-- The `connect` on the TCP descriptor last opened has succeeded. -/
  connected : Bool
  /-- An acknowledgement was received over the descriptor last opened. -/
  acked : CliLink → Bool

/-- `ui` and `rx` are the next statements of the threads; the others carry what a system
    call returned, and `run` the task that a pool thread carries out. -/
inductive SwitchEvent where
  | switchSocketType
  | ui
  | socket (fd : Int32)
  | connect (ok : Bool)
  | rx
  | recv (r : RecvRet)
  | run (task : ClientTask)
deriving DecidableEq

/-- The message of `init_client_info_to_server`. -/
def initClientInfoToServer (endid serverEndid : EndId) : LcMsgPackage :=
  let msgbuf := LcMsgPackage.setMsgType (Buf.zero sizeofLcMsgPackage) .SAVE_CLI_INFO
  let msgbuf := LcMsgPackage.setSrcid msgbuf endid
  LcMsgPackage.setDestid msgbuf serverEndid

namespace Client

/-- The next statement of the user interface. -/
def uiStep (endid serverEndid : EndId) (s : Client) : Option Client :=
  match s.socketType.link? with
  -- the `default` of the `switch`: before the first call there is no link
  | none => none
  | some link =>
      match s.ui with
      | .checkOther => some { s with
          ui := if checkFd (s.fd link.other) then .clearFlag else .checkOwn }
      | .clearFlag => some { s with initCliInfo := false, ui := .closeOther }
      | .closeOther => some { s with ui := .resetOther }
      | .resetOther => some { s with
          fd := Function.update s.fd link.other 0, ui := .checkOwn }
      | .checkOwn => some { s with
          ui := if checkFd (s.fd link) then .checkFlag 0 else .socket }
      | .checkFlag i =>
          if s.initCliInfo then some { s with ui := .idle }
          else if i < 2 then some { s with ui := .register i }
          else some { s with ui := if i < 3 then .checkFlag (i + 1) else .idle }
      | .register i => some { s with
          tasks := s.tasks ++
            sendMsgBySocket s.socketType (initClientInfoToServer endid serverEndid)
          ui := .checkFlag (i + 1) }
      | _ => none

/-- `socket`, and the test of what it returned. -/
def socketStep (s : Client) (fd : Int32) : Option Client :=
  match s.socketType.link? with
  | none => none
  | some link =>
      if s.ui = .socket then some { s with
        fd := Function.update s.fd link fd
        opened := Function.update s.opened link (s.opened link + 1)
        acked := Function.update s.acked link false
        connected := if link = .tcp then false else s.connected
        ui := if link = .tcp ∧ checkFd fd then .connect else .checkFlag 0 }
      else none

/-- The next statement of the receive thread. -/
def rxStep (s : Client) : Option Client :=
  match s.rx with
  | .choose => some { s with
      rx := match s.socketType.link? with
        | some link => .call link
        | none => .choose }
  | .call link => some { s with
      -- on what is no socket the call fails
      rx := if checkFd (s.fd link) then .receive link (s.opened link) else .choose }
  | .receive _ _ => none
  | .handle msgbuf => some { s with
      tasks := s.tasks ++ [if msgbuf.msgType = LcMsgType.SAVE_CLI_INFO.code
        then .completeInitClientInfo else .dispalyMsgPackage msgbuf]
      rx := .choose }
  | .checkTcp => some { s with rx := if checkFd (s.fd .tcp) then .clearFlag else .choose }
  | .clearFlag => some { s with initCliInfo := false, rx := .closeTcp }
  | .closeTcp => some { s with rx := .resetTcp }
  | .resetTcp => some { s with fd := Function.update s.fd .tcp 0, rx := .choose }

/-- Nothing is received on a TCP descriptor before its `connect`. -/
def Delivers (s : Client) (link : CliLink) (opened : Nat) : Prop :=
  link = .tcp → opened = s.opened .tcp → s.connected = true

instance (s : Client) (link : CliLink) (opened : Nat) : Decidable (s.Delivers link opened) :=
  inferInstanceAs (Decidable (_ → _ → _))

/-- A message has come in on a link, which acknowledges a registration if it is of that
    type. -/
def received (s : Client) (link : CliLink) (opened : Nat) (msgbuf : LcMsgPackage) : Client :=
  if msgbuf.msgType = LcMsgType.SAVE_CLI_INFO.code ∧ opened = s.opened link then
    { s with acked := Function.update s.acked link true, rx := .handle msgbuf }
  else { s with rx := .handle msgbuf }

def recvStep (s : Client) (r : RecvRet) : Option Client :=
  match s.rx with
  | .receive link opened =>
      match r with
      | .error => some { s with rx := .choose }
      | .eof => some { s with rx := if link = .tcp then .checkTcp else .choose }
      | .data c =>
          if s.Delivers link opened then
            some (s.received link opened ((Buf.zero sizeofLcMsgPackage).recv c))
          else none
  | _ => none

/-- A pool thread carries out a task; what it sends is the server's to answer. -/
def runStep (s : Client) (task : ClientTask) : Option Client :=
  if task ∈ s.tasks then
    match task with
    | .completeInitClientInfo => some { s with
        tasks := s.tasks.erase task, initCliInfo := true }
    | _ => some { s with tasks := s.tasks.erase task }
  else none

end Client

def switchStep (endid serverEndid : EndId) (s : Client) : SwitchEvent → Option Client
  | .switchSocketType =>
      if s.ui = .idle then
        some { s with socketType := s.socketType.switched, ui := .checkOther }
      else none
  | .ui => s.uiStep endid serverEndid
  | .socket fd => s.socketStep fd
  | .connect ok =>
      if s.ui = .connect then some { s with connected := ok, ui := .checkFlag 0 } else none
  | .rx => s.rxStep
  | .recv r => s.recvStep r
  | .run task => s.runStep task

/-- The client before its first `switch_socket_type`. -/
def newClient : Client :=
  { socketType := .UNSET, fd := fun _ => 0, initCliInfo := false, tasks := [], ui := .idle,
    rx := .choose, opened := fun _ => 0, connected := false, acked := fun _ => false }

/-! ## 2. The flag and the link -/

/-- The teardown and the set-up of a switch. -/
def SwitchPc.switching : SwitchPc → Bool
  | .idle => false
  | .checkFlag _ => false
  | .register _ => false
  | _ => true

/-- The flag is set only if the server's acknowledgement was received over the selected
    link. -/
def FlagFollowsLink (s : Client) : Prop :=
  s.ui.switching = false → s.initCliInfo = true →
    ∃ link, s.socketType.link? = some link ∧ s.acked link = true

/-- The receive thread has cleared the flag and will drop the TCP descriptor. -/
def RecvPc.drops : RecvPc → Bool
  | .closeTcp => true
  | .resetTcp => true
  | _ => false

/-- The descriptor is open, and who closes it next clears the flag first. -/
def StaysOpen (s : Client) (link : CliLink) : Prop :=
  checkFd (s.fd link) = true ∧ (link = .tcp → s.rx.drops = false)

/-- Setting the flag does no harm: the link it is set for is the selected one, or a
    switch has still to clear it. -/
def MaySetFlag (s : Client) : Prop :=
  match s.ui with
  | .checkOther => ∃ link, s.socketType.link? = some link ∧ StaysOpen s link.other
  | .clearFlag => True
  | .idle | .checkFlag _ | .register _ =>
      ∃ link, s.socketType.link? = some link ∧ s.acked link = true ∧ StaysOpen s link
  | _ => False

/-- `complete_init_client_info` runs when it may set the flag. -/
def RunsInTime (s : Client) : SwitchEvent → Prop
  | .run .completeInitClientInfo => MaySetFlag s
  | _ => True

instance (s : Client) (link : CliLink) : Decidable (StaysOpen s link) :=
  inferInstanceAs (Decidable (_ ∧ (_ → _)))

instance (s : Client) : Decidable (MaySetFlag s) := by
  unfold MaySetFlag
  split
  · exact inferInstanceAs (Decidable (∃ link ∈ s.socketType.link?, StaysOpen s link.other))
  · infer_instance
  · exact inferInstanceAs
      (Decidable (∃ link ∈ s.socketType.link?, s.acked link = true ∧ StaysOpen s link))
  · exact inferInstanceAs
      (Decidable (∃ link ∈ s.socketType.link?, s.acked link = true ∧ StaysOpen s link))
  · exact inferInstanceAs
      (Decidable (∃ link ∈ s.socketType.link?, s.acked link = true ∧ StaysOpen s link))
  · infer_instance

instance (s : Client) (e : SwitchEvent) : Decidable (RunsInTime s e) := by
  unfold RunsInTime
  split <;> infer_instance

/-! ## 3. Which descriptors are open -/

/-- The switch has not yet opened the descriptor of the selected link. -/
def SwitchPc.toOpen : SwitchPc → Bool
  | .checkOther => true
  | .clearFlag => true
  | .closeOther => true
  | .resetOther => true
  | .checkOwn => true
  | .socket => true
  | _ => false

/-- The switch has closed the descriptor of the other link. -/
def SwitchPc.tornDown : SwitchPc → Bool
  | .checkOwn => true
  | .socket => true
  | .connect => true
  | _ => false

structure LinkInv (s : Client) : Prop where
  /-- Outside a switch only the selected link can be open. -/
  outside : s.ui.switching = false → ∀ link, s.socketType.link? ≠ some link →
    checkFd (s.fd link) = false
  own : s.ui.toOpen = true → ∃ link, s.socketType.link? = some link ∧ checkFd (s.fd link) = false
  other : s.ui.tornDown = true → ∀ link, s.socketType.link? = some link →
    checkFd (s.fd link.other) = false
  connect : s.ui = .connect → s.socketType.link? = some .tcp ∧ s.acked .tcp = false ∧
    s.connected = false

section Steps

variable {endid serverEndid : EndId} {s t : Client} {link : CliLink}

theorem CliLink.eq_other {k : CliLink} (h : k ≠ link) : k = link.other := by
  cases k <;> cases link <;> first | rfl | exact absurd rfl h

/-- A switch selects a link that was not selected, and leaves the one that was. -/
theorem SocketType.link?_switched (socketType : SocketType) :
    ∃ link, socketType.switched.link? = some link ∧ socketType.link? ≠ some link ∧
      ∀ k, socketType.link? = some k → k = link.other := by
  cases socketType with
  | UNSET => exact ⟨.udp, rfl, by decide, by simp [SocketType.link?]⟩
  | TCP_LINK => exact ⟨.udp, rfl, by decide, by simp [SocketType.link?, CliLink.other]⟩
  | UDP_LINK => exact ⟨.tcp, rfl, by decide, by simp [SocketType.link?, CliLink.other]⟩

/-- A step of another thread closes descriptors, if it touches them at all. -/
theorem LinkInv.frame (h : LinkInv s) (hui : t.ui = s.ui) (htype : t.socketType = s.socketType)
    (hfd : ∀ k, checkFd (s.fd k) = false → checkFd (t.fd k) = false)
    (hconnect : s.ui = .connect → t.acked .tcp = false ∧ t.connected = false) : LinkInv t where
  outside := by
    intro hout k hk
    rw [hui] at hout
    rw [htype] at hk
    exact hfd k (h.outside hout k hk)
  own := by
    intro hopen
    rw [hui] at hopen
    obtain ⟨k, hk, hclosed⟩ := h.own hopen
    exact ⟨k, htype ▸ hk, hfd k hclosed⟩
  other := by
    intro hdown k hk
    rw [hui] at hdown
    rw [htype] at hk
    exact hfd _ (h.other hdown k hk)
  connect := by
    intro hc
    rw [hui] at hc
    exact ⟨htype ▸ (h.connect hc).1, hconnect hc⟩

/-- What the receive thread does between two calls changes no link. -/
theorem LinkInv.receiving (h : LinkInv s) (initCliInfo : Bool) (tasks : List ClientTask)
    (rx : RecvPc) : LinkInv { s with initCliInfo := initCliInfo, tasks := tasks, rx := rx } :=
  h.frame rfl rfl (fun _ hk => hk) fun hc => (h.connect hc).2

theorem SwitchPc.switching_of_toOpen {pc : SwitchPc} (h : pc.toOpen = true) :
    pc.switching = true ∧ pc ≠ .connect := by
  cases pc <;> simp_all [SwitchPc.toOpen, SwitchPc.switching]

theorem SwitchPc.of_not_switching {pc : SwitchPc} (h : pc.switching = false) :
    pc.toOpen = false ∧ pc.tornDown = false ∧ pc ≠ .connect := by
  cases pc <;> simp_all [SwitchPc.toOpen, SwitchPc.tornDown, SwitchPc.switching]

theorem LinkInv.of_outside (hui : s.ui.switching = false)
    (hclosed : ∀ k, s.socketType.link? ≠ some k → checkFd (s.fd k) = false) : LinkInv s := by
  obtain ⟨hopen, hdown, hconnect⟩ := SwitchPc.of_not_switching hui
  constructor
  · exact fun _ => hclosed
  · intro h
    rw [hopen] at h
    cases h
  · intro h
    rw [hdown] at h
    cases h
  · intro h
    exact absurd h hconnect

theorem LinkInv.of_toOpen (hui : s.ui.toOpen = true) (hlink : s.socketType.link? = some link)
    (hown : checkFd (s.fd link) = false)
    (hother : s.ui.tornDown = true → checkFd (s.fd link.other) = false) : LinkInv s := by
  obtain ⟨hswitching, hconnect⟩ := SwitchPc.switching_of_toOpen hui
  constructor
  · intro h
    rw [hswitching] at h
    cases h
  · exact fun _ => ⟨link, hlink, hown⟩
  · intro h k hk
    obtain rfl : k = link := Option.some.inj (hk.symm.trans hlink)
    exact hother h
  · intro h
    exact absurd h hconnect

theorem LinkInv.own_closed (h : LinkInv s) (hui : s.ui.toOpen = true)
    (hlink : s.socketType.link? = some link) : checkFd (s.fd link) = false := by
  obtain ⟨k, hk, hclosed⟩ := h.own hui
  obtain rfl : k = link := Option.some.inj (hk.symm.trans hlink)
  exact hclosed

theorem CliLink.other_ne (link : CliLink) : link.other ≠ link := by
  cases link <;> decide

theorem linkInv_uiStep (h : LinkInv s) (hstep : s.uiStep endid serverEndid = some t) :
    LinkInv t := by
  unfold Client.uiStep at hstep
  cases hlink : s.socketType.link? with
  | none => simp [hlink] at hstep
  | some link =>
      simp only [hlink] at hstep
      cases hui : s.ui with
      | checkOther =>
          simp only [hui, Option.some.injEq] at hstep
          subst hstep
          have hown := h.own_closed (by rw [hui]; rfl) hlink
          cases hfd : checkFd (s.fd link.other) with
          | true =>
              refine LinkInv.of_toOpen rfl hlink hown ?_
              intro hdown
              cases hdown
          | false => exact LinkInv.of_toOpen rfl hlink hown fun _ => hfd
      | clearFlag =>
          simp only [hui, Option.some.injEq] at hstep
          subst hstep
          refine LinkInv.of_toOpen rfl hlink (h.own_closed (by rw [hui]; rfl) hlink) ?_
          intro hdown
          cases hdown
      | closeOther =>
          simp only [hui, Option.some.injEq] at hstep
          subst hstep
          refine LinkInv.of_toOpen rfl hlink (h.own_closed (by rw [hui]; rfl) hlink) ?_
          intro hdown
          cases hdown
      | resetOther =>
          simp only [hui, Option.some.injEq] at hstep
          subst hstep
          have hown := h.own_closed (by rw [hui]; rfl) hlink
          refine LinkInv.of_toOpen rfl hlink ?_ ?_
          · simpa only [Function.update_of_ne link.other_ne.symm] using hown
          · intro _
            simp only [Function.update_self]
            decide
      | checkOwn =>
          simp only [hui, Option.some.injEq] at hstep
          subst hstep
          have hown := h.own_closed (by rw [hui]; rfl) hlink
          simp only [hown, Bool.false_eq_true, if_false]
          exact LinkInv.of_toOpen rfl hlink hown fun _ => h.other (by rw [hui]; rfl) link hlink
      | checkFlag i =>
          have hclosed := h.outside (by rw [hui]; rfl)
          simp only [hui] at hstep
          split at hstep
          · cases hstep
            exact LinkInv.of_outside rfl hclosed
          · split at hstep
            · cases hstep
              exact LinkInv.of_outside rfl hclosed
            · cases hstep
              by_cases hi : i < 3
              · simp only [hi, if_true]
                exact LinkInv.of_outside rfl hclosed
              · simp only [hi, if_false]
                exact LinkInv.of_outside rfl hclosed
      | register i =>
          have hclosed := h.outside (by rw [hui]; rfl)
          simp only [hui, Option.some.injEq] at hstep
          subst hstep
          exact LinkInv.of_outside rfl hclosed
      | _ => simp [hui] at hstep

theorem linkInv_socketStep (h : LinkInv s) {fd : Int32} (hstep : s.socketStep fd = some t) :
    LinkInv t := by
  unfold Client.socketStep at hstep
  cases hlink : s.socketType.link? with
  | none => simp [hlink] at hstep
  | some link =>
      simp only [hlink, Option.ite_none_right_eq_some, Option.some.injEq] at hstep
      obtain ⟨hui, rfl⟩ := hstep
      have hother := h.other (by rw [hui]; rfl) link hlink
      by_cases hconnect : link = .tcp ∧ checkFd fd = true
      · obtain ⟨rfl, hfd⟩ := hconnect
        simp only [hfd, and_self, if_true]
        constructor
        · intro hout
          cases hout
        · intro hopen
          cases hopen
        · intro _ k hk
          obtain rfl : k = .tcp := Option.some.inj (hk.symm.trans hlink)
          exact hother
        · intro _
          exact ⟨hlink, rfl, rfl⟩
      · simp only [hconnect, if_false]
        apply LinkInv.of_outside rfl
        intro k hk
        have hne : k ≠ link := by
          rintro rfl
          exact hk hlink
        simp only [Function.update_of_ne hne]
        rw [CliLink.eq_other hne]
        exact hother

theorem linkInv_rxStep (h : LinkInv s) (hstep : s.rxStep = some t) : LinkInv t := by
  unfold Client.rxStep at hstep
  cases hrx : s.rx with
  | receive link opened => simp [hrx] at hstep
  | resetTcp =>
      simp only [hrx, Option.some.injEq] at hstep
      subst hstep
      refine h.frame rfl rfl ?_ fun hc => (h.connect hc).2
      intro k hk
      cases k with
      | tcp =>
          simp only [Function.update_self]
          decide
      | udp => simpa using hk
  | _ =>
      simp only [hrx, Option.some.injEq] at hstep
      subst hstep
      exact h.receiving _ _ _

theorem linkInv_recvStep (h : LinkInv s) {r : RecvRet} (hstep : s.recvStep r = some t) :
    LinkInv t := by
  unfold Client.recvStep at hstep
  cases hrx : s.rx with
  | receive link opened =>
      cases r with
      | error =>
          simp only [hrx, Option.some.injEq] at hstep
          subst hstep
          exact h.receiving _ _ _
      | eof =>
          simp only [hrx, Option.some.injEq] at hstep
          subst hstep
          exact h.receiving _ _ _
      | data c =>
          simp only [hrx, Option.ite_none_right_eq_some, Option.some.injEq] at hstep
          obtain ⟨hdelivers, rfl⟩ := hstep
          unfold Client.received
          split
          · rename_i hack
            refine h.frame rfl rfl (fun _ hk => hk) ?_
            intro hc
            obtain ⟨-, hacked, hconnected⟩ := h.connect hc
            -- before the `connect` nothing comes in on the new TCP descriptor
            have hlink : link ≠ .tcp := by
              rintro rfl
              rw [hdelivers rfl hack.2] at hconnected
              cases hconnected
            exact ⟨by simpa [Function.update_of_ne hlink.symm] using hacked, hconnected⟩
          · exact h.receiving _ _ _
  | _ => simp [hrx] at hstep

theorem linkInv_runStep (h : LinkInv s) {task : ClientTask} (hstep : s.runStep task = some t) :
    LinkInv t := by
  unfold Client.runStep at hstep
  simp only [Option.ite_none_right_eq_some] at hstep
  obtain ⟨-, hstep⟩ := hstep
  cases task <;>
    (simp only [Option.some.injEq] at hstep
     subst hstep
     exact h.receiving _ _ _)

theorem linkInv_step (h : LinkInv s) {e : SwitchEvent}
    (hstep : switchStep endid serverEndid s e = some t) : LinkInv t := by
  cases e with
  | switchSocketType =>
      simp only [switchStep, Option.ite_none_right_eq_some, Option.some.injEq] at hstep
      obtain ⟨hui, rfl⟩ := hstep
      obtain ⟨k, hk, hne, -⟩ := s.socketType.link?_switched
      refine LinkInv.of_toOpen rfl hk (h.outside (by rw [hui]; rfl) k hne) ?_
      intro hdown
      cases hdown
  | ui => exact linkInv_uiStep h hstep
  | socket fd => exact linkInv_socketStep h hstep
  | connect ok =>
      simp only [switchStep, Option.ite_none_right_eq_some, Option.some.injEq] at hstep
      obtain ⟨hui, rfl⟩ := hstep
      have hlink := (h.connect hui).1
      have hother := h.other (by rw [hui]; rfl) .tcp hlink
      apply LinkInv.of_outside rfl
      intro k hk
      have hne : k ≠ .tcp := by
        rintro rfl
        exact hk hlink
      rw [CliLink.eq_other hne]
      exact hother
  | rx => exact linkInv_rxStep h hstep
  | recv r => exact linkInv_recvStep h hstep
  | run task => exact linkInv_runStep h hstep

/-! ## 4. The flag of the runs in which every task is in time -/

structure SwitchInv (s : Client) : Prop where
  links : LinkInv s
  flag : s.initCliInfo = true → MaySetFlag s

theorem maySetFlag_outside (hui : s.ui.switching = false) :
    MaySetFlag s ↔
      ∃ link, s.socketType.link? = some link ∧ s.acked link = true ∧ StaysOpen s link := by
  unfold MaySetFlag
  cases hpc : s.ui with
  | idle => rfl
  | checkFlag i => rfl
  | register i => rfl
  | _ => simp [hpc, SwitchPc.switching] at hui

theorem MaySetFlag.follows (h : MaySetFlag s) (hui : s.ui.switching = false) :
    ∃ link, s.socketType.link? = some link ∧ s.acked link = true := by
  obtain ⟨link, hlink, hacked, -⟩ := (maySetFlag_outside hui).mp h
  exact ⟨link, hlink, hacked⟩

theorem MaySetFlag.frame (h : MaySetFlag s) (hui : t.ui = s.ui)
    (htype : t.socketType = s.socketType) (hacked : ∀ k, s.acked k = true → t.acked k = true)
    (hopen : ∀ k, StaysOpen s k → StaysOpen t k) : MaySetFlag t := by
  unfold MaySetFlag at h ⊢
  rw [hui, htype]
  cases hpc : s.ui with
  | checkOther =>
      rw [hpc] at h
      obtain ⟨k, hk, hstays⟩ := h
      exact ⟨k, hk, hopen _ hstays⟩
  | clearFlag => trivial
  | idle =>
      rw [hpc] at h
      obtain ⟨k, hk, hack, hstays⟩ := h
      exact ⟨k, hk, hacked k hack, hopen k hstays⟩
  | checkFlag i =>
      rw [hpc] at h
      obtain ⟨k, hk, hack, hstays⟩ := h
      exact ⟨k, hk, hacked k hack, hopen k hstays⟩
  | register i =>
      rw [hpc] at h
      obtain ⟨k, hk, hack, hstays⟩ := h
      exact ⟨k, hk, hacked k hack, hopen k hstays⟩
  | _ =>
      rw [hpc] at h
      exact h.elim

/-- Outside a switch nothing but the place of the user interface changes. -/
theorem SwitchInv.outside (h : SwitchInv s) (hui : s.ui.switching = false)
    (ht : s.initCliInfo = true) (tasks : List ClientTask) {pc : SwitchPc}
    (hpc : pc.switching = false) : MaySetFlag { s with tasks := tasks, ui := pc } := by
  obtain ⟨k, hk, hack, hstays⟩ := (maySetFlag_outside hui).mp (h.flag ht)
  exact (maySetFlag_outside hpc).mpr ⟨k, hk, hack, hstays⟩

/-- The receive thread goes on, but not to drop the descriptor. -/
theorem SwitchInv.receiving (h : SwitchInv s) (ht : s.initCliInfo = true)
    (tasks : List ClientTask) {rx : RecvPc} (hdrops : rx.drops = true → s.rx.drops = true) :
    MaySetFlag { s with tasks := tasks, rx := rx } := by
  refine (h.flag ht).frame rfl rfl (fun _ hk => hk) ?_
  rintro k ⟨hopen, hstays⟩
  refine ⟨hopen, ?_⟩
  intro hk
  exact Bool.eq_false_iff.mpr fun hrx => Bool.eq_false_iff.mp (hstays hk) (hdrops hrx)

theorem flag_uiStep (h : SwitchInv s) (hstep : s.uiStep endid serverEndid = some t)
    (ht : t.initCliInfo = true) : MaySetFlag t := by
  unfold Client.uiStep at hstep
  cases hlink : s.socketType.link? with
  | none => simp [hlink] at hstep
  | some link =>
      simp only [hlink] at hstep
      cases hui : s.ui with
      | checkOther =>
          simp only [hui, Option.some.injEq] at hstep
          subst hstep
          have hmay := h.flag ht
          simp only [MaySetFlag, hui] at hmay
          obtain ⟨k, hk, hopen, -⟩ := hmay
          obtain rfl : k = link := Option.some.inj (hk.symm.trans hlink)
          simp only [hopen, if_true, MaySetFlag]
      | clearFlag =>
          simp only [hui, Option.some.injEq] at hstep
          subst hstep
          cases ht
      | closeOther =>
          simp only [hui, Option.some.injEq] at hstep
          subst hstep
          exact absurd (h.flag ht) (by simp [MaySetFlag, hui])
      | resetOther =>
          simp only [hui, Option.some.injEq] at hstep
          subst hstep
          exact absurd (h.flag ht) (by simp [MaySetFlag, hui])
      | checkOwn =>
          simp only [hui, Option.some.injEq] at hstep
          subst hstep
          exact absurd (h.flag ht) (by simp [MaySetFlag, hui])
      | checkFlag i =>
          have hout : s.ui.switching = false := by rw [hui]; rfl
          simp only [hui] at hstep
          split at hstep
          · cases hstep
            exact h.outside hout ht _ rfl
          · split at hstep
            · cases hstep
              exact h.outside hout ht _ rfl
            · cases hstep
              refine h.outside hout ht _ ?_
              by_cases hi : i < 3
              · simp only [hi, if_true]
                rfl
              · simp only [hi, if_false]
                rfl
      | register i =>
          simp only [hui, Option.some.injEq] at hstep
          subst hstep
          exact h.outside (by rw [hui]; rfl) ht _ rfl
      | _ => simp [hui] at hstep

/-- The receive thread sets no flag, and where it is about to close the TCP descriptor it
    has cleared it. -/
theorem flag_rxStep (h : SwitchInv s) (hstep : s.rxStep = some t) (ht : t.initCliInfo = true) :
    MaySetFlag t := by
  unfold Client.rxStep at hstep
  cases hrx : s.rx with
  | receive link opened => simp [hrx] at hstep
  | clearFlag =>
      simp only [hrx, Option.some.injEq] at hstep
      subst hstep
      cases ht
  | closeTcp =>
      simp only [hrx, Option.some.injEq] at hstep
      subst hstep
      exact h.receiving ht _ fun _ => by rw [hrx]; rfl
  | resetTcp =>
      simp only [hrx, Option.some.injEq] at hstep
      subst hstep
      refine (h.flag ht).frame rfl rfl (fun _ hk => hk) ?_
      rintro k ⟨hopen, hdrops⟩
      cases k with
      | tcp =>
          have hnot := hdrops rfl
          rw [hrx] at hnot
          cases hnot
      | udp =>
          refine ⟨by simpa using hopen, ?_⟩
          intro hk
          cases hk
  | choose =>
      simp only [hrx, Option.some.injEq] at hstep
      subst hstep
      refine h.receiving ht _ ?_
      cases s.socketType.link? <;> simp [RecvPc.drops]
  | call link =>
      simp only [hrx, Option.some.injEq] at hstep
      subst hstep
      refine h.receiving ht _ ?_
      cases checkFd (s.fd link) <;> simp [RecvPc.drops]
  | handle msgbuf =>
      simp only [hrx, Option.some.injEq] at hstep
      subst hstep
      exact h.receiving ht _ (by simp [RecvPc.drops])
  | checkTcp =>
      simp only [hrx, Option.some.injEq] at hstep
      subst hstep
      refine h.receiving ht _ ?_
      cases checkFd (s.fd .tcp) <;> simp [RecvPc.drops]

theorem flag_recvStep (h : SwitchInv s) {r : RecvRet} (hstep : s.recvStep r = some t)
    (ht : t.initCliInfo = true) : MaySetFlag t := by
  unfold Client.recvStep at hstep
  cases hrx : s.rx with
  | receive link opened =>
      cases r with
      | error =>
          simp only [hrx, Option.some.injEq] at hstep
          subst hstep
          exact h.receiving ht _ (by simp [RecvPc.drops])
      | eof =>
          simp only [hrx, Option.some.injEq] at hstep
          subst hstep
          refine h.receiving ht _ ?_
          cases link <;> simp [RecvPc.drops]
      | data c =>
          simp only [hrx, Option.ite_none_right_eq_some, Option.some.injEq] at hstep
          obtain ⟨-, rfl⟩ := hstep
          unfold Client.received at ht ⊢
          split at ht
          · rename_i hack
            rw [if_pos hack]
            refine (h.flag ht).frame rfl rfl ?_ fun k hk => ⟨hk.1, fun _ => rfl⟩
            intro k hk
            by_cases hkl : k = link
            · subst hkl
              simp
            · simpa [Function.update_of_ne hkl] using hk
          · rename_i hack
            rw [if_neg hack]
            exact h.receiving ht _ (by simp [RecvPc.drops])
  | _ => simp [hrx] at hstep

theorem flag_runStep (h : SwitchInv s) {task : ClientTask} (hG : RunsInTime s (.run task))
    (hstep : s.runStep task = some t) (ht : t.initCliInfo = true) : MaySetFlag t := by
  simp only [Client.runStep, Option.ite_none_right_eq_some] at hstep
  obtain ⟨-, hstep⟩ := hstep
  cases task with
  | completeInitClientInfo =>
      simp only [Option.some.injEq] at hstep
      subst hstep
      exact MaySetFlag.frame hG rfl rfl (fun _ hk => hk) fun _ hk => hk
  | _ =>
      simp only [Option.some.injEq] at hstep
      subst hstep
      exact (h.flag ht).frame rfl rfl (fun _ hk => hk) fun _ hk => hk

theorem switchInv_step (h : SwitchInv s) {e : SwitchEvent} (hG : RunsInTime s e)
    (hstep : switchStep endid serverEndid s e = some t) : SwitchInv t := by
  refine ⟨linkInv_step h.links hstep, ?_⟩
  intro ht
  cases e with
  | switchSocketType =>
      simp only [switchStep, Option.ite_none_right_eq_some, Option.some.injEq] at hstep
      obtain ⟨hui, rfl⟩ := hstep
      -- the link that was selected is the one that is torn down
      obtain ⟨k, hk, -, hother⟩ := s.socketType.link?_switched
      obtain ⟨k', hk', -, hstays⟩ := (maySetFlag_outside (by rw [hui]; rfl)).mp (h.flag ht)
      exact ⟨k, hk, hother k' hk' ▸ hstays⟩
  | ui => exact flag_uiStep h hstep ht
  | socket fd =>
      simp only [switchStep, Client.socketStep] at hstep
      split at hstep
      · cases hstep
      · simp only [Option.ite_none_right_eq_some, Option.some.injEq] at hstep
        obtain ⟨hui, rfl⟩ := hstep
        exact absurd (h.flag ht) (by simp [MaySetFlag, hui])
  | connect ok =>
      simp only [switchStep, Option.ite_none_right_eq_some, Option.some.injEq] at hstep
      obtain ⟨hui, rfl⟩ := hstep
      exact absurd (h.flag ht) (by simp [MaySetFlag, hui])
  | rx => exact flag_rxStep h hstep ht
  | recv r => exact flag_recvStep h hstep ht
  | run task => exact flag_runStep h hG hstep ht

theorem SwitchInv.follows (h : SwitchInv s) : FlagFollowsLink s :=
  fun hui ht => (h.flag ht).follows hui

theorem newClient_inv : SwitchInv newClient where
  links := LinkInv.of_outside rfl fun _ _ => rfl
  flag := fun h => by cases h

/-! ## 5. Late tasks -/

/-- The user interface and the receive thread can run on to a state in which the flag
    does not follow the link. -/
def GoesWrong (endid serverEndid : EndId) (s : Client) : Prop :=
  ∃ fs, (∀ f ∈ fs, f ≠ SwitchEvent.run .completeInitClientInfo) ∧
    ¬ Always (switchStep endid serverEndid) FlagFollowsLink s fs

theorem GoesWrong.now (h : ¬ FlagFollowsLink s) : GoesWrong endid serverEndid s :=
  ⟨[], by simp, h⟩

theorem GoesWrong.of_step {e : SwitchEvent} (he : e ≠ .run .completeInitClientInfo)
    (hstep : switchStep endid serverEndid s e = some t) (h : GoesWrong endid serverEndid t) :
    GoesWrong endid serverEndid s := by
  obtain ⟨fs, hfs, hno⟩ := h
  refine ⟨e :: fs, ?_, fun hall => hno (hall.2 t hstep)⟩
  intro f hf
  rcases List.mem_cons.mp hf with rfl | hf
  · exact he
  · exact hfs f hf

/-- The flag is set outside a switch, and the selected link was not acknowledged. -/
theorem goesWrong_unacked (hset : s.initCliInfo = true) (hui : s.ui.switching = false)
    (hno : ∀ k, s.socketType.link? = some k → s.acked k = false) :
    GoesWrong endid serverEndid s := by
  apply GoesWrong.now
  intro h
  obtain ⟨k, hk, hack⟩ := h hui hset
  rw [hno k hk] at hack
  cases hack

theorem goesWrong_connect (h : LinkInv s) (hset : s.initCliInfo = true)
    (hui : s.ui = .connect) : GoesWrong endid serverEndid s := by
  obtain ⟨hlink, hacked, -⟩ := h.connect hui
  have hstep : switchStep endid serverEndid s (.connect true) =
      some { s with connected := true, ui := .checkFlag 0 } := by
    rw [switchStep, if_pos hui]
  refine GoesWrong.of_step (by decide) hstep (goesWrong_unacked hset rfl ?_)
  intro k hk
  obtain rfl : k = .tcp := Option.some.inj (hk.symm.trans hlink)
  exact hacked

theorem goesWrong_socket (h : LinkInv s) (hset : s.initCliInfo = true)
    (hlink : s.socketType.link? = some link) (hui : s.ui = .socket) :
    GoesWrong endid serverEndid s := by
  have hstep : switchStep endid serverEndid s (.socket 3) = some { s with
      fd := Function.update s.fd link 3
      opened := Function.update s.opened link (s.opened link + 1)
      acked := Function.update s.acked link false
      connected := if link = .tcp then false else s.connected
      ui := if link = .tcp ∧ checkFd 3 then .connect else .checkFlag 0 } := by
    simp only [switchStep, Client.socketStep, hlink, if_pos hui]
  refine GoesWrong.of_step (by decide) hstep ?_
  cases link with
  | tcp => exact goesWrong_connect (linkInv_step h hstep) hset rfl
  | udp =>
      refine goesWrong_unacked hset rfl ?_
      intro k hk
      obtain rfl : k = .udp := Option.some.inj (hk.symm.trans hlink)
      simp

theorem goesWrong_checkOwn (h : LinkInv s) (hset : s.initCliInfo = true)
    (hlink : s.socketType.link? = some link) (hui : s.ui = .checkOwn) :
    GoesWrong endid serverEndid s := by
  have hown := h.own_closed (by rw [hui]; rfl) hlink
  have hstep : switchStep endid serverEndid s .ui = some { s with ui := .socket } := by
    simp [switchStep, Client.uiStep, hlink, hui, hown]
  exact GoesWrong.of_step (by decide) hstep (goesWrong_socket (linkInv_step h hstep) hset hlink rfl)

theorem goesWrong_resetOther (h : LinkInv s) (hset : s.initCliInfo = true)
    (hlink : s.socketType.link? = some link) (hui : s.ui = .resetOther) :
    GoesWrong endid serverEndid s := by
  have hstep : switchStep endid serverEndid s .ui = some { s with
      fd := Function.update s.fd link.other 0, ui := .checkOwn } := by
    simp [switchStep, Client.uiStep, hlink, hui]
  exact GoesWrong.of_step (by decide) hstep
    (goesWrong_checkOwn (linkInv_step h hstep) hset hlink rfl)

theorem goesWrong_closeOther (h : LinkInv s) (hset : s.initCliInfo = true)
    (hlink : s.socketType.link? = some link) (hui : s.ui = .closeOther) :
    GoesWrong endid serverEndid s := by
  have hstep : switchStep endid serverEndid s .ui = some { s with ui := .resetOther } := by
    simp [switchStep, Client.uiStep, hlink, hui]
  exact GoesWrong.of_step (by decide) hstep
    (goesWrong_resetOther (linkInv_step h hstep) hset hlink rfl)

/-- A switch that finds the other descriptor closed does not clear the flag. -/
theorem goesWrong_checkOther (h : LinkInv s) (hset : s.initCliInfo = true)
    (hlink : s.socketType.link? = some link) (hui : s.ui = .checkOther)
    (hclosed : checkFd (s.fd link.other) = false) : GoesWrong endid serverEndid s := by
  have hstep : switchStep endid serverEndid s .ui = some { s with ui := .checkOwn } := by
    simp [switchStep, Client.uiStep, hlink, hui, hclosed]
  exact GoesWrong.of_step (by decide) hstep
    (goesWrong_checkOwn (linkInv_step h hstep) hset hlink rfl)

/-- So the next switch does not clear it when the selected link is closed already. -/
theorem goesWrong_idle (h : LinkInv s) (hset : s.initCliInfo = true)
    (hlink : s.socketType.link? = some link) (hui : s.ui = .idle)
    (hclosed : checkFd (s.fd link) = false) : GoesWrong endid serverEndid s := by
  obtain ⟨k, hk, -, hother⟩ := s.socketType.link?_switched
  have hstep : switchStep endid serverEndid s .switchSocketType =
      some { s with socketType := s.socketType.switched, ui := .checkOther } := by
    rw [switchStep, if_pos hui]
  have hclosed' : checkFd (s.fd k.other) = false := hother link hlink ▸ hclosed
  exact GoesWrong.of_step (by decide) hstep
    (goesWrong_checkOther (linkInv_step h hstep) hset hk rfl hclosed')

theorem goesWrong_outside (h : LinkInv s) (hset : s.initCliInfo = true)
    (hlink : s.socketType.link? = some link) (hui : s.ui.switching = false)
    (hclosed : checkFd (s.fd link) = false) : GoesWrong endid serverEndid s := by
  -- with the flag set `init_client_info` returns at its next test
  have hcheck : ∀ {u : Client} {i : Nat}, LinkInv u → u.initCliInfo = true →
      u.socketType.link? = some link → u.ui = .checkFlag i → checkFd (u.fd link) = false →
      GoesWrong endid serverEndid u := by
    intro u i hu huset hulink huui huclosed
    have hstep : switchStep endid serverEndid u .ui = some { u with ui := .idle } := by
      simp [switchStep, Client.uiStep, hulink, huui, huset]
    exact GoesWrong.of_step (by decide) hstep
      (goesWrong_idle (linkInv_step hu hstep) huset hulink rfl huclosed)
  cases hpc : s.ui with
  | idle => exact goesWrong_idle h hset hlink hpc hclosed
  | checkFlag i => exact hcheck h hset hlink hpc hclosed
  | register i =>
      have hstep : switchStep endid serverEndid s .ui = some { s with
          tasks := s.tasks ++
            sendMsgBySocket s.socketType (initClientInfoToServer endid serverEndid)
          ui := .checkFlag (i + 1) } := by
        simp [switchStep, Client.uiStep, hlink, hpc]
      exact GoesWrong.of_step (by decide) hstep
        (hcheck (linkInv_step h hstep) hset hlink rfl hclosed)
  | _ => simp [hpc, SwitchPc.switching] at hui

/-- The receive thread goes on to drop the TCP descriptor. -/
theorem goesWrong_drops (h : LinkInv s) (hdrops : s.rx.drops = true)
    (hclosed : ∀ u : Client, LinkInv u → u.initCliInfo = s.initCliInfo →
      u.socketType = s.socketType → u.ui = s.ui → checkFd (u.fd .tcp) = false →
      GoesWrong endid serverEndid u) : GoesWrong endid serverEndid s := by
  have hreset : ∀ u : Client, LinkInv u → u.initCliInfo = s.initCliInfo →
      u.socketType = s.socketType → u.ui = s.ui → u.rx = .resetTcp →
      GoesWrong endid serverEndid u := by
    intro u hu hflag htype hui hrx
    have hstep : switchStep endid serverEndid u .rx =
        some { u with fd := Function.update u.fd .tcp 0, rx := .choose } := by
      simp only [switchStep, Client.rxStep, hrx]
    refine GoesWrong.of_step (by decide) hstep
      (hclosed _ (linkInv_step hu hstep) hflag htype hui ?_)
    simp only [Function.update_self]
    decide
  cases hrx : s.rx with
  | closeTcp =>
      have hstep : switchStep endid serverEndid s .rx = some { s with rx := .resetTcp } := by
        simp only [switchStep, Client.rxStep, hrx]
      exact GoesWrong.of_step (by decide) hstep
        (hreset _ (linkInv_step h hstep) rfl rfl rfl rfl)
  | resetTcp => exact hreset s h rfl rfl rfl hrx
  | _ => simp [hrx, RecvPc.drops] at hdrops

/-- What is not open for good is closed, or about to be. -/
theorem goesWrong_not_staysOpen (h : LinkInv s) {k : CliLink} (hnot : ¬ StaysOpen s k)
    (hclosed : ∀ u : Client, LinkInv u → u.initCliInfo = s.initCliInfo →
      u.socketType = s.socketType → u.ui = s.ui → checkFd (u.fd k) = false →
      GoesWrong endid serverEndid u) : GoesWrong endid serverEndid s := by
  cases hopen : checkFd (s.fd k) with
  | false => exact hclosed s h rfl rfl rfl hopen
  | true =>
      simp only [StaysOpen, hopen, true_and, Classical.not_imp, Bool.not_eq_false] at hnot
      obtain ⟨rfl, hdrops⟩ := hnot
      exact goesWrong_drops h hdrops hclosed

/-- Once the flag is set where it may not be, things can go wrong. -/
theorem goesWrong_of_not_maySetFlag (h : LinkInv s) (hset : s.initCliInfo = true)
    (hnot : ¬ MaySetFlag s) : GoesWrong endid serverEndid s := by
  by_cases hout : s.ui.switching = false
  · by_cases hack : ∃ k, s.socketType.link? = some k ∧ s.acked k = true
    · obtain ⟨k, hk, hack⟩ := hack
      have hnotOpen : ¬ StaysOpen s k := fun hstays =>
        hnot ((maySetFlag_outside hout).mpr ⟨k, hk, hack, hstays⟩)
      apply goesWrong_not_staysOpen h hnotOpen
      intro u hu hflag htype hui hclosed
      exact goesWrong_outside hu (hflag.trans hset) (htype ▸ hk) (hui ▸ hout) hclosed
    · apply goesWrong_unacked hset hout
      intro k hk
      exact Bool.eq_false_iff.mpr fun hacked => hack ⟨k, hk, hacked⟩
  · cases hui : s.ui with
    | checkOther =>
        obtain ⟨k, hk, -⟩ := h.own (by rw [hui]; rfl)
        have hnotOpen : ¬ StaysOpen s k.other := by
          intro hstays
          apply hnot
          simp only [MaySetFlag, hui]
          exact ⟨k, hk, hstays⟩
        apply goesWrong_not_staysOpen h hnotOpen
        intro u hu hflag htype hui' hclosed
        exact goesWrong_checkOther hu (hflag.trans hset) (htype ▸ hk) (hui'.trans hui) hclosed
    | clearFlag => exact absurd (by simp [MaySetFlag, hui]) hnot
    | closeOther =>
        obtain ⟨k, hk, -⟩ := h.own (by rw [hui]; rfl)
        exact goesWrong_closeOther h hset hk hui
    | resetOther =>
        obtain ⟨k, hk, -⟩ := h.own (by rw [hui]; rfl)
        exact goesWrong_resetOther h hset hk hui
    | checkOwn =>
        obtain ⟨k, hk, -⟩ := h.own (by rw [hui]; rfl)
        exact goesWrong_checkOwn h hset hk hui
    | socket =>
        obtain ⟨k, hk, -⟩ := h.own (by rw [hui]; rfl)
        exact goesWrong_socket h hset hk hui
    | connect => exact goesWrong_connect h hset hui
    | _ => simp [hui, SwitchPc.switching] at hout

theorem late_task_goesWrong (h : SwitchInv s) {e : SwitchEvent} (hnot : ¬ RunsInTime s e)
    (hstep : switchStep endid serverEndid s e = some t) : GoesWrong endid serverEndid t := by
  have hlinks := linkInv_step h.links hstep
  match e with
  | .run .completeInitClientInfo =>
      simp only [switchStep, Client.runStep, Option.ite_none_right_eq_some,
        Option.some.injEq] at hstep
      obtain ⟨-, rfl⟩ := hstep
      apply goesWrong_of_not_maySetFlag hlinks rfl
      intro hmay
      exact hnot (hmay.frame rfl rfl (fun _ hk => hk) fun _ hk => hk)
  | .run (.sendMsgByTcp _) | .run (.sendMsgByUdp _) | .run (.dispalyMsgPackage _) =>
      exact absurd trivial hnot
  | .switchSocketType | .ui | .socket _ | .connect _ | .rx | .recv _ =>
      exact absurd trivial hnot

/-! ## 6. Runs -/

/-- However the user switches and the server answers, the flag follows the link, in every
    state of a run and in all that the threads do from there on without another
    `complete_init_client_info`, if and only if each such task of the run is in time. -/
theorem flag_follows_link_iff_runsInTime (endid serverEndid : EndId) {es : List SwitchEvent}
    (hrun : exec (switchStep endid serverEndid) newClient es = some s) :
    (∀ pre, pre <+: es → ∀ fs, (∀ f ∈ fs, f ≠ SwitchEvent.run .completeInitClientInfo) →
        Always (switchStep endid serverEndid) FlagFollowsLink newClient (pre ++ fs)) ↔
      Along (switchStep endid serverEndid) RunsInTime newClient es := by
  refine always_continued_iff_along (J := SwitchInv) (fun _ _ _ h hG ht => switchInv_step h hG ht)
    (fun _ h => h.follows) ?_ (fun _ _ _ h hno ht => late_task_goesWrong h hno ht)
    newClient_inv hrun
  intro u f hf
  unfold RunsInTime
  split
  · exact absurd rfl hf
  · trivial

end Steps

/-- The server acknowledges the registration of client 7. -/
def ackChunk : Chunk sizeofLcMsgPackage :=
  ⟨(saveCliInfoAck 1 7).bytes, by simp [Buf.size, sizeofLcMsgPackage], by simp [Buf.size]⟩

/-- The client starts with UDP, registers and receives the acknowledgement. -/
def acknowledged : List SwitchEvent :=
  [.switchSocketType, .ui, .ui, .socket 3, .ui, .ui, .rx, .rx, .recv (.data ackChunk), .rx]

/-- The task of the acknowledgement runs after the user has switched to TCP. -/
def lateTask : List SwitchEvent :=
  acknowledged ++ [.ui, .ui, .ui, .ui, .switchSocketType, .ui, .ui, .ui, .ui, .ui, .socket 3,
    .connect true, .run .completeInitClientInfo]

/-- The flag says that the client is registered over a TCP link over which nothing was
    sent or received, so `init_client_info` returns at once. -/
theorem udp_ack_counts_for_tcp :
    ∃ s, exec (switchStep 7 1) newClient lateTask = some s ∧ s.ui = .checkFlag 0 ∧
      s.initCliInfo = true ∧ ¬ FlagFollowsLink s := by
  have hrun : (exec (switchStep 7 1) newClient lateTask).map
      (fun s => (s.ui, s.initCliInfo, s.socketType, s.acked .tcp)) =
      some (.checkFlag 0, true, .TCP_LINK, false) := by decide +kernel
  obtain ⟨s, hs, hs'⟩ := Option.map_eq_some_iff.mp hrun
  simp only [Prod.mk.injEq] at hs'
  obtain ⟨hui, hset, htype, hacked⟩ := hs'
  refine ⟨s, hs, hui, hset, ?_⟩
  intro h
  obtain ⟨k, hk, hack⟩ := h (by rw [hui]; rfl) hset
  rw [htype] at hk
  cases hk
  rw [hacked] at hack
  cases hack

def taskInTime : List SwitchEvent :=
  acknowledged ++ [.run .completeInitClientInfo, .ui, .switchSocketType, .ui, .ui]

theorem flag_follows_link_taskInTime :
    ∃ s, exec (switchStep 7 1) newClient taskInTime = some s ∧
      ∀ pre, pre <+: taskInTime → ∀ fs,
        (∀ f ∈ fs, f ≠ SwitchEvent.run .completeInitClientInfo) →
        Always (switchStep 7 1) FlagFollowsLink newClient (pre ++ fs) := by
  have hrun : (exec (switchStep 7 1) newClient taskInTime).isSome = true := by decide +kernel
  obtain ⟨s, hs⟩ := Option.isSome_iff_exists.mp hrun
  exact ⟨s, hs, (flag_follows_link_iff_runsInTime 7 1 hs).mpr (by decide +kernel)⟩

end SocketPractice.Socket
