import Clinch.RemoteControl.Client

/-!
# One live socket

The client of a phone keeps one socket as long as its page's events come in an orderly way: it is
not asked to connect while the close event of a socket is due, and it is not stopped in the middle
of a connection and started again.

* `OneSocket`: what should hold of every reachable state;
* `Event.Orderly`: the events that keep it, given the state before them;
* `Steady`: the invariant, `Attended`: a client that should be connected is busy about it;
* `orderly_oneSocket`: the main result, and `online_while_open`: a run that it excludes.
-/

set_option autoImplicit false

namespace Clinch.Browser

namespace Client

/-- The client is started, and its page is visible and online. -/
def Attentive (c : Client) : Prop := c.stopped = false ∧ c.visible = true ∧ c.online = true

def ReconnectSet (c : Client) : Prop := ∃ t ∈ c.timers, t.callback = .reconnect

/-- Some socket's close event is due. -/
def Closing (c : Client) : Prop := ∃ i, c.readyState i = .closing

/-- `connecting`, without a connection that is under way. -/
def Stuck (c : Client) : Prop :=
  c.connecting = true ∧ c.authentications = 0 ∧ ∀ i, c.readyState i = .closed

/-- `reconnectTimer` is a timer that is not set any more. -/
def Stale (c : Client) : Prop := c.reconnectTimer.isSome = true ∧ ¬ c.ReconnectSet

end Client

/-- The four parts of the client's contract. -/
structure OneSocket (c : Client) : Prop where
  /-- At most one socket is connecting or open. -/
  unique : ∀ i j, (c.readyState i = .connecting ∨ c.readyState i = .opened) →
    (c.readyState j = .connecting ∨ c.readyState j = .opened) → i = j
  /-- A socket whose messages are processed is the newest. -/
  newest : ∀ i, c.readyState i = .opened → i + 1 = c.sockets.length
  /-- The close event of an older socket clears neither the ping timer nor the requests. -/
  older : ∀ i now, c.readyState i ≠ .closed → i + 1 < c.sockets.length →
    (step c (.close i now)).pending = c.pending ∧
      ∀ t ∈ c.timers, c.pingTimer = some t.id → t ∈ (step c (.close i now)).timers
  /-- A client that is started, visible and online has a socket, an authentication or a timer. -/
  busy : c.Attentive → (∃ i, c.readyState i = .connecting ∨ c.readyState i = .opened) ∨
    0 < c.authentications ∨ c.ReconnectSet

/-- Whether the data makes `received` close the socket. -/
def MessageData.Bad : MessageData → Prop
  | .binary bytes => ∀ frame, decodeTerminalOutput bytes ≠ .ok frame
  | .text none => True
  | .text (some envelope) => envelope.version ≠ protocolVersion.toNat

/-- The event comes in order: the client is not asked to connect while a socket is open or its
close event is due, no socket of an attentive client starts its closing, and after a `stop` that
broke off a connection no event relies on what it left behind. -/
def Event.Orderly (c : Client) : Event → Prop
  | .start _ => c.stopped = true → c.visible = true → c.online = true → ¬ c.Stuck ∧ ¬ c.Closing
  | .visibility visible _ =>
    visible = true → c.stopped = false → c.online = true → ¬ c.Stuck ∧ ¬ c.Closing
  | .online _ => c.stopped = false → c.visible = true →
    ¬ c.Stuck ∧ ¬ c.Closing ∧ ∀ i, c.readyState i ≠ .opened
  | .authenticationFailed reason =>
    c.Attentive → c.Stale → isPermanentAuthorizationError reason = true
  | .message _ data => data.Bad → ¬ c.Attentive
  | .error i => c.Attentive → c.readyState i = .closing
  | .close i _ => c.Attentive → c.Stale → ∃ s, c.sockets[i]? = some s ∧ s.reusedSession = true ∧
    s.opened = false
  | _ => True

/-- The states that are reached by orderly events. -/
inductive OrderlyRun : Client → Prop
  | new (visible online : Bool) : OrderlyRun (.new visible online)
  | step {c : Client} (h : OrderlyRun c) (e : Event) (he : e.Enabled c) (ho : e.Orderly c) :
    OrderlyRun (step c e)

/-! ## The invariant -/

/-- What holds in every orderly state, apart from `busy`. -/
structure Steady (c : Client) : Prop where
  current : ∀ i, c.readyState i ≠ .closed → c.socket = some i ∧ i + 1 = c.sockets.length
  connecting : ∀ i, c.readyState i = .connecting → c.connecting = true
  authenticating : 0 < c.authentications →
    c.connecting = true ∧ c.authentications = 1 ∧ ∀ i, c.readyState i = .closed
  reconnect : ∀ t ∈ c.timers, t.callback = .reconnect → c.reconnectTimer = some t.id ∧
    c.authentications = 0 ∧ c.stopped = false ∧ c.connecting = false ∧
    ∀ i, c.readyState i = .closed
  underway : c.Attentive → ¬ c.Stuck
  stopped : c.stopped = true → ∀ i, c.readyState i = .closed ∨ c.readyState i = .closing
  listening : c.stopped = false → c.listening = true
  fresh : ∀ t ∈ c.timers, t.id < c.nextTimer
  nodup : (c.timers.map Timer.id).Nodup

/-- `OneSocket.busy`. -/
def Attended (c : Client) : Prop :=
  c.Attentive → (∃ i, c.readyState i = .connecting ∨ c.readyState i = .opened) ∨
    0 < c.authentications ∨ c.ReconnectSet

/-- Two states that differ in nothing that the invariant reads. -/
structure SameConnection (c c' : Client) : Prop where
  socket : c'.socket = c.socket
  stopped : c'.stopped = c.stopped
  connecting : c'.connecting = c.connecting
  reconnectTimer : c'.reconnectTimer = c.reconnectTimer
  listening : c'.listening = c.listening
  visible : c'.visible = c.visible
  online : c'.online = c.online
  sockets : c'.sockets = c.sockets
  authentications : c'.authentications = c.authentications
  nextTimer : c.nextTimer ≤ c'.nextTimer
  reconnects : ∀ t : Timer, t.callback = .reconnect → (t ∈ c'.timers ↔ t ∈ c.timers)
  fresh : (∀ t ∈ c.timers, t.id < c.nextTimer) → ∀ t ∈ c'.timers, t.id < c'.nextTimer
  nodup : (∀ t ∈ c.timers, t.id < c.nextTimer) → (c.timers.map Timer.id).Nodup →
    (c'.timers.map Timer.id).Nodup

namespace SameConnection

variable {c c' c'' : Client}

theorem refl (c : Client) : SameConnection c c :=
  ⟨rfl, rfl, rfl, rfl, rfl, rfl, rfl, rfl, rfl, le_rfl, fun _ _ => Iff.rfl, fun h => h,
    fun _ h => h⟩

theorem trans (h : SameConnection c c') (h' : SameConnection c' c'') : SameConnection c c'' :=
  ⟨h'.socket.trans h.socket, h'.stopped.trans h.stopped, h'.connecting.trans h.connecting,
    h'.reconnectTimer.trans h.reconnectTimer, h'.listening.trans h.listening,
    h'.visible.trans h.visible, h'.online.trans h.online, h'.sockets.trans h.sockets,
    h'.authentications.trans h.authentications, h.nextTimer.trans h'.nextTimer,
    fun t ht => (h'.reconnects t ht).trans (h.reconnects t ht), fun hf => h'.fresh (h.fresh hf),
    fun hf hn => h'.nodup (h.fresh hf) (h.nodup hf hn)⟩

theorem readyState (h : SameConnection c c') (i : ℕ) : c'.readyState i = c.readyState i := by
  rw [Client.readyState, Client.readyState, h.sockets]

theorem isOpen (h : SameConnection c c') : c'.isOpen = c.isOpen := by
  rw [Client.isOpen, Client.isOpen, h.socket]
  simp only [h.readyState]

theorem attentive (h : SameConnection c c') : c'.Attentive ↔ c.Attentive := by
  rw [Client.Attentive, Client.Attentive, h.stopped, h.visible, h.online]

theorem reconnectSet (h : SameConnection c c') : c'.ReconnectSet ↔ c.ReconnectSet :=
  ⟨fun ⟨t, ht, hr⟩ => ⟨t, (h.reconnects t hr).mp ht, hr⟩,
    fun ⟨t, ht, hr⟩ => ⟨t, (h.reconnects t hr).mpr ht, hr⟩⟩

theorem stuck (h : SameConnection c c') : c'.Stuck ↔ c.Stuck := by
  rw [Client.Stuck, Client.Stuck, h.connecting, h.authentications]
  simp only [h.readyState]

theorem steady (h : SameConnection c c') (hc : Steady c) : Steady c' where
  current i hi := by
    rw [h.readyState] at hi
    rw [h.socket, h.sockets]
    exact hc.current i hi
  connecting i hi := by
    rw [h.readyState] at hi
    rw [h.connecting]
    exact hc.connecting i hi
  authenticating ha := by
    rw [h.authentications] at ha
    rw [h.connecting, h.authentications]
    simp only [h.readyState]
    exact hc.authenticating ha
  reconnect t ht hr := by
    rw [h.reconnectTimer, h.authentications, h.stopped, h.connecting]
    simp only [h.readyState]
    exact hc.reconnect t ((h.reconnects t hr).mp ht) hr
  underway ha := by
    rw [h.stuck]
    exact hc.underway (h.attentive.mp ha)
  stopped hs i := by
    rw [h.readyState]
    exact hc.stopped (h.stopped ▸ hs) i
  listening hs := by
    rw [h.listening]
    exact hc.listening (h.stopped ▸ hs)
  fresh := h.fresh hc.fresh
  nodup := h.nodup hc.fresh hc.nodup

theorem attended (h : SameConnection c c') (hc : Attended c) : Attended c' := by
  intro ha
  rw [h.authentications, h.reconnectSet]
  simp only [h.readyState]
  exact hc (h.attentive.mp ha)

/-- Timers were dropped, but none that reconnects. -/
theorem of_filter {p : Timer → Bool} (hp : ∀ t ∈ c.timers, t.callback = .reconnect → p t = true)
    (h : SameConnection c { c' with timers := c.timers }) (hn : c'.nextTimer = c.nextTimer)
    (ht : c'.timers = c.timers.filter p) : SameConnection c c' where
  socket := h.socket
  stopped := h.stopped
  connecting := h.connecting
  reconnectTimer := h.reconnectTimer
  listening := h.listening
  visible := h.visible
  online := h.online
  sockets := h.sockets
  authentications := h.authentications
  nextTimer := h.nextTimer
  reconnects t hr := by
    rw [ht, List.mem_filter]
    exact ⟨And.left, fun hm => ⟨hm, hp t hm hr⟩⟩
  fresh hf t hm := by
    rw [ht] at hm
    rw [hn]
    exact hf t (List.mem_filter.mp hm).1
  nodup _ hd := by
    rw [ht]
    exact hd.sublist (List.filter_sublist.map _)

theorem notice (n : Notice) (c : Client) : SameConnection c (c.notice n) :=
  ⟨rfl, rfl, rfl, rfl, rfl, rfl, rfl, rfl, rfl, le_rfl, fun _ _ => Iff.rfl, fun h => h,
    fun _ h => h⟩

end SameConnection

/-! ## Connecting -/

open Client

/-- Nothing is under way, and the client is started. -/
structure Idle (c : Client) : Prop where
  closed : ∀ i, c.readyState i = .closed
  authentications : c.authentications = 0
  reconnect : ¬ c.ReconnectSet
  stopped : c.stopped = false
  listening : c.listening = true
  fresh : ∀ t ∈ c.timers, t.id < c.nextTimer
  nodup : (c.timers.map Timer.id).Nodup

theorem readyState_openSocket (c : Client) (r : Bool) (i : ℕ) :
    (c.openSocket r).readyState i = if i = c.sockets.length then .connecting else c.readyState i := by
  rw [readyState, openSocket, readyState]
  split
  · rename_i h
    subst h
    simp
  · rename_i h
    rcases Nat.lt_or_gt_of_ne h with h | h
    · rw [List.getElem?_append_left h]
    · rw [List.getElem?_eq_none (by simp; omega), List.getElem?_eq_none (by omega)]

variable {c : Client}

/-- Nothing is under way. -/
theorem steady_of_closed (hclosed : ∀ i, c.readyState i = .closed) (ha : c.authentications = 0)
    (hr : ¬ c.ReconnectSet) (hc : c.connecting = false)
    (hl : c.stopped = false → c.listening = true) (hf : ∀ t ∈ c.timers, t.id < c.nextTimer)
    (hn : (c.timers.map Timer.id).Nodup) : Steady c where
  current i hi := absurd (hclosed i) hi
  connecting i hi := nomatch (hclosed i).symm.trans hi
  authenticating ha' := absurd ha (Nat.ne_of_gt ha')
  reconnect t ht htr := absurd ⟨t, ht, htr⟩ hr
  underway _ hs := nomatch hc.symm.trans hs.1
  stopped _ i := Or.inl (hclosed i)
  listening := hl
  fresh := hf
  nodup := hn

theorem Idle.steady (h : Idle c) (hc : c.connecting = false) : Steady c :=
  steady_of_closed h.closed h.authentications h.reconnect hc (fun _ => h.listening) h.fresh h.nodup

theorem Idle.openSocket (h : Idle c) (hc : c.connecting = true) (r : Bool) :
    Steady (c.openSocket r) ∧ Attended (c.openSocket r) := by
  have hnew : (c.openSocket r).readyState c.sockets.length = .connecting := by
    rw [readyState_openSocket, if_pos rfl]
  have hlive : ∀ i, (c.openSocket r).readyState i ≠ .closed → i = c.sockets.length := by
    intro i hi
    by_contra hne
    rw [readyState_openSocket, if_neg hne] at hi
    exact hi (h.closed i)
  refine ⟨⟨fun i hi => ?_, fun _ _ => hc, fun ha => ?_, fun t ht hr => ?_, fun _ hs => ?_,
    fun hs => ?_, fun _ => h.listening, h.fresh, h.nodup⟩, fun _ => Or.inl ⟨_, Or.inl hnew⟩⟩
  · rw [hlive i hi]
    exact ⟨rfl, by rw [Client.openSocket, List.length_append, List.length_singleton]⟩
  · exact absurd h.authentications (Nat.ne_of_gt ha)
  · exact absurd ⟨t, ht, hr⟩ h.reconnect
  · exact nomatch hnew.symm.trans (hs.2.2 _)
  · exact nomatch h.stopped.symm.trans hs

theorem Idle.authenticate (h : Idle c) (hc : c.connecting = true) :
    Steady { c with authentications := c.authentications + 1 } ∧
      Attended { c with authentications := c.authentications + 1 } := by
  refine ⟨⟨fun i hi => absurd (h.closed i) hi, fun i hi => (nomatch (h.closed i).symm.trans hi),
    fun _ => ⟨hc, ?_, h.closed⟩, fun t ht hr => absurd ⟨t, ht, hr⟩ h.reconnect, fun _ hs => ?_,
    fun _ i => Or.inl (h.closed i), fun _ => h.listening, h.fresh, h.nodup⟩,
    fun _ => Or.inr (Or.inl (Nat.succ_pos _))⟩
  · exact congrArg (· + 1) h.authentications
  · exact nomatch hs.2.1

/-- `connect` does nothing behind its guards. -/
theorem connect_blocked (now : ℕ) (allow : Bool)
    (h : c.stopped = true ∨ c.connecting = true ∨ c.visible = false ∨ c.online = false) :
    SameConnection c (c.connect now allow) := by
  rw [connect]
  split
  · exact .refl c
  · rename_i hg
    rw [if_pos]
    · exact .notice _ c
    · simp only [Bool.or_eq_true, not_or, Bool.not_eq_true, Bool.not_eq_eq_eq_not,
        Bool.not_true] at hg
      rcases h with h | h | h | h
      · exact nomatch hg.1.1.symm.trans h
      · exact nomatch hg.1.2.symm.trans h
      · rw [h] at hg
        exact absurd rfl hg.2
      · rw [h]
        rfl

theorem Idle.connect (h : Idle c) (hc : c.connecting = false) (now : ℕ) (allow : Bool) :
    Steady (c.connect now allow) ∧ Attended (c.connect now allow) := by
  by_cases hg : c.visible = false ∨ c.online = false
  · have hsame := connect_blocked (c := c) now allow (Or.inr (Or.inr hg))
    refine ⟨hsame.steady (h.steady hc), hsame.attended fun ha => ?_⟩
    rcases hg with hg | hg
    · exact nomatch hg.symm.trans ha.2.1
    · exact nomatch hg.symm.trans ha.2.2
  · simp only [not_or, Bool.not_eq_false] at hg
    have hidle : Idle ({ c with connecting := true }.notice (.connection .reconnecting none)) :=
      ⟨h.closed, h.authentications, h.reconnect, h.stopped, h.listening, h.fresh, h.nodup⟩
    rw [Client.connect, if_neg (by simp [h.stopped, hc, hg.1]), if_neg (by simp [hg.2])]
    simp only
    split
    · have hidle' : Idle { ({ c with connecting := true }.notice
          (.connection .reconnecting none)) with lastSequence := 0 } :=
        ⟨h.closed, h.authentications, h.reconnect, h.stopped, h.listening, h.fresh, h.nodup⟩
      exact hidle'.openSocket rfl true
    · exact hidle.authenticate rfl

theorem nodup_concat {timers : List Timer} {n : ℕ} (hf : ∀ t ∈ timers, t.id < n)
    (hn : (timers.map Timer.id).Nodup) {t : Timer} (ht : t.id = n) :
    ((timers ++ [t]).map Timer.id).Nodup := by
  rw [List.map_append, List.map_singleton, List.nodup_append]
  refine ⟨hn, List.nodup_singleton _, fun a ha b hb => ?_⟩
  obtain ⟨t', ht', rfl⟩ := List.mem_map.mp ha
  rw [List.mem_singleton.mp hb, ht]
  exact Nat.ne_of_lt (hf t' ht')

theorem Idle.scheduleReconnect (h : Idle c) (hc : c.connecting = false)
    (hr : c.Attentive → c.reconnectTimer = none) (announce : Bool) :
    Steady (c.scheduleReconnect announce) ∧ Attended (c.scheduleReconnect announce) := by
  rw [Client.scheduleReconnect]
  split
  · rename_i hg
    refine ⟨h.steady hc, fun ha => ?_⟩
    rw [hr ha, h.stopped] at hg
    exact nomatch hg
  · have hidle : Idle (if announce then c.notice (.connection .reconnecting none) else c) := by
      split
      · exact ⟨h.closed, h.authentications, h.reconnect, h.stopped, h.listening, h.fresh, h.nodup⟩
      · exact h
    have hconn : (if announce then c.notice (.connection .reconnecting none) else c).connecting =
        false := by
      split <;> exact hc
    generalize (if announce then c.notice (.connection .reconnecting none) else c) = c' at hidle hconn
    have hmem : ∀ t, t ∈ c'.timers ++ [⟨c'.nextTimer, min 15000 (750 * 2 ^ c'.reconnectAttempt),
        Callback.reconnect⟩] → t.callback = .reconnect → t.id = c'.nextTimer := by
      intro t ht htr
      rcases List.mem_append.mp ht with ht | ht
      · exact absurd ⟨t, ht, htr⟩ hidle.reconnect
      · rw [List.mem_singleton.mp ht]
    have hnew : (⟨c'.nextTimer, min 15000 (750 * 2 ^ c'.reconnectAttempt), Callback.reconnect⟩ : Timer)
        ∈ c'.timers ++ [⟨c'.nextTimer, min 15000 (750 * 2 ^ c'.reconnectAttempt), .reconnect⟩] :=
      List.mem_append_right _ List.mem_cons_self
    refine ⟨⟨fun i hi => absurd (hidle.closed i) hi,
      fun i hi => (nomatch (hidle.closed i).symm.trans hi),
      fun ha => absurd hidle.authentications (Nat.ne_of_gt ha), fun t ht htr => ?_,
      fun _ hs => (nomatch hconn.symm.trans hs.1), fun _ i => Or.inl (hidle.closed i),
      fun _ => hidle.listening, fun t ht => ?_, ?_⟩,
      fun _ => Or.inr (Or.inr ?_)⟩
    · exact ⟨congrArg some (hmem t ht htr).symm, hidle.authentications, hidle.stopped, hconn,
        hidle.closed⟩
    · rcases List.mem_append.mp ht with ht | ht
      · exact Nat.lt_succ_of_lt (hidle.fresh t ht)
      · rw [List.mem_singleton.mp ht]
        exact Nat.lt_succ_self _
    · exact nodup_concat hidle.fresh hidle.nodup rfl
    · exact ⟨_, hnew, rfl⟩

/-! ## Closing -/

theorem readyState_modify (c : Client) (i j : ℕ) (f : Socket → Socket) :
    ({ c with sockets := c.sockets.modify i f } : Client).readyState j =
      if i = j then (c.sockets[j]?.map fun s => (f s).readyState).getD .closed
      else c.readyState j := by
  rw [readyState, readyState]
  simp only [List.getElem?_modify]
  split
  · rename_i h
    subst h
    cases c.sockets[i]? <;> simp
  · simp

theorem exists_socket {i : ℕ} (hi : c.readyState i ≠ .closed) : ∃ s, c.sockets[i]? = some s := by
  cases hs : c.sockets[i]? with
  | none =>
    rw [readyState, hs] at hi
    exact absurd rfl hi
  | some s => exact ⟨s, rfl⟩

theorem Socket.close_readyState (s : Socket) :
    s.close.readyState = .closed ↔ s.readyState = .closed := by
  rw [Socket.close]
  split <;> rename_i h <;> simp [h]

theorem Socket.close_ne (s : Socket) :
    s.close.readyState ≠ .connecting ∧ s.close.readyState ≠ .opened := by
  rw [Socket.close]
  split <;> rename_i h <;> simp [h]

theorem closeSocket_closed (c : Client) (i j : ℕ) :
    (c.closeSocket i).readyState j = .closed ↔ c.readyState j = .closed := by
  rw [closeSocket, readyState_modify]
  split
  · rw [readyState]
    cases c.sockets[j]? with
    | none => exact Iff.rfl
    | some s => exact s.close_readyState
  · exact Iff.rfl

theorem closeSocket_self (c : Client) (i : ℕ) :
    (c.closeSocket i).readyState i = .closed ∨ (c.closeSocket i).readyState i = .closing := by
  rw [closeSocket, readyState_modify, if_pos rfl]
  cases c.sockets[i]? with
  | none => exact Or.inl rfl
  | some s =>
    have := s.close_ne
    simp only [Option.map_some, Option.getD_some]
    cases h : s.close.readyState with
    | connecting => exact absurd h this.1
    | opened => exact absurd h this.2
    | closing => exact Or.inr rfl
    | closed => exact Or.inl rfl

/-- Only the socket that is closed changes. -/
theorem closeSocket_live (c : Client) (i j : ℕ)
    (h : (c.closeSocket i).readyState j = .connecting ∨ (c.closeSocket i).readyState j = .opened) :
    i ≠ j ∧ (c.closeSocket i).readyState j = c.readyState j := by
  have hne : i ≠ j := by
    rintro rfl
    rcases closeSocket_self c i with hs | hs <;> rcases h with h | h <;>
      exact nomatch hs.symm.trans h
  exact ⟨hne, by rw [closeSocket, readyState_modify, if_neg hne]⟩

theorem Steady.closeSocket (h : Steady c) (i : ℕ) : Steady (c.closeSocket i) where
  current j hj := by
    rw [ne_eq, closeSocket_closed] at hj
    refine ⟨(h.current j hj).1, ?_⟩
    rw [Client.closeSocket, List.length_modify]
    exact (h.current j hj).2
  connecting j hj := by
    obtain ⟨-, he⟩ := closeSocket_live c i j (Or.inl hj)
    exact h.connecting j (he ▸ hj)
  authenticating ha := by
    simp only [closeSocket_closed]
    exact h.authenticating ha
  reconnect t ht hr := by
    simp only [closeSocket_closed]
    exact h.reconnect t ht hr
  underway ha hstuck := by
    rw [Stuck] at hstuck
    simp only [closeSocket_closed] at hstuck
    exact h.underway ha hstuck
  stopped hs j := by
    by_cases hij : i = j
    · subst hij
      exact closeSocket_self c i
    · rw [Client.closeSocket, readyState_modify, if_neg hij]
      exact h.stopped hs j
  listening := h.listening
  fresh := h.fresh
  nodup := h.nodup

theorem closeCurrent_eq (c : Client) :
    c.closeCurrent = c ∨ ∃ i, c.socket = some i ∧ c.closeCurrent = c.closeSocket i := by
  rw [Client.closeCurrent]
  split
  · rename_i i hi
    exact Or.inr ⟨i, hi, rfl⟩
  · exact Or.inl rfl

theorem Steady.closeCurrent (h : Steady c) : Steady c.closeCurrent := by
  rcases closeCurrent_eq c with he | ⟨i, -, he⟩
  · rw [he]
    exact h
  · rw [he]
    exact h.closeSocket i

theorem closeCurrent_live (h : Steady c) (i : ℕ) :
    c.closeCurrent.readyState i = .closed ∨ c.closeCurrent.readyState i = .closing := by
  by_cases hi : c.readyState i = .closed
  · refine Or.inl ?_
    rcases closeCurrent_eq c with he | ⟨j, -, he⟩
    · rw [he, hi]
    · rw [he, closeSocket_closed, hi]
  · -- a socket that is not closed is the current one
    have he : c.closeCurrent.sockets = (c.closeSocket i).sockets := by
      rw [Client.closeCurrent, (h.current i hi).1]
      rfl
    rw [readyState, he]
    exact closeSocket_self c i

theorem Steady.isOpen (h : Steady c) : c.isOpen = true ↔ ∃ i, c.readyState i = .opened := by
  rw [Client.isOpen, Option.any_eq_true]
  constructor
  · rintro ⟨i, -, hi⟩
    exact ⟨i, of_decide_eq_true hi⟩
  · rintro ⟨i, hi⟩
    exact ⟨i, (h.current i (by rw [hi]; exact nofun)).1, decide_eq_true hi⟩

/-- While a socket's close event is due nothing else goes on. -/
theorem Steady.not_reconnectSet (h : Steady c) {i : ℕ} (hi : c.readyState i ≠ .closed) :
    ¬ c.ReconnectSet := fun ⟨t, ht, hr⟩ => hi ((h.reconnect t ht hr).2.2.2.2 i)

theorem Steady.authentications_eq (h : Steady c) {i : ℕ} (hi : c.readyState i ≠ .closed) :
    c.authentications = 0 := by
  by_contra ha
  exact hi ((h.authenticating (Nat.pos_of_ne_zero ha)).2.2 i)

/-! ## The events -/

/-- What a step has to show. -/
def Kept (c : Client) : Prop := Steady c ∧ Attended c

theorem SameConnection.kept {c' : Client} (h : SameConnection c c') (hc : Kept c) : Kept c' :=
  ⟨h.steady hc.1, h.attended hc.2⟩

theorem kept_of_not_attentive (h : Steady c) (ha : ¬ c.Attentive) : Kept c :=
  ⟨h, fun ha' => absurd ha' ha⟩

/-- A guard of `connect` stops a client that is not attentive. -/
theorem Steady.connect_not_attentive (h : Steady c) (hatt : ¬ c.Attentive) (now : ℕ)
    (allow : Bool) : Kept (c.connect now allow) := by
  refine (connect_blocked now allow ?_).kept (kept_of_not_attentive h hatt)
  by_contra hg
  simp only [not_or, Bool.not_eq_true, Bool.not_eq_false] at hg
  exact hatt ⟨hg.1, hg.2.2⟩

/-- An attentive client without a socket, an authentication or a timer is idle. -/
theorem Steady.idle (h : Steady c) (hatt : c.Attentive) (hclosed : ∀ i, c.readyState i = .closed)
    (ha : c.authentications = 0) (hr : ¬ c.ReconnectSet) : Idle c ∧ c.connecting = false := by
  refine ⟨⟨hclosed, ha, hr, hatt.1, h.listening hatt.1, h.fresh, h.nodup⟩, ?_⟩
  by_contra hc
  exact h.underway hatt ⟨by simpa using hc, ha, hclosed⟩

/-- The handlers that clear the reconnect timer and connect. -/
theorem Steady.reconnect_now (h : Steady c) (now : ℕ)
    (hlive : ∀ i, c.readyState i ≠ .closed → c.readyState i = .connecting ∨ ¬ c.Attentive) :
    Kept ({ c.clearTimer c.reconnectTimer with reconnectTimer := none }.connect now true) := by
  have hclear : ∀ t ∈ (c.clearTimer c.reconnectTimer).timers, t.callback ≠ .reconnect := by
    intro t ht hr
    have hm := List.mem_filter.mp ht
    exact of_decide_eq_true hm.2 (h.reconnect t hm.1 hr).1.symm
  have hr : ¬ ({ c.clearTimer c.reconnectTimer with reconnectTimer := none } : Client).ReconnectSet :=
    fun ⟨t, ht, hr⟩ => hclear t ht hr
  have hsteady : Steady { c.clearTimer c.reconnectTimer with reconnectTimer := none } :=
    ⟨h.current, h.connecting, h.authenticating, fun t ht hr => absurd hr (hclear t ht), h.underway,
      h.stopped, h.listening, fun t ht => h.fresh t (List.mem_filter.mp ht).1,
      h.nodup.sublist (List.filter_sublist.map _)⟩
  by_cases hatt : c.Attentive
  · by_cases hclosed : ∀ i, c.readyState i = .closed
    · by_cases ha : 0 < c.authentications
      · exact (connect_blocked (c := { c.clearTimer c.reconnectTimer with reconnectTimer := none })
          now true (Or.inr (Or.inl (h.authenticating ha).1))).kept
          ⟨hsteady, fun _ => Or.inr (Or.inl ha)⟩
      · obtain ⟨hidle, hc⟩ := hsteady.idle hatt hclosed (Nat.eq_zero_of_not_pos ha) hr
        exact hidle.connect hc now true
    · obtain ⟨i, hi⟩ := not_forall.mp hclosed
      have hconn := (hlive i hi).resolve_right fun hn => hn hatt
      exact (connect_blocked (c := { c.clearTimer c.reconnectTimer with reconnectTimer := none })
        now true (Or.inr (Or.inl (h.connecting i hconn)))).kept
        ⟨hsteady, fun _ => Or.inl ⟨i, Or.inl hconn⟩⟩
  · exact hsteady.connect_not_attentive hatt now true

theorem kept_start (h : Kept c) (now : ℕ) (ho : Event.Orderly c (.start now)) :
    Kept (c.start now) := by
  rw [Client.start]
  split
  · exact h
  · rename_i hs
    have hs : c.stopped = true := by simpa using hs
    have hr : ¬ c.ReconnectSet := fun ⟨t, ht, hr⟩ =>
      (nomatch hs.symm.trans (h.1.reconnect t ht hr).2.2.1)
    have hsteady : Steady { c with stopped := false, listening := true } :=
      ⟨h.1.current, h.1.connecting, h.1.authenticating, fun t ht htr => absurd ⟨t, ht, htr⟩ hr,
        fun ha => (ho hs ha.2.1 ha.2.2).1, fun h => (nomatch h), fun _ => rfl, h.1.fresh, h.1.nodup⟩
    by_cases hatt : ({ c with stopped := false, listening := true } : Client).Attentive
    · have hclosed : ∀ i, c.readyState i = .closed := fun i =>
        (h.1.stopped hs i).resolve_right fun hi => (ho hs hatt.2.1 hatt.2.2).2 ⟨i, hi⟩
      by_cases ha : 0 < c.authentications
      · exact (connect_blocked (c := { c with stopped := false, listening := true }) now true
          (Or.inr (Or.inl (h.1.authenticating ha).1))).kept ⟨hsteady, fun _ => Or.inr (Or.inl ha)⟩
      · obtain ⟨hidle, hc⟩ := hsteady.idle hatt hclosed (Nat.eq_zero_of_not_pos ha) hr
        exact hidle.connect hc now true
    · exact hsteady.connect_not_attentive hatt now true

theorem rejectPending_sameConnection (hr : ¬ c.ReconnectSet) (message : String) :
    SameConnection c (c.rejectPending message) :=
  .of_filter (fun t ht hc => absurd ⟨t, ht, hc⟩ hr)
    ⟨rfl, rfl, rfl, rfl, rfl, rfl, rfl, rfl, rfl, le_rfl, fun _ _ => Iff.rfl, fun h => h,
      fun _ h => h⟩ rfl rfl

theorem kept_stop (h : Kept c) : Kept c.stop := by
  have hclear : ∀ t ∈ ((c.clearTimer c.reconnectTimer).clearTimer c.pingTimer).timers,
      t ∈ c.timers ∧ t.callback ≠ .reconnect := by
    intro t ht
    have hm := List.mem_filter.mp (List.mem_filter.mp ht).1
    exact ⟨hm.1, fun hr => of_decide_eq_true hm.2 (h.1.reconnect t hm.1 hr).1.symm⟩
  have hclose := h.1.closeCurrent
  have hlive := closeCurrent_live h.1
  have hsteady : Steady ((({ c with stopped := true, listening := false } : Client).clearTimer
      c.reconnectTimer).clearTimer c.pingTimer).closeCurrent :=
    ⟨hclose.current, hclose.connecting, hclose.authenticating,
      fun t ht hr => absurd hr (hclear t ht).2, fun ha => (nomatch ha.1),
      fun _ => hlive, fun hs => (nomatch hs),
      fun t ht => h.1.fresh t (hclear t ht).1,
      h.1.nodup.sublist ((List.filter_sublist.trans List.filter_sublist).map _)⟩
  refine (rejectPending_sameConnection ?_ "Disconnected").kept
    (kept_of_not_attentive hsteady fun ha => (nomatch ha.1))
  exact fun ⟨t, ht, hr⟩ => (hclear t ht).2 hr

theorem kept_visibility (h : Kept c) (visible : Bool) (now : ℕ)
    (ho : Event.Orderly c (.visibility visible now)) : Kept (step c (.visibility visible now)) := by
  have hsteady : Steady { c with visible := visible } :=
    ⟨h.1.current, h.1.connecting, h.1.authenticating, h.1.reconnect,
      fun ha => (ho ha.2.1 ha.1 ha.2.2).1, h.1.stopped, h.1.listening, h.1.fresh, h.1.nodup⟩
  rw [step]
  simp only
  split
  · rw [visibilityChanged]
    simp only
    split
    · split
      · rename_i hopen
        obtain ⟨i, hi⟩ := hsteady.isOpen.mp hopen
        exact ⟨hsteady, fun _ => Or.inl ⟨i, Or.inr hi⟩⟩
      · rename_i hv hopen
        refine hsteady.reconnect_now now fun i hi => ?_
        cases hstate : c.readyState i with
        | connecting => exact Or.inl hstate
        | opened => exact absurd (hsteady.isOpen.mpr ⟨i, hstate⟩) hopen
        | closing => exact Or.inr fun ha => (ho hv ha.1 ha.2.2).2 ⟨i, hstate⟩
        | closed => exact absurd hstate hi
    · rename_i hv
      exact kept_of_not_attentive hsteady.closeCurrent fun ha => hv ha.2.1
  · rename_i hl
    exact kept_of_not_attentive hsteady fun ha => hl (hsteady.listening ha.1)

theorem kept_online (h : Kept c) (now : ℕ) (ho : Event.Orderly c (.online now)) :
    Kept (step c (.online now)) := by
  have hsteady : Steady { c with online := true } :=
    ⟨h.1.current, h.1.connecting, h.1.authenticating, h.1.reconnect,
      fun ha => (ho ha.1 ha.2.1).1, h.1.stopped, h.1.listening, h.1.fresh, h.1.nodup⟩
  rw [step]
  simp only
  split
  · refine hsteady.reconnect_now now fun i hi => ?_
    cases hstate : c.readyState i with
    | connecting => exact Or.inl hstate
    | opened => exact Or.inr fun ha => (ho ha.1 ha.2.1).2.2 i hstate
    | closing => exact Or.inr fun ha => (ho ha.1 ha.2.1).2.1 ⟨i, hstate⟩
    | closed => exact absurd hstate hi
  · rename_i hl
    exact kept_of_not_attentive hsteady fun ha => hl (hsteady.listening ha.1)

theorem kept_offline (h : Kept c) : Kept (step c .offline) := by
  have hsteady : Steady { c with online := false } :=
    ⟨h.1.current, h.1.connecting, h.1.authenticating, h.1.reconnect,
      fun ha => (nomatch ha.2.2), h.1.stopped, h.1.listening, h.1.fresh, h.1.nodup⟩
  rw [step]
  simp only
  split
  · exact kept_of_not_attentive ((SameConnection.notice _ _).steady hsteady).closeCurrent
      fun ha => (nomatch ha.2.2)
  · exact kept_of_not_attentive hsteady fun ha => (nomatch ha.2.2)

theorem kept_timer (h : Kept c) {t : Timer} (ht : t ∈ c.timers) (now : ℕ) :
    Kept (c.timerFired t now) := by
  have huniq : ∀ t' ∈ c.timers, t'.id = t.id → t' = t := fun t' ht' he =>
    List.inj_on_of_nodup_map h.1.nodup ht' ht he
  rw [timerFired]
  split
  · rename_i hr
    obtain ⟨htimer, ha, hs, hc, hclosed⟩ := h.1.reconnect t ht hr
    have hclear : ∀ t' ∈ (c.clearTimer t.id).timers, t' ∈ c.timers ∧ t'.callback ≠ .reconnect := by
      intro t' ht'
      have hm := List.mem_filter.mp ht'
      refine ⟨hm.1, fun hr' => of_decide_eq_true hm.2 ?_⟩
      exact (h.1.reconnect t' hm.1 hr').1.symm.trans htimer
    have hidle : Idle { c.clearTimer t.id with reconnectTimer := none } :=
      ⟨hclosed, ha, fun ⟨t', ht', hr'⟩ => (hclear t' ht').2 hr', hs, h.1.listening hs,
        fun t' ht' => h.1.fresh t' (hclear t' ht').1,
        h.1.nodup.sublist (List.filter_sublist.map _)⟩
    exact hidle.connect hc now true
  · exact h
  · rename_i requestId hr
    refine SameConnection.kept (.trans ?_ (.notice _ _)) h
    refine .of_filter (fun t' ht' hr' => ?_) ⟨rfl, rfl, rfl, rfl, rfl, rfl, rfl, rfl, rfl, le_rfl,
      fun _ _ => Iff.rfl, fun h => h, fun _ h => h⟩ rfl rfl
    refine decide_eq_true fun he => ?_
    rw [huniq t' ht' (Option.some.inj he), hr] at hr'
    exact nomatch hr'

theorem kept_authenticated (h : Kept c) (ha : 0 < c.authentications) (replayed : Bool) (now : ℕ) :
    Kept (c.authenticated replayed now) := by
  obtain ⟨hc, hone, hclosed⟩ := h.1.authenticating ha
  have hr : ¬ c.ReconnectSet := fun ⟨t, ht, hr⟩ => Nat.ne_of_gt ha (h.1.reconnect t ht hr).2.1
  have hzero : c.authentications - 1 = 0 := by omega
  rw [Client.authenticated]
  simp only
  split
  · rename_i hs
    refine kept_of_not_attentive ⟨h.1.current, h.1.connecting, fun ha' => ?_,
      fun t ht htr => absurd ⟨t, ht, htr⟩ hr, fun ha' => (nomatch hs.symm.trans ha'.1), h.1.stopped,
      h.1.listening, h.1.fresh, h.1.nodup⟩ fun ha' => (nomatch hs.symm.trans ha'.1)
    exact absurd hzero (Nat.ne_of_gt ha')
  · rename_i hs
    have hs : c.stopped = false := by simpa using hs
    have hidle : Idle { c with
        authentications := c.authentications - 1
        authenticatedAt := some now
        lastSequence := if replayed then c.lastSequence else 0 } :=
      ⟨hclosed, hzero, hr, hs, h.1.listening hs, h.1.fresh, h.1.nodup⟩
    exact hidle.openSocket hc false

theorem kept_authenticationFailed (h : Kept c) (ha : 0 < c.authentications) (reason : String)
    (ho : Event.Orderly c (.authenticationFailed reason)) :
    Kept (c.authenticationFailed reason) := by
  obtain ⟨-, hone, hclosed⟩ := h.1.authenticating ha
  have hr : ¬ c.ReconnectSet := fun ⟨t, ht, hr⟩ => Nat.ne_of_gt ha (h.1.reconnect t ht hr).2.1
  have hzero : c.authentications - 1 = 0 := by omega
  rw [Client.authenticationFailed]
  simp only
  split
  · refine (SameConnection.notice _ _).kept (kept_of_not_attentive ?_ fun ha' => (nomatch ha'.1))
    exact steady_of_closed hclosed hzero hr rfl (fun hs => (nomatch hs)) h.1.fresh h.1.nodup
  · rename_i hp
    by_cases hs : c.stopped = true
    · rw [Client.scheduleReconnect, if_pos (by simp [Client.notice, hs])]
      refine (SameConnection.notice _ _).kept (kept_of_not_attentive ?_ fun ha' => ?_)
      · exact steady_of_closed hclosed hzero hr rfl h.1.listening h.1.fresh h.1.nodup
      · exact nomatch hs.symm.trans ha'.1
    · have hs : c.stopped = false := by simpa using hs
      have hidle : Idle ({ c with
          authentications := c.authentications - 1
          connecting := false }.notice (.connection .macOffline reason)) :=
        ⟨hclosed, hzero, hr, hs, h.1.listening hs, h.1.fresh, h.1.nodup⟩
      refine hidle.scheduleReconnect rfl (fun ha' => ?_) false
      by_contra hne
      exact hp (ho ha' ⟨Option.isSome_iff_ne_none.mpr hne, hr⟩)

/-- A timer that does not reconnect. -/
theorem Steady.setTimer (h : Steady c) {callback : Callback} (hc : callback ≠ .reconnect)
    (delay : ℕ) : Steady (c.setTimer callback delay) := by
  have hmem : ∀ t ∈ (c.setTimer callback delay).timers, t.callback = .reconnect → t ∈ c.timers := by
    intro t ht hr
    refine (List.mem_append.mp ht).resolve_right fun hm => hc ?_
    rw [List.mem_singleton.mp hm] at hr
    exact hr
  refine ⟨h.current, h.connecting, h.authenticating,
    fun t ht hr => h.reconnect t (hmem t ht hr) hr, h.underway, h.stopped, h.listening,
    fun t ht => ?_, nodup_concat h.fresh h.nodup rfl⟩
  rcases List.mem_append.mp ht with ht | ht
  · exact Nat.lt_succ_of_lt (h.fresh t ht)
  · rw [List.mem_singleton.mp ht]
    exact Nat.lt_succ_self _

theorem kept_opened (h : Kept c) {i : ℕ} (hi : c.readyState i = .connecting) :
    Kept (step c (.opened i)) := by
  have hlive : c.readyState i ≠ .closed := by rw [hi]; exact nofun
  obtain ⟨hcur, hlen⟩ := h.1.current i hlive
  have hr := h.1.not_reconnectSet hlive
  obtain ⟨s, hs⟩ := exists_socket hlive
  let c' : Client := { c with
    sockets := (c.sockets.modify i fun s => { s with readyState := .opened }).modify i fun s =>
      { s with opened := true }
    connecting := false
    reconnectAttempt := 0
    notices := c.notices ++ [.connection .connected none]
    pingTimer := some c.nextTimer }
  have hself : c'.readyState i = .opened := by
    rw [readyState, List.getElem?_modify_eq, List.getElem?_modify_eq, hs]
    rfl
  have hother : ∀ j, c'.readyState j ≠ .closed → j = i := fun j hj => by
    by_contra hne
    rw [readyState, List.getElem?_modify_ne _ _ (Ne.symm hne),
      List.getElem?_modify_ne _ _ (Ne.symm hne)] at hj
    have := (h.1.current j hj).2
    omega
  have hstopped : c.stopped = false := by
    by_contra hne
    rcases h.1.stopped (by simpa using hne) i with hc | hc <;> exact nomatch hi.symm.trans hc
  have hsteady : Steady c' := by
    refine ⟨fun j hj => ?_, fun j hj => ?_, fun ha => absurd (h.1.authentications_eq hlive)
      (Nat.ne_of_gt ha), fun t ht htr => absurd ⟨t, ht, htr⟩ hr, fun _ hstuck => (nomatch hstuck.1),
      fun hs => (nomatch hstopped.symm.trans hs), h.1.listening, h.1.fresh, h.1.nodup⟩
    · rw [hother j hj, List.length_modify, List.length_modify]
      exact ⟨hcur, hlen⟩
    · rw [hother j (by rw [hj]; exact nofun), hself] at hj
      exact nomatch hj
  exact ⟨Steady.setTimer hsteady (show Callback.ping ≠ .reconnect from nofun) 20000, fun _ => Or.inl ⟨i, Or.inr hself⟩⟩

/-- A request that waits is not a timer that reconnects. -/
theorem resolvePending_sameConnection (hr : ¬ c.ReconnectSet) (envelope : ServerEnvelope) :
    SameConnection c (c.resolvePending envelope) := by
  rw [resolvePending]
  split
  · exact .refl c
  · split
    · exact .refl c
    · refine .trans ?_ (.notice _ _)
      exact .of_filter (fun t ht hc => absurd ⟨t, ht, hc⟩ hr)
        ⟨rfl, rfl, rfl, rfl, rfl, rfl, rfl, rfl, rfl, le_rfl, fun _ _ => Iff.rfl, fun h => h,
          fun _ h => h⟩ rfl rfl

theorem lastSequence_sameConnection (n : ℕ) : SameConnection c { c with lastSequence := n } :=
  ⟨rfl, rfl, rfl, rfl, rfl, rfl, rfl, rfl, rfl, le_rfl, fun _ _ => Iff.rfl, fun h => h,
    fun _ h => h⟩

/-- A message that is not bad changes nothing of the connection. -/
theorem received_sameConnection (h : Steady c) {i : ℕ} (hi : c.readyState i = .opened)
    {data : MessageData} (hd : ¬ data.Bad) : SameConnection c (c.received data) := by
  have hlive : c.readyState i ≠ .closed := by rw [hi]; exact nofun
  cases data with
  | binary bytes =>
    rw [received]
    split
    · exact .notice _ c
    · rename_i message hm
      exact absurd (fun frame hf => nomatch hm.symm.trans hf) hd
  | text envelope =>
    cases envelope with
    | none => exact absurd trivial hd
    | some envelope =>
      have hsame := resolvePending_sameConnection (h.not_reconnectSet hlive) envelope
      rw [received, if_neg (show ¬ envelope.version ≠ protocolVersion.toNat from hd)]
      simp only
      split
      · exact hsame.trans (.notice _ _)
      · split
        · exact hsame
        · split
          · have hopen : ((c.resolvePending envelope).notice (.resync true)).isOpen = true := by
              rw [(hsame.trans (.notice _ _)).isOpen, h.isOpen]
              exact ⟨i, hi⟩
            rw [if_pos hopen]
            exact hsame.trans (.notice _ _)
          · exact ((hsame.trans (lastSequence_sameConnection _)).trans (.notice _ _)).trans
              (.notice _ _)

/-- A bad message says so, and closes the socket. -/
theorem received_bad {data : MessageData} (hd : data.Bad) :
    ∃ c', SameConnection c c' ∧ c.received data = c'.closeCurrent := by
  cases data with
  | binary bytes =>
    rw [received]
    split
    · rename_i frame hf
      exact absurd hf (hd frame)
    · exact ⟨_, .notice _ c, rfl⟩
  | text envelope =>
    cases envelope with
    | none => exact ⟨c, .refl c, rfl⟩
    | some envelope =>
      rw [received, if_pos (show envelope.version ≠ protocolVersion.toNat from hd)]
      exact ⟨_, .notice _ c, rfl⟩

theorem kept_message (h : Kept c) {i : ℕ} (hi : c.readyState i = .opened) (data : MessageData)
    (ho : Event.Orderly c (.message i data)) : Kept (c.received data) := by
  by_cases hd : data.Bad
  · obtain ⟨c', hsame, he⟩ := received_bad (c := c) hd
    rw [he]
    refine kept_of_not_attentive (hsame.steady h.1).closeCurrent fun ha => ho hd ?_
    rw [← hsame.attentive]
    rcases closeCurrent_eq c' with hc | ⟨j, -, hc⟩ <;> rwa [hc] at ha
  · exact (received_sameConnection h.1 hi hd).kept h

theorem kept_error (h : Kept c) {i : ℕ} (ho : Event.Orderly c (.error i)) :
    Kept (c.closeSocket i) := by
  by_cases ha : c.Attentive
  · have hi : c.readyState i = .closing := ho ha
    have hsame : c.closeSocket i = c := by
      rw [closeSocket]
      congr 1
      refine List.ext_getElem? fun j => ?_
      rw [List.getElem?_modify]
      split
      · rename_i hij
        subst hij
        rw [readyState] at hi
        cases hs : c.sockets[i]? with
        | none => rfl
        | some s =>
          rw [hs] at hi
          rw [Option.map_eq_map, Option.map_some, Socket.close, show s.readyState = .closing from hi]
      · exact id_map _
    rw [hsame]
    exact h
  · exact kept_of_not_attentive (h.1.closeSocket i) ha

theorem kept_close (h : Kept c) {i : ℕ} (hi : c.readyState i ≠ .closed) (now : ℕ)
    (ho : Event.Orderly c (.close i now)) : Kept (step c (.close i now)) := by
  obtain ⟨hcur, hlen⟩ := h.1.current i hi
  have hr := h.1.not_reconnectSet hi
  have ha := h.1.authentications_eq hi
  obtain ⟨s, hs⟩ := exists_socket hi
  let c' : Client := ({ c with
    sockets := c.sockets.modify i fun s => { s with readyState := .closed }
    timers := c.timers.filter fun t => some t.id ≠ c.pingTimer
    socket := none
    connecting := false } : Client).rejectPending "Connection to the Mac was interrupted"
  have hclosed : ∀ j, c'.readyState j = .closed := fun j => by
    show ({ c with sockets := c.sockets.modify i _ } : Client).readyState j = _
    rw [readyState_modify]
    split
    · cases c.sockets[j]? <;> rfl
    · by_contra hj
      have := (h.1.current j hj).2
      omega
  have hsub : c'.timers.Sublist c.timers := List.filter_sublist.trans List.filter_sublist
  have hr' : ¬ c'.ReconnectSet := fun ⟨t, ht, htr⟩ => hr ⟨t, hsub.subset ht, htr⟩
  have hf : ∀ t ∈ c'.timers, t.id < c'.nextTimer := fun t ht => h.1.fresh t (hsub.subset ht)
  have hn : (c'.timers.map Timer.id).Nodup := h.1.nodup.sublist (hsub.map _)
  have hstep : step c (.close i now) = if c'.stopped then c'
      else if s.reusedSession && !s.opened then { c' with authenticatedAt := none }.connect now false
      else c'.scheduleReconnect true := by
    rw [step, hs]
    simp only
    rw [onclose]
    simp only
    rw [if_pos (show (clearTimer c.pingTimer { c with
      sockets := c.sockets.modify i fun s => { s with readyState := .closed } }).socket = some i
      from hcur)]
    rfl
  rw [hstep]
  split
  · rename_i hs'
    exact kept_of_not_attentive (steady_of_closed hclosed ha hr' rfl h.1.listening hf hn)
      fun ha' => (nomatch hs'.symm.trans ha'.1)
  · rename_i hs'
    have hs' : c'.stopped = false := by simpa using hs'
    have hidle : Idle c' := ⟨hclosed, ha, hr', hs', h.1.listening hs', hf, hn⟩
    split
    · have hidle' : Idle { c' with authenticatedAt := none } :=
        ⟨hclosed, ha, hr', hs', h.1.listening hs', hf, hn⟩
      exact hidle'.connect rfl now false
    · rename_i hreused
      refine hidle.scheduleReconnect rfl (fun ha' => ?_) true
      by_contra hne
      obtain ⟨s', hs'', hre, hop⟩ := ho ha' ⟨Option.isSome_iff_ne_none.mpr hne, hr⟩
      rw [hs] at hs''
      obtain rfl := Option.some.inj hs''
      exact hreused (by simp [hre, hop])

theorem kept_request (h : Kept c) (requestId : String) (timeoutMs : ℕ) :
    Kept (c.sendAndWait requestId timeoutMs) := by
  have hadd : SameConnection c (c.setTimer (.request requestId) timeoutMs) := by
    refine ⟨rfl, rfl, rfl, rfl, rfl, rfl, rfl, rfl, rfl, Nat.le_succ _, fun t hr => ?_,
      fun hf t ht => ?_, fun hf hn => nodup_concat hf hn rfl⟩
    · refine List.mem_append.trans (or_iff_left fun hm => ?_)
      rw [List.mem_singleton.mp hm] at hr
      exact nomatch hr
    · rcases List.mem_append.mp ht with ht | ht
      · exact Nat.lt_succ_of_lt (hf t ht)
      · rw [List.mem_singleton.mp ht]
        exact Nat.lt_succ_self _
  rw [sendAndWait]
  simp only
  split
  · exact SameConnection.kept (hadd.trans ⟨rfl, rfl, rfl, rfl, rfl, rfl, rfl, rfl, rfl, le_rfl,
      fun _ _ => Iff.rfl, fun h => h, fun _ h => h⟩) h
  · refine SameConnection.kept ((hadd.trans ?_).trans (.notice _ _)) h
    refine .of_filter (fun t ht hr => ?_) ⟨rfl, rfl, rfl, rfl, rfl, rfl,
      rfl, rfl, rfl, le_rfl, fun _ _ => Iff.rfl, fun h => h, fun _ h => h⟩ rfl rfl
    refine decide_eq_true fun he => ?_
    -- the timer with the new number is the request's
    have hold := h.1.fresh t ((hadd.reconnects t hr).mp ht)
    rw [Option.some.inj he] at hold
    exact lt_irrefl _ hold

/-! ## Runs -/

theorem kept_step (h : Kept c) (e : Event) (he : e.Enabled c) (ho : e.Orderly c) :
    Kept (step c e) := by
  cases e with
  | start now => exact kept_start h now ho
  | stop => exact kept_stop h
  | visibility visible now => exact kept_visibility h visible now ho
  | online now => exact kept_online h now ho
  | offline => exact kept_offline h
  | timer t now => exact kept_timer h he now
  | authenticated replayed now => exact kept_authenticated h he replayed now
  | authenticationFailed reason => exact kept_authenticationFailed h he reason ho
  | opened i => exact kept_opened h he
  | message i data => exact kept_message h he data ho
  | error i => exact kept_error h ho
  | close i now => exact kept_close h he now ho
  | request requestId timeoutMs => exact kept_request h requestId timeoutMs

theorem kept_new (visible online : Bool) : Kept (.new visible online) := by
  refine kept_of_not_attentive (steady_of_closed (fun i => ?_) rfl ?_ rfl (nofun) (nofun)
    List.nodup_nil) fun ha => (nomatch ha.1)
  · rw [readyState, Client.new, List.getElem?_nil]
    rfl
  · rintro ⟨t, ht, -⟩
    exact nomatch ht

theorem OrderlyRun.kept (h : OrderlyRun c) : Kept c := by
  induction h with
  | new visible online => exact kept_new visible online
  | step _ e he ho ih => exact kept_step ih e he ho

theorem OrderlyRun.run (h : OrderlyRun c) : Run c := by
  induction h with
  | new visible online => exact .new visible online
  | step _ e he _ ih => exact ih.step e he

theorem Kept.oneSocket (h : Kept c) : OneSocket c where
  unique i j hi hj := by
    have hlive : ∀ i, (c.readyState i = .connecting ∨ c.readyState i = .opened) →
        c.readyState i ≠ .closed := by
      rintro i (hi | hi) hc <;> exact nomatch hi.symm.trans hc
    exact Option.some.inj ((h.1.current i (hlive i hi)).1.symm.trans (h.1.current j (hlive j hj)).1)
  newest i hi := (h.1.current i (by rw [hi]; exact nofun)).2
  older i now hi hlt := absurd (h.1.current i hi).2 (Nat.ne_of_lt hlt)
  busy := h.2

/-- **In every state that orderly events reach, the client keeps at most one live socket, and a
client that should be connected is busy about it.** -/
theorem orderly_oneSocket : ∀ c, OrderlyRun c → OneSocket c := fun _ h => h.kept.oneSocket

/-- A client that authenticated and whose socket is open. -/
def connected : Client :=
  step (step (step (.new true true) (.start 0)) (.authenticated false 0)) (.opened 0)

theorem connected_run : OrderlyRun connected := by
  have hstarted : OrderlyRun (step (.new true true) (.start 0)) := by
    refine .step (.new true true) _ trivial fun _ _ _ => ⟨fun h => (nomatch h.1), ?_⟩
    rintro ⟨i, hi⟩
    rw [readyState, Client.new, List.getElem?_nil] at hi
    exact nomatch hi
  have hauthenticated : OrderlyRun (step (step (.new true true) (.start 0))
      (.authenticated false 0)) := hstarted.step _ (by decide : 0 < Client.authentications _) trivial
  exact hauthenticated.step _ (by decide : Client.readyState _ 0 = .connecting) trivial

theorem connected_oneSocket : OrderlyRun connected ∧ OneSocket connected :=
  ⟨connected_run, orderly_oneSocket connected connected_run⟩

/-- An `online` event while a socket is open makes the client open a second one. -/
theorem online_while_open :
    ∃ c, Run c ∧ c.readyState 0 = .opened ∧ c.readyState 1 = .connecting ∧ ¬ OneSocket c := by
  have hrun := connected_run.run.step (.online 1) trivial
  refine ⟨_, hrun, ?_, ?_, fun h => ?_⟩
  · decide
  · decide
  · exact absurd (h.unique 0 1 (Or.inr (by decide)) (Or.inl (by decide))) (by decide)

end Clinch.Browser
