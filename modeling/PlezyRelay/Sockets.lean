/-
  PlezyRelay/Sockets.lean
  =======================
  **The relay between its sockets** (`connection.rs`, `run`).

  In the model of the relay a message is sent once it has been handed to a channel, and a
  frame comes with what the read loop makes of it.  Here both ends are the source's own.
  The read loop asks the token bucket of the connection, keeps the deadline and decodes
  texts; `try_send` gives up on a full channel; and the write task takes the messages from
  the channel one by one, sends pings of its own in between, may fail, and is aborted when
  the read loop has ended.

    * `sockets_deliver`: whatever happens on the sockets, the relay between them does one of
      its own runs, on messages read from texts that came in.  Every message the relay sends
      is taken or refused by its channel, and what is written, in flight and queued are those
      that were taken, in order and without repetition; as long as the write task runs they
      are all of these, and a message was refused only by a channel with 64 messages in it.
    * `floods_are_bounded`: in any stretch of time a connection gets no more than 30 messages,
      and 10 more for each second, past the rate limiter, if its `f64` arithmetic is exact.

  Reading and writing JSON is the parameter `WireCodec`.
-/
import PlezyRelay.Foundation.Outbox
import PlezyRelay.WirePayloads
import PlezyRelay.Quotas

namespace PlezyRelay

/-! ### One socket -/

def OUTBOUND_CHANNEL_CAPACITY : Nat := 64
def PONG_WAIT : Duration := secs 60
def PER_CONNECTION_MESSAGE_BURST : ℚ := 30
def PER_CONNECTION_MESSAGE_SUSTAINED : ℚ := 10

/-- What `stream.next()` brings while the connection is up. -/
inductive Incoming where
  | text (text : String)
  /-- Ping, pong or binary. -/
  | other

/-- The locals of `run` that are not about rooms, and the channel with the write task. -/
structure Socket where
  connected : Bool := false
  msgLimiter : TokenBucket := .new PER_CONNECTION_MESSAGE_BURST PER_CONNECTION_MESSAGE_SUSTAINED 0
  deadline : Instant := 0
  /-- The latest reading of the clock. -/
  clock : Instant := 0
  outbox : Outbox ServerMessage := {}
  /-- The frames so far with the time and what was made of them, latest first. -/
  frames : List (Instant × Frame) := []

namespace Socket

def connect (self : Socket) (now : Instant) : Socket :=
  { self with
    connected := true
    msgLimiter := .new PER_CONNECTION_MESSAGE_BURST PER_CONNECTION_MESSAGE_SUSTAINED now
    deadline := now + PONG_WAIT
    clock := now
    frames := [] }

/-- What the loop makes of a frame; the limiter is not asked about texts that are too long. -/
def judge [WireCodec] (self : Socket) (now : Instant) : Incoming → TokenBucket × Frame
  | .other => (self.msgLimiter, .ignored)
  | .text text =>
      if MAX_MESSAGE_SIZE < text.utf8ByteSize then (self.msgLimiter, .ignored)
      else
        let (msgLimiter, allowed) := self.msgLimiter.allowAt now
        (msgLimiter, .ofText allowed text)

/-- A frame arrives, and the limiter reads the clock later than the deadline is set. -/
def receive [WireCodec] (self : Socket) (arrived asked : Instant) (frame : Incoming) : Socket :=
  let (msgLimiter, verdict) := self.judge asked frame
  { self with
    msgLimiter := msgLimiter
    deadline := arrived + PONG_WAIT
    clock := asked
    frames := (asked, verdict) :: self.frames }

def trySend (self : Socket) (msg : ServerMessage) : Socket :=
  { self with outbox := self.outbox.offer OUTBOUND_CHANNEL_CAPACITY msg }

/-- What a message or a ping is on the socket; a message that `to_string` fails on is passed
    over. -/
def frameOf [WireCodec] : Option ServerMessage → Option (Option String)
  | none => some none
  | some msg => (WireCodec.toJson msg).map some

/-- What has been written to the socket; a ping is `none`. -/
def wire [WireCodec] (self : Socket) : List (Option String) := self.outbox.written.filterMap frameOf

end Socket

/-! ### All sockets -/

/-- A step of the write task. -/
inductive WriteStep where
  | recv
  | sent (ok : Bool)
  | ping (ok : Bool)

def Socket.write [WireCodec] (self : Socket) : WriteStep → Option Socket
  | .recv => self.outbox.take.map fun outbox => { self with outbox := outbox }
  | .sent ok =>
      -- nothing can fail for a message that is passed over
      let skipped := self.outbox.inFlight.any fun msg => (WireCodec.toJson msg).isNone
      (self.outbox.finish (ok || skipped)).map fun outbox => { self with outbox := outbox }
  | .ping ok => (self.outbox.beat ok).map fun outbox => { self with outbox := outbox }

structure Sockets where
  sys : RelaySys
  socket : Sender → Socket := fun _ => {}
  /-- The texts that have come in, latest first. -/
  received : List (Sender × String) := []

inductive SocketLabel where
  | connect (k : Sender) (ip : String) (now : Instant)
  | incoming (k : Sender) (arrived asked : Instant) (frame : Incoming)
  /-- The stream ends, fails or is closed, or the connection is cancelled. -/
  | hangup (k : Sender)
  /-- Nothing has come in until the deadline. -/
  | timeout (k : Sender) (now : Instant)
  /-- A task, the writer of the snapshot, the sweep or the shutdown goes on. -/
  | relay (l : RelayLabel)
  | write (k : Sender) (step : WriteStep)
  /-- `write_task.abort()`, at the end of `run`. -/
  | abort (k : Sender)

/-- The messages go to the channels. -/
def trySendAll (socket : Sender → Socket) : List Outbound → Sender → Socket
  | [] => socket
  | o :: messages =>
      trySendAll (Function.update socket o.tx ((socket o.tx).trySend o.msg)) messages

def Incoming.texts : Incoming → List String
  | .text content => [content]
  | .other => []

/-- The read loop starts these programs itself. -/
def ofReadLoop : RelayLabel → Bool
  | .start (.conn _) _ => true
  | _ => false

namespace Sockets

variable [TokenCodec]

/-- The relay takes a step, and what it sends is tried on the channels. -/
def advance (s : Sockets) (l : RelayLabel) : Option Sockets :=
  (relay.step s.sys l).map fun sys =>
    { s with
      sys := sys
      socket := trySendAll s.socket
        (sys.shared.server.sent.drop s.sys.shared.server.sent.length) }

/-- The socket of one connection changes. -/
def setSocket (s : Sockets) (k : Sender) (socket : Socket) : Sockets :=
  { s with socket := Function.update s.socket k socket }

def step [WireCodec] (s : Sockets) : SocketLabel → Option Sockets
  | .connect k ip now =>
      (s.advance (.start (.conn k) (.connect ip))).map fun s =>
        s.setSocket k ((s.socket k).connect now)
  | .incoming k arrived asked frame =>
      if (s.socket k).clock ≤ arrived ∧ arrived ≤ asked then
        (s.advance (.start (.conn k) (.frame ((s.socket k).judge asked frame).2))).map fun s =>
          { s.setSocket k ((s.socket k).receive arrived asked frame) with
            received := frame.texts.map (k, ·) ++ s.received }
      else none
  | .hangup k => s.advance (.start (.conn k) .hangup)
  | .timeout k now =>
      if (s.socket k).deadline ≤ now then s.advance (.start (.conn k) .hangup) else none
  | .relay l => if ofReadLoop l then none else s.advance l
  | .write k step =>
      if (s.socket k).connected then ((s.socket k).write step).map (s.setSocket k) else none
  | .abort k =>
      if (s.sys.threads (.conn k)).result = some .finished then
        some (s.setSocket k { s.socket k with outbox := (s.socket k).outbox.stop })
      else none

/-- What can come of a start. -/
inductive Reached [WireCodec] : Sockets → Prop where
  | init {sys : RelaySys} (h : Startup sys) : Reached { sys := sys }
  | step {s s' : Sockets} {l : SocketLabel} (h : Reached s) (hstep : s.step l = some s') : Reached s'

/-! ### What a step is for the relay -/

/-- What the relay has sent to a connection, oldest first. -/
def sentTo (k : Sender) (sys : RelaySys) : List ServerMessage :=
  (sys.shared.server.sent.filter fun o => decide (o.tx = k)).map Outbound.msg

end Sockets

/-- An action only adds to what has been sent. -/
theorem Moves.sent_append [TokenCodec] {t : Tid} {e : Env} {srv srv' : Server} {a : Act}
    (h : Moves t e srv a srv') : ∃ new, srv'.sent = srv.sent ++ new := by
  cases h with
  | send tx msg => exact ⟨[⟨tx, msg⟩], rfl⟩
  | _ => exact ⟨[], (List.append_nil _).symm⟩

section Channels

variable {socket : Sender → Socket} {k : Sender}

/-- What one `try_send` keeps of a socket, all of them keep. -/
theorem trySendAll_keeps {P : Socket → Prop} (hP : ∀ self msg, P self → P (self.trySend msg))
    (messages : List Outbound) (h : P (socket k)) : P (trySendAll socket messages k) := by
  induction messages generalizing socket with
  | nil => exact h
  | cons o messages ih =>
      apply ih
      by_cases hk : k = o.tx
      · subst hk
        rw [Function.update_self]
        exact hP _ _ h
      · rw [Function.update_of_ne hk]
        exact h

/-- The messages for a socket are offered to its channel, in order. -/
theorem trySendAll_carries {offered : List ServerMessage}
    (h : (socket k).outbox.Carries OUTBOUND_CHANNEL_CAPACITY offered) (messages : List Outbound) :
    (trySendAll socket messages k).outbox.Carries OUTBOUND_CHANNEL_CAPACITY
      (offered ++ (messages.filter fun o => decide (o.tx = k)).map Outbound.msg) := by
  induction messages generalizing socket offered with
  | nil => simpa [trySendAll] using h
  | cons o messages ih =>
      by_cases hk : o.tx = k
      · subst hk
        have hnext : (Function.update socket o.tx ((socket o.tx).trySend o.msg) o.tx).outbox.Carries
            OUTBOUND_CHANNEL_CAPACITY (offered ++ [o.msg]) := by
          rw [Function.update_self]
          exact h.offer o.msg
        simpa [trySendAll] using ih hnext
      · have hnext : (Function.update socket o.tx ((socket o.tx).trySend o.msg) k).outbox.Carries
            OUTBOUND_CHANNEL_CAPACITY offered := by
          rw [Function.update_of_ne (Ne.symm hk)]
          exact h
        simpa [trySendAll, hk] using ih hnext

/-- The write task changes the channel only, and loses nothing of it. -/
theorem Socket.write_outbox [WireCodec] {self self' : Socket} {step : WriteStep}
    (h : self.write step = some self') :
    ∃ outbox, self' = { self with outbox := outbox } ∧
      ∀ offered, self.outbox.Carries OUTBOUND_CHANNEL_CAPACITY offered →
        outbox.Carries OUTBOUND_CHANNEL_CAPACITY offered := by
  cases step with
  | recv =>
      obtain ⟨outbox, houtbox, rfl⟩ := Option.map_eq_some_iff.mp h
      exact ⟨outbox, rfl, fun _ hcarries => hcarries.take houtbox⟩
  | sent ok =>
      obtain ⟨outbox, houtbox, rfl⟩ := Option.map_eq_some_iff.mp h
      exact ⟨outbox, rfl, fun _ hcarries => hcarries.finish houtbox⟩
  | ping ok =>
      obtain ⟨outbox, houtbox, rfl⟩ := Option.map_eq_some_iff.mp h
      exact ⟨outbox, rfl, fun _ hcarries => hcarries.beat houtbox⟩

end Channels

section Steps

variable [TokenCodec] {s s' : Sockets}

/-- A step of the relay only adds to what has been sent. -/
theorem step_sent {sys sys' : RelaySys} {l : RelayLabel} (hstep : relay.step sys l = some sys') :
    ∃ new, sys'.shared.server.sent = sys.shared.server.sent ++ new := by
  rcases relay.step_cases hstep with ⟨t, q, loc, p, rfl, _, _, rfl⟩ |
    ⟨t, e, a, k, x, w, rfl, _, hx, rfl⟩ | ⟨m, w, rfl, hm, rfl⟩
  · exact ⟨[], (List.append_nil _).symm⟩
  · exact (World.did_moves hx).sent_append
  · obtain ⟨_, _, _, _, _, _, _, hsent⟩ := Server.writerStep_frame (World.writerStep_iff.mp hm).1
    exact ⟨[], by rw [hsent, List.append_nil]⟩

/-- Every socket carries what the relay has sent to it. -/
def Sockets.AllCarry (s : Sockets) : Prop :=
  ∀ k, (s.socket k).outbox.Carries OUTBOUND_CHANNEL_CAPACITY (Sockets.sentTo k s.sys)

/-- What the relay's part of a step does. -/
theorem Sockets.advance_spec {l : RelayLabel} (h : s.advance l = some s') :
    relay.step s.sys l = some s'.sys ∧ s'.received = s.received ∧
      (s.AllCarry → s'.AllCarry) ∧
      ∀ {P : Socket → Prop}, (∀ self msg, P self → P (self.trySend msg)) →
        ∀ k, P (s.socket k) → P (s'.socket k) := by
  obtain ⟨sys, hsys, rfl⟩ := Option.map_eq_some_iff.mp h
  refine ⟨hsys, rfl, ?_, ?_⟩
  · intro hcarry k
    obtain ⟨new, hnew⟩ := step_sent hsys
    have hsent : Sockets.sentTo k sys = Sockets.sentTo k s.sys ++
        (new.filter fun o => decide (o.tx = k)).map Outbound.msg := by
      simp [Sockets.sentTo, hnew]
    dsimp only
    rw [hsent, hnew, List.drop_left]
    exact trySendAll_carries (hcarry k) new
  · intro P hP k hk
    exact trySendAll_keeps hP _ hk

omit [TokenCodec] in
theorem Sockets.setSocket_all {P : Sender → Socket → Prop} (h : ∀ k, P k (s.socket k)) {k : Sender}
    {socket : Socket} (hsocket : P k socket) (j : Sender) : P j ((s.setSocket k socket).socket j) := by
  by_cases hj : j = k
  · subst hj
    simpa [Sockets.setSocket] using hsocket
  · simpa [Sockets.setSocket, hj] using h j

omit [TokenCodec] in
/-- The socket of one connection changes, and carries the same. -/
theorem Sockets.AllCarry.setSocket (h : s.AllCarry) {k : Sender} {socket : Socket}
    (hcarries : socket.outbox.Carries OUTBOUND_CHANNEL_CAPACITY (Sockets.sentTo k s.sys)) :
    (s.setSocket k socket).AllCarry :=
  Sockets.setSocket_all (P := fun j socket => socket.outbox.Carries OUTBOUND_CHANNEL_CAPACITY
    (Sockets.sentTo j s.sys)) h hcarries

variable [WireCodec]

omit [TokenCodec] in
theorem Hears.mono {written written' : Sender → String → Prop}
    (hsub : ∀ k text, written k text → written' k text) (sys : RelaySys) (l : RelayLabel)
    (h : Hears written sys l) : Hears written' sys l := by
  unfold Hears at h ⊢
  split
  · apply h.imp_right
    rintro ⟨allowed, text, hwritten, hread⟩
    exact ⟨allowed, text, hsub _ _ hwritten, hread⟩
  · trivial

omit [TokenCodec] in
/-- What the loop made of a frame comes from the text, if there is one. -/
theorem Socket.judge_heard (self : Socket) (now : Instant) (frame : Incoming) :
    (self.judge now frame).2 = .ignored ∨
      ∃ allowed, ∃ text ∈ frame.texts, (self.judge now frame).2 = .ofText allowed text := by
  cases frame with
  | other => exact Or.inl rfl
  | text content =>
      rw [judge]
      split
      · exact Or.inl rfl
      · exact Or.inr ⟨_, content, List.mem_singleton_self _, rfl⟩

structure Sockets.Sound (s : Sockets) : Prop where
  reaches : Reaches (Hears fun k text => (k, text) ∈ s.received) s.sys
  carry : s.AllCarry

/-- A step of the relay whose text, if it has one, is among those received. -/
theorem Sockets.Sound.advance (h : s.Sound) {l : RelayLabel} (hadvance : s.advance l = some s')
    {received : List (Sender × String)} (hreceived : ∀ e ∈ s.received, e ∈ received)
    (hhears : Hears (fun k text => (k, text) ∈ received) s.sys l) :
    Reaches (Hears fun k text => (k, text) ∈ received) s'.sys ∧ s'.AllCarry := by
  obtain ⟨hstep, _, hcarry, _⟩ := Sockets.advance_spec hadvance
  have hmono := h.reaches.mono (Hears.mono fun k text hmem => hreceived (k, text) hmem)
  exact ⟨.step hmono hhears hstep, hcarry h.carry⟩

/-- What a step of the sockets is: the relay goes on without reading a text, a connection
    comes up, a frame comes in, or a write task changes its channel. -/
inductive Sockets.Moved (s : Sockets) : Sockets → Prop where
  | quiet {s' : Sockets} {l : RelayLabel} (hadvance : s.advance l = some s')
      (hhears : ∀ written, Hears written s.sys l) : Moved s s'
  | connect {s₁ : Sockets} (k : Sender) (ip : String) (now : Instant)
      (hadvance : s.advance (.start (.conn k) (.connect ip)) = some s₁) :
      Moved s (s₁.setSocket k ((s₁.socket k).connect now))
  | incoming {s₁ : Sockets} (k : Sender) (arrived asked : Instant) (frame : Incoming)
      (hclock : (s.socket k).clock ≤ asked)
      (hadvance : s.advance (.start (.conn k) (.frame ((s.socket k).judge asked frame).2)) = some s₁) :
      Moved s { s₁.setSocket k ((s₁.socket k).receive arrived asked frame) with
        received := frame.texts.map (k, ·) ++ s₁.received }
  | channel (k : Sender) (outbox : Outbox ServerMessage)
      (houtbox : ∀ offered, (s.socket k).outbox.Carries OUTBOUND_CHANNEL_CAPACITY offered →
        outbox.Carries OUTBOUND_CHANNEL_CAPACITY offered) :
      Moved s (s.setSocket k { s.socket k with outbox := outbox })

theorem Sockets.step_moved {l : SocketLabel} (hstep : s.step l = some s') : s.Moved s' := by
  cases l with
  | connect k ip now =>
      obtain ⟨s₁, hadvance, rfl⟩ := Option.map_eq_some_iff.mp hstep
      exact .connect k ip now hadvance
  | incoming k arrived asked frame =>
      obtain ⟨hclock, hstep⟩ := Option.ite_none_right_eq_some.mp hstep
      obtain ⟨s₁, hadvance, rfl⟩ := Option.map_eq_some_iff.mp hstep
      exact .incoming k arrived asked frame (Nat.le_trans hclock.1 hclock.2) hadvance
  | hangup k => exact .quiet hstep fun _ => trivial
  | timeout k now =>
      obtain ⟨_, hadvance⟩ := Option.ite_none_right_eq_some.mp hstep
      exact .quiet hadvance fun _ => trivial
  | relay l =>
      obtain ⟨hother, hadvance⟩ := Option.ite_none_left_eq_some.mp hstep
      refine .quiet hadvance fun written => ?_
      unfold Hears
      split
      · exact absurd rfl hother
      · trivial
  | write k step =>
      obtain ⟨_, hstep⟩ := Option.ite_none_right_eq_some.mp hstep
      obtain ⟨socket, hwrite, rfl⟩ := Option.map_eq_some_iff.mp hstep
      obtain ⟨outbox, rfl, houtbox⟩ := Socket.write_outbox hwrite
      exact .channel k outbox houtbox
  | abort k =>
      obtain ⟨_, hstep⟩ := Option.ite_none_right_eq_some.mp hstep
      obtain rfl := Option.some.inj hstep
      exact .channel k _ fun _ hcarries => hcarries.stop

theorem Sockets.Sound.quiet (h : s.Sound) {l : RelayLabel} (hadvance : s.advance l = some s')
    (hhears : ∀ written, Hears written s.sys l) : s'.Sound := by
  obtain ⟨_, hreceived, _⟩ := Sockets.advance_spec hadvance
  obtain ⟨hreaches, hcarry⟩ := h.advance hadvance (fun _ he => he) (hhears _)
  exact ⟨hreceived ▸ hreaches, hcarry⟩

theorem Sockets.Sound.step (h : s.Sound) (hmoved : s.Moved s') : s'.Sound := by
  cases hmoved with
  | quiet hadvance hhears => exact h.quiet hadvance hhears
  | connect k ip now hadvance =>
      have hsound := h.quiet hadvance fun _ => trivial
      exact ⟨hsound.reaches, hsound.carry.setSocket (hsound.carry k)⟩
  | incoming k arrived asked frame _ hadvance =>
      obtain ⟨_, hreceived, _⟩ := Sockets.advance_spec hadvance
      have hhears : Hears (fun j text => (j, text) ∈ frame.texts.map (k, ·) ++ s.received) s.sys
          (.start (.conn k) (.frame ((s.socket k).judge asked frame).2)) := by
        apply ((s.socket k).judge_heard asked frame).imp_right
        rintro ⟨allowed, text, htext, hread⟩
        exact ⟨allowed, text, List.mem_append_left _ (List.mem_map_of_mem htext), hread⟩
      obtain ⟨hreaches, hcarry⟩ :=
        h.advance hadvance (fun e he => List.mem_append_right _ he) hhears
      rw [← hreceived] at hreaches
      exact ⟨hreaches, hcarry.setSocket (hcarry k)⟩
  | channel k outbox houtbox => exact ⟨h.reaches, h.carry.setSocket (houtbox _ (h.carry k))⟩

theorem Sockets.Reached.sound (h : s.Reached) : s.Sound := by
  induction h with
  | init h =>
      refine ⟨.init h, ?_⟩
      intro k
      obtain ⟨heap, rooms, quota, hshared⟩ := h.shared_eq
      dsimp only
      rw [Sockets.sentTo, hshared]
      exact Outbox.Carries.empty _
  | step _ hstep ih => exact ih.step (Sockets.step_moved hstep)

end Steps

/-! ### The rate limiter over a connection's life -/

namespace TokenBucket

variable {burst rate : ℚ} {t t' : ℕ → Instant}

/-- The bucket does not depend on calls to come. -/
theorem after_congr {j : ℕ} (h : ∀ i ≤ j, t i = t' i) :
    after burst rate t j = after burst rate t' j := by
  induction j with
  | zero => rw [after, after, h 0 (Nat.le_refl 0)]
  | succ j ih =>
      rw [after, after, ih fun i hi => h i (Nat.le_succ_of_le hi), h (j + 1) (Nat.le_refl _)]

theorem allowed_congr {j : ℕ} (h : ∀ i ≤ j, t i = t' i) :
    allowed burst rate t j = allowed burst rate t' j := by
  cases j with
  | zero => rfl
  | succ j =>
      rw [allowed, allowed, after_congr fun i hi => h i (Nat.le_succ_of_le hi),
        h (j + 1) (Nat.le_refl _)]

end TokenBucket

/-- Whether the limiter has let the frame through. -/
def Frame.passes : Frame → Bool
  | .malformed | .message _ => true
  | .ignored | .limited => false

theorem Frame.passes_ofText [WireCodec] {text : String} (hsize : ¬MAX_MESSAGE_SIZE < text.utf8ByteSize)
    (allowed : Bool) : (Frame.ofText allowed text).passes = allowed := by
  rw [Frame.ofText, if_neg hsize]
  cases allowed with
  | false => rfl
  | true =>
      simp only [Bool.not_true, Bool.false_eq_true, if_false]
      split
      · rfl
      · rfl

/-- The calls of the limiter that let a frame through, latest first. -/
def grants (t : ℕ → Instant) (n : ℕ) : List Instant :=
  (((List.range (n + 1)).filter (TokenBucket.allowed PER_CONNECTION_MESSAGE_BURST
    PER_CONNECTION_MESSAGE_SUSTAINED t)).map t).reverse

/-- The limiter has been called `n` times, and the frames that passed are those it let
    through. -/
def Socket.Paced (self : Socket) : Prop :=
  ∃ t n, Monotone t ∧ t n ≤ self.clock ∧
    self.msgLimiter = TokenBucket.after PER_CONNECTION_MESSAGE_BURST
      PER_CONNECTION_MESSAGE_SUSTAINED t n ∧
    (self.frames.filter (·.2.passes)).map Prod.fst = grants t n

theorem Socket.paced_default : ({} : Socket).Paced :=
  ⟨fun _ => 0, 0, monotone_const, Nat.le_refl _, rfl, rfl⟩

theorem Socket.paced_connect (now : Instant) (self : Socket) : (self.connect now).Paced :=
  ⟨fun _ => now, 0, monotone_const, Nat.le_refl _, rfl, rfl⟩

theorem grants_succ {t t' : ℕ → Instant} {n : ℕ} (h : ∀ i ≤ n, t i = t' i) :
    grants t' (n + 1) = (if TokenBucket.allowed PER_CONNECTION_MESSAGE_BURST
      PER_CONNECTION_MESSAGE_SUSTAINED t' (n + 1) then [t' (n + 1)] else []) ++ grants t n := by
  have hold : ((List.range (n + 1)).filter (TokenBucket.allowed PER_CONNECTION_MESSAGE_BURST
      PER_CONNECTION_MESSAGE_SUSTAINED t')).map t' = ((List.range (n + 1)).filter
      (TokenBucket.allowed PER_CONNECTION_MESSAGE_BURST PER_CONNECTION_MESSAGE_SUSTAINED t)).map t := by
    have hle : ∀ i ∈ List.range (n + 1), i ≤ n := fun i hi => Nat.le_of_lt_succ (List.mem_range.mp hi)
    rw [List.filter_congr fun i hi => TokenBucket.allowed_congr fun j hj =>
      (h j (Nat.le_trans hj (hle i hi))).symm]
    exact List.map_congr_left fun i hi => (h i (hle i (List.mem_of_mem_filter hi))).symm
  rw [grants, List.range_succ, List.filter_append, List.map_append, List.reverse_append, hold, grants]
  congr 1
  by_cases hnew : TokenBucket.allowed PER_CONNECTION_MESSAGE_BURST
      PER_CONNECTION_MESSAGE_SUSTAINED t' (n + 1) = true
  · simp [hnew]
  · simp [hnew]

/-- The times of the calls, with one more. -/
theorem monotone_extend {t : ℕ → Instant} (hmono : Monotone t) {n : ℕ} {now : Instant}
    (h : t n ≤ now) : Monotone fun i => if i ≤ n then t i else now := by
  intro i j hij
  dsimp only
  by_cases hj : j ≤ n
  · rw [if_pos hj, if_pos (Nat.le_trans hij hj)]
    exact hmono hij
  · rw [if_neg hj]
    split
    · rename_i hi
      exact Nat.le_trans (hmono hi) h
    · exact Nat.le_refl _

theorem Socket.Paced.receive [WireCodec] {self : Socket} (h : self.Paced) {arrived asked : Instant}
    (hclock : self.clock ≤ asked) (frame : Incoming) :
    (self.receive arrived asked frame).Paced := by
  obtain ⟨t, n, hmono, hlast, hlimiter, hgrants⟩ := h
  have hlast' : t n ≤ asked := Nat.le_trans hlast hclock
  have hignored : self.judge asked frame = (self.msgLimiter, .ignored) →
      (self.receive arrived asked frame).Paced := by
    intro hjudge
    refine ⟨t, n, hmono, ?_, ?_, ?_⟩
    · exact hlast'
    · rw [Socket.receive, hjudge]
      exact hlimiter
    · rw [Socket.receive, hjudge]
      exact hgrants
  cases frame with
  | other => exact hignored rfl
  | text content =>
      by_cases hsize : MAX_MESSAGE_SIZE < content.utf8ByteSize
      · exact hignored (by rw [Socket.judge, if_pos hsize])
      · have hjudge : self.judge asked (.text content) =
            ((self.msgLimiter.allowAt asked).1, .ofText (self.msgLimiter.allowAt asked).2 content) := by
          rw [Socket.judge, if_neg hsize]
        have hagree : ∀ i ≤ n, t i = if i ≤ n then t i else asked := fun i hi => (if_pos hi).symm
        have hnow : (if n + 1 ≤ n then t (n + 1) else asked) = asked := if_neg (Nat.not_succ_le_self n)
        refine ⟨fun i => if i ≤ n then t i else asked, n + 1, monotone_extend hmono hlast', ?_, ?_, ?_⟩
        · exact Nat.le_of_eq hnow
        · rw [Socket.receive, hjudge, TokenBucket.after, ← TokenBucket.after_congr hagree, ← hlimiter,
            hnow]
        · rw [grants_succ hagree, ← hgrants, TokenBucket.allowed, ← TokenBucket.after_congr hagree,
            ← hlimiter, hnow, Socket.receive, hjudge, List.filter_cons,
            Frame.passes_ofText hsize]
          split
          · rfl
          · rfl

/-- The frames that passed in a stretch of time are calls allowed in it. -/
theorem Socket.Paced.length_le {self : Socket} (h : self.Paced) (a b : Instant) :
    (((self.frames.filter (·.2.passes)).countP fun f => decide (a ≤ f.1 ∧ f.1 ≤ b) : ℕ) : ℚ) ≤
      PER_CONNECTION_MESSAGE_BURST + PER_CONNECTION_MESSAGE_SUSTAINED * Duration.asSecs (b - a) := by
  obtain ⟨t, n, hmono, _, _, hgrants⟩ := h
  have hcount : (self.frames.filter (·.2.passes)).countP (fun f => decide (a ≤ f.1 ∧ f.1 ≤ b)) =
      (TokenBucket.allowedBetween PER_CONNECTION_MESSAGE_BURST PER_CONNECTION_MESSAGE_SUSTAINED
        t a b (n + 1)).card := by
    calc (self.frames.filter (·.2.passes)).countP (fun f => decide (a ≤ f.1 ∧ f.1 ≤ b))
        = ((self.frames.filter (·.2.passes)).map Prod.fst).countP
            fun now => decide (a ≤ now ∧ now ≤ b) := by
          rw [List.countP_map]
          rfl
      _ = (grants t n).countP fun now => decide (a ≤ now ∧ now ≤ b) := by rw [hgrants]
      _ = ((List.range (n + 1)).filter fun j => decide (TokenBucket.allowed
            PER_CONNECTION_MESSAGE_BURST PER_CONNECTION_MESSAGE_SUSTAINED t j = true ∧
              a ≤ t j ∧ t j ≤ b)).length := by
          rw [grants, List.countP_reverse, List.countP_map, List.countP_filter, List.countP_eq_length_filter]
          congr 2
          funext j
          simp [Bool.and_comm]
      _ = _ := rfl
  rw [hcount]
  exact TokenBucket.card_allowedBetween_le hmono (by decide +kernel) (by decide +kernel) a b (n + 1)

section Results

variable [TokenCodec] [WireCodec] {s s' : Sockets}

theorem Sockets.Moved.paced (hmoved : s.Moved s') (h : ∀ k, (s.socket k).Paced) :
    ∀ k, (s'.socket k).Paced := by
  have hadvance : ∀ {l s'}, s.advance l = some s' → ∀ j, (s'.socket j).Paced := by
    intro l s' hadvance j
    obtain ⟨_, _, _, hkeeps⟩ := Sockets.advance_spec hadvance
    exact hkeeps (fun self msg hpaced => hpaced) j (h j)
  cases hmoved with
  | quiet hs₁ => exact hadvance hs₁
  | connect k ip now hs₁ => exact Sockets.setSocket_all (hadvance hs₁) (Socket.paced_connect now _)
  | incoming k arrived asked frame hclock hs₁ =>
      obtain ⟨_, _, _, hkeeps⟩ := Sockets.advance_spec hs₁
      have hclock₁ := hkeeps (P := fun self => self.clock ≤ asked) (fun self msg hle => hle) k hclock
      exact Sockets.setSocket_all (hadvance hs₁) ((hadvance hs₁ k).receive hclock₁ frame)
  | channel k outbox => exact Sockets.setSocket_all h (h k)

theorem Sockets.Reached.paced (h : s.Reached) (k : Sender) : (s.socket k).Paced := by
  induction h generalizing k with
  | init => exact Socket.paced_default
  | step _ hstep ih => exact (Sockets.step_moved hstep).paced ih k

/-- A whole run. -/
def Sockets.run (s : Sockets) (ls : List SocketLabel) : Option Sockets := ls.foldlM Sockets.step s

theorem Sockets.Reached.run (h : s.Reached) {ls : List SocketLabel} (hrun : s.run ls = some s') :
    s'.Reached := by
  induction ls generalizing s with
  | nil =>
      cases hrun
      exact h
  | cons l ls ih =>
      rw [Sockets.run, List.foldlM_cons] at hrun
      obtain ⟨mid, hmid, hrest⟩ := Option.bind_eq_some_iff.mp hrun
      exact ih (.step h hmid) hrest

/-- A client that sends no JSON, and is told so; then the write task pings it. -/
def complaint : List SocketLabel :=
  [.connect 0 "ip" 0, .incoming 0 1 1 (.text "?"), .relay (.act (.conn 0) {}), .write 0 .recv,
    .write 0 (.sent true), .write 0 (.ping true)]

/-- One frame has passed, and one text and one ping are on the wire. -/
def Complained (s : Sockets) : Prop :=
  (s.socket 0).frames.countP (·.2.passes) = 1 ∧ (s.socket 0).outbox.running = true ∧
    (s.socket 0).outbox.written.map Option.isSome = [true, false]

instance (s : Sockets) : Decidable (Complained s) := inferInstanceAs (Decidable (_ ∧ _))

omit [TokenCodec] [WireCodec] in
theorem complaint_runs : letI : TokenCodec := sampleCodec
    letI : WireCodec := sampleWire
    ∃ s, Sockets.Reached s ∧ Complained s := by
  let _ : TokenCodec := sampleCodec
  let _ : WireCodec := sampleWire
  have hinit : Sockets.Reached { sys := initially [] } := .init startup_empty
  obtain ⟨s, hrun, hcomplained⟩ := (Option.any_eq_true _ _).mp
    (show ((Sockets.run { sys := initially [] } complaint).any fun s => decide (Complained s)) = true
      by decide +kernel)
  exact ⟨s, hinit.run hrun, of_decide_eq_true hcomplained⟩

omit [TokenCodec] in
theorem Socket.wire_texts (self : Socket) :
    self.wire.reduceOption = self.outbox.written.reduceOption.filterMap WireCodec.toJson := by
  rw [Socket.wire]
  induction self.outbox.written with
  | nil => rfl
  | cons msg written ih =>
      cases msg with
      | none => simpa [Socket.frameOf] using ih
      | some msg =>
          cases hjson : WireCodec.toJson msg with
          | none => simpa [Socket.frameOf, hjson] using ih
          | some json => simpa [Socket.frameOf, hjson] using ih

/-- **The sockets carry what the relay sends.**  Whatever comes in, whenever the channels are
    full, the write tasks slow, failing or aborted: the relay between the sockets does one of
    its own runs, in which messages are read from the texts that came in.  On each socket

      * every message of the relay is offered to the channel, in order, and is taken or
        refused; there are never more than 64 in the channel;
      * what is written, in flight and queued are messages that were taken, in their order
        and none twice, and the texts are theirs;
      * while the write task runs, they are all that were taken, and each message that was
        refused met a channel with 64 messages in it. -/
theorem sockets_deliver (h : s.Reached) :
    Reaches (Hears fun k text => (k, text) ∈ s.received) s.sys ∧
    ∀ k, (s.socket k).outbox.offers.map Outbox.Offer.item = Sockets.sentTo k s.sys ∧
      (s.socket k).outbox.queue.length ≤ OUTBOUND_CHANNEL_CAPACITY ∧
      (s.socket k).outbox.carried.Sublist (s.socket k).outbox.taken ∧
      (s.socket k).wire.reduceOption.Sublist
        ((s.socket k).outbox.taken.filterMap WireCodec.toJson) ∧
      ((s.socket k).outbox.running = true →
        (s.socket k).outbox.carried = (s.socket k).outbox.taken ∧
        ∀ x ∈ (s.socket k).outbox.offers, x.taken = false →
          x.depth = OUTBOUND_CHANNEL_CAPACITY) := by
  obtain ⟨hreaches, hcarry⟩ := h.sound
  refine ⟨hreaches, fun k => ⟨(hcarry k).offered, (hcarry k).bounded, (hcarry k).order, ?_, ?_⟩⟩
  · rw [Socket.wire_texts]
    exact ((List.sublist_append_left _ _).trans (hcarry k).order).filterMap _
  · intro hrunning
    exact ⟨(hcarry k).complete hrunning, (hcarry k).refused hrunning⟩

omit [TokenCodec] [WireCodec] in
theorem sockets_deliver_complaint : letI : TokenCodec := sampleCodec
    letI : WireCodec := sampleWire
    ∃ s, Sockets.Reached s ∧ Complained s ∧
      Reaches (Hears fun k text => (k, text) ∈ s.received) s.sys ∧
      (s.socket 0).outbox.carried = (s.socket 0).outbox.taken := by
  let _ : TokenCodec := sampleCodec
  let _ : WireCodec := sampleWire
  obtain ⟨s, h, hcomplained⟩ := complaint_runs
  obtain ⟨hreaches, hsockets⟩ := sockets_deliver h
  exact ⟨s, h, hcomplained, hreaches, ((hsockets 0).2.2.2.2 hcomplained.2.1).1⟩

/-- **Floods are bounded.**  In any stretch of time, and whatever else happens, a connection
    gets at most 30 frames past its rate limiter, and ten more for every second.  The bucket
    is one of exact rational numbers; that of the source is one of `f64`. -/
theorem floods_are_bounded (h : s.Reached) (k : Sender) (a b : Instant) :
    (((s.socket k).frames.countP fun f => f.2.passes && decide (a ≤ f.1 ∧ f.1 ≤ b) : ℕ) : ℚ) ≤
      PER_CONNECTION_MESSAGE_BURST + PER_CONNECTION_MESSAGE_SUSTAINED * Duration.asSecs (b - a) := by
  have hpaced := (h.paced k).length_le a b
  rw [List.countP_filter] at hpaced
  simpa [Bool.and_comm] using hpaced

omit [TokenCodec] [WireCodec] in
theorem floods_are_bounded_in_complaint : letI : TokenCodec := sampleCodec
    letI : WireCodec := sampleWire
    ∃ s, Sockets.Reached s ∧ Complained s ∧
      (((s.socket 0).frames.countP fun f => f.2.passes && decide (0 ≤ f.1 ∧ f.1 ≤ 1) : ℕ) : ℚ) ≤
        PER_CONNECTION_MESSAGE_BURST + PER_CONNECTION_MESSAGE_SUSTAINED * Duration.asSecs (1 - 0) := by
  let _ : TokenCodec := sampleCodec
  let _ : WireCodec := sampleWire
  obtain ⟨s, h, hcomplained⟩ := complaint_runs
  exact ⟨s, h, hcomplained, floods_are_bounded h 0 0 1⟩

end Results

end PlezyRelay
