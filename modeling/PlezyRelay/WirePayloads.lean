/-
  PlezyRelay/WirePayloads.lean
  ============================
  **From the text of one client to the text of another.**

  The rest of the development starts from decoded messages.  Reading and writing JSON is
  not code of this repository but of `serde_json`, and is a parameter here (`WireCodec`),
  with the two laws that a payload needs: it is not parsed (`RawValue`), but cut out of the
  sender's text and copied into the receivers' texts as it is (`WireCodec.Verbatim`).

  `payloads_verbatim_on_the_wire` says what a receiver can rely on, for all runs in which
  the messages come from texts: the payload of the text it gets stands character by
  character in a text which a connection admitted as `from` has sent to be relayed.
-/
import PlezyRelay.Routing

namespace PlezyRelay

/-! ### Texts -/

/-- `serde_json` on the messages of `protocol.rs`. -/
class WireCodec where
  /-- `from_str::<ClientMessage>` -/
  fromStr : String → Option ClientMessage
  /-- `to_string` of a `ServerMessage` -/
  toJson : ServerMessage → Option String

/-- Payloads are pieces of the texts they are read from and written to. -/
structure WireCodec.Verbatim [WireCodec] : Prop where
  read {text : String} {msg : ClientMessage} (h : fromStr text = some msg) :
    ∀ raw ∈ msg.payload, raw.toList <:+: text.toList
  written {msg : ServerMessage} {json : String} (h : toJson msg = some json) :
    ∀ raw ∈ msg.payload, raw.toList <:+: json.toList

def MAX_MESSAGE_SIZE : Nat := 65536

/-- What the read loop makes of a text frame; `allowed` is the word of the rate limiter,
    which is asked after the size. -/
def Frame.ofText [WireCodec] (allowed : Bool) (text : String) : Frame :=
  if MAX_MESSAGE_SIZE < text.utf8ByteSize then .ignored
  else if !allowed then .limited
  else
    match WireCodec.fromStr text with
    | none => .malformed
    | some msg => .message msg

/-! ### What a handler says -/

/-- What an action relays. -/
def Act.speech : Act → Option (String × Nat × Option Payload)
  | .room _ op => op.speech
  | _ => none

/-- The message asks for its payload to be relayed. -/
def ClientMessage.Relays (msg : ClientMessage) (payload : Option Payload) : Prop :=
  (msg.msgType = .broadcast ∨ msg.msgType = .sendTo) ∧ msg.payload = payload

/-- An action of the handler of `f` relays nothing but what `f` asks for. -/
def Frame.Says (f : Frame) (a : Act) : Prop :=
  ∀ p c payload, a.speech = some (p, c, payload) → ∃ msg, f = .message msg ∧ msg.Relays payload

section Handlers

variable {f : Frame} (con : Connection) (msg : ClientMessage)

theorem Frame.says_of_silent {a : Act} (h : a.speech = none) : f.Says a := by
  intro p c payload hspeech
  rw [h] at hspeech
  cases hspeech

/-- A kind of actions without the two sections that relay. -/
theorem silent_of {A : Act → Bool}
    (hbroadcast : ∀ r p c payload, A (.room r (.broadcast p c payload)) = false)
    (hsendTo : ∀ r p c target payload, A (.room r (.sendTo p c target payload)) = false)
    {a : Act} (h : A a = true) : a.speech = none := by
  cases a with
  | room r op =>
      cases op with
      | broadcast => cases (hbroadcast ..).symm.trans h
      | sendTo => cases (hsendTo ..).symm.trans h
      | _ => rfl
  | _ => rfl

theorem silent_of_all {α : Type} {A : Act → Bool} {p : Task α}
    (hp : p.All fun a => A a = true)
    (hbroadcast : ∀ r p c payload, A (.room r (.broadcast p c payload)) = false)
    (hsendTo : ∀ r p c target payload, A (.room r (.sendTo p c target payload)) = false) :
    p.All fun a => a.speech = none :=
  hp.mono fun _ => silent_of hbroadcast hsendTo

theorem silent_applyEffects (tx : Sender) (effects : Effects) :
    (applyEffects tx effects).All fun a => a.speech = none :=
  silent_of_all (applyEffects_all tx effects) (fun _ _ _ _ => rfl) fun _ _ _ _ _ => rfl

theorem says_of_all {α : Type} {p : Task α} (hp : p.All fun a => a.speech = none) :
    p.All f.Says :=
  hp.mono fun _ => Frame.says_of_silent

theorem says_deliver (tx : Sender) (effects : Effects) (con' : Connection) :
    (do applyEffects tx effects; pure con' : Task Connection).All f.Says :=
  (says_of_all (silent_applyEffects tx effects)).bind fun _ => trivial

theorem says_answer (reply : ServerMessage) : (con.answer reply).All f.Says :=
  ⟨Frame.says_of_silent rfl, fun _ => trivial⟩

theorem says_handleJoin (resumeOnly : Bool) : (con.handleJoin msg resumeOnly).All f.Says := by
  unfold Connection.handleJoin
  split
  · exact says_answer con _
  · split
    · exact says_answer con _
    · refine ⟨Frame.says_of_silent rfl, fun found => ?_⟩
      cases found with
      | none => exact says_answer con _
      | some room => exact ⟨Frame.says_of_silent rfl, fun effects => says_deliver ..⟩

theorem says_handleLeave : (con.handleLeave msg).All f.Says := by
  unfold Connection.handleLeave
  split
  · exact says_answer con _
  · apply (says_of_all (silent_of_all (leave_all ..) (fun _ _ _ _ => rfl) fun _ _ _ _ _ => rfl)).bind
    intro effects
    exact says_deliver ..

theorem says_handleEndSession : (con.handleEndSession msg).All f.Says := by
  unfold Connection.handleEndSession
  split
  · exact says_answer con _
  · apply (says_of_all (silent_of_all (endSession_all ..) (fun _ _ _ _ => rfl) fun _ _ _ _ _ => rfl)).bind
    intro effects
    exact says_deliver ..

theorem says_inCurrentRoom {op : RoomId → Task Effects} (hop : ∀ room, (op room).All f.Says) :
    (con.inCurrentRoom op).All f.Says := by
  unfold Connection.inCurrentRoom
  split
  · exact says_answer con _
  · exact (hop _).bind fun effects => says_deliver ..

theorem says_inCurrentRoomTo {op : RoomId → Task Effects} (hop : ∀ room, (op room).All f.Says) :
    (con.inCurrentRoomTo msg op).All f.Says := by
  unfold Connection.inCurrentRoomTo
  split
  · exact says_answer con _
  · split
    · exact says_answer con _
    · exact says_inCurrentRoom con hop

theorem says_fromOutside {handler : Task Connection} (h : handler.All f.Says) :
    (con.fromOutside handler).All f.Says := by
  unfold Connection.fromOutside
  split
  · exact says_answer con _
  · exact h

variable [TokenCodec]

theorem says_handleCreate : (con.handleCreate msg).All f.Says := by
  unfold Connection.handleCreate
  split
  · exact says_answer con _
  · split
    · exact says_answer con _
    · apply (says_of_all (silent_of_all (create_all ..) (fun _ _ _ _ => rfl) fun _ _ _ _ _ => rfl)).bind
      rintro ⟨room, effects⟩
      exact says_deliver ..

theorem says_handleMessage : (con.handleMessage msg).All (Frame.message msg).Says := by
  have hown : ∀ a : Act, msg.msgType = .broadcast ∨ msg.msgType = .sendTo →
      (∃ p c, a.speech = some (p, c, msg.payload)) → (Frame.message msg).Says a := by
    rintro a htype ⟨p, c, hspeech⟩ p' c' payload h
    rw [hspeech] at h
    cases h
    exact ⟨msg, rfl, htype, rfl⟩
  unfold Connection.handleMessage
  split
  · exact says_answer con _
  · exact says_fromOutside con (says_handleCreate con msg)
  · exact says_fromOutside con (says_handleJoin con msg false)
  · exact says_fromOutside con (says_handleJoin con msg true)
  · exact says_handleLeave con msg
  · exact says_handleEndSession con msg
  · exact says_inCurrentRoomTo con msg fun _ => ⟨Frame.says_of_silent rfl, fun _ => trivial⟩
  · rename_i htype
    exact says_inCurrentRoom con fun _ => ⟨hown _ (Or.inl htype) ⟨_, _, rfl⟩, fun _ => trivial⟩
  · rename_i htype
    exact says_inCurrentRoomTo con msg fun _ =>
      ⟨hown _ (Or.inr htype) ⟨_, _, rfl⟩, fun _ => trivial⟩
  · exact says_answer con _

theorem says_handleFrame (f : Frame) : (con.handleFrame f).All f.Says := by
  cases f with
  | ignored => trivial
  | limited | malformed => exact says_answer con _
  | message msg => exact says_handleMessage con msg

end Handlers

/-! ### Runs in which messages are read from texts -/

/-- Every text frame of a connection is one that was `written` on it. -/
def Hears [WireCodec] (written : Sender → String → Prop) (_ : RelaySys) : RelayLabel → Prop
  | .start (.conn k) (.frame f) =>
      f = .ignored ∨ ∃ allowed text, written k text ∧ f = .ofText allowed text
  | _ => True

/-- The message was decoded from a text of the connection. -/
def Heard [WireCodec] (written : Sender → String → Prop) (k : Sender) (msg : ClientMessage) : Prop :=
  ∃ text, written k text ∧ text.utf8ByteSize ≤ MAX_MESSAGE_SIZE ∧
    WireCodec.fromStr text = some msg

theorem heard_of_ofText [WireCodec] {written : Sender → String → Prop} {k : Sender} {allowed : Bool}
    {text : String} {msg : ClientMessage} (hwritten : written k text)
    (h : Frame.message msg = .ofText allowed text) : Heard written k msg := by
  unfold Frame.ofText at h
  split_ifs at h with hsize hallowed
  split at h
  · cases h
  · rename_i msg' hread
    cases h
    exact ⟨text, hwritten, Nat.le_of_not_lt hsize, hread⟩

/-- A task relays nothing but what messages of its connection ask for. -/
def Speaks [WireCodec] (written : Sender → String → Prop) (t : Tid) (_ : List Done) (a : Act) :
    Prop :=
  ∀ p c payload, a.speech = some (p, c, payload) →
    ∃ k msg, t = .conn k ∧ Heard written k msg ∧ msg.Relays payload

section Runs

variable [WireCodec] {written : Sender → String → Prop}

theorem speaks_of_silent {α : Type} {t : Tid} {p : Task α} {past : List Done}
    (hp : p.All fun a => a.speech = none) :
    p.Obeys (Speaks written t) (fun _ _ => True) past := by
  apply Proc.Obeys.of_all hp trivial _ fun _ _ _ => trivial
  intro past a _ ha p c payload hspeech
  rw [ha] at hspeech
  cases hspeech

omit [WireCodec] in
theorem silent_exit (con : Connection) : con.exit.All fun a => a.speech = none := by
  unfold Connection.exit
  split
  · trivial
  · split
    · trivial
    · refine ⟨rfl, fun effects => ?_⟩
      exact silent_applyEffects con.tx effects

variable [TokenCodec]

theorem speaks_start {sys : RelaySys} {t : Tid} {q : Request} {l : Local} {p : Task Local}
    {past : List Done} (hc : Hears written sys (.start t q)) (hp : relay.start t q l = some p) :
    p.Obeys (Speaks written t) (fun _ _ => True) past := by
  simp only [relay, Request.start] at hp
  split at hp
  · cases hp
    trivial
  · rename_i k f con
    cases hp
    have hframe : (con.handleFrame f).Obeys (Speaks written (.conn k)) (fun _ _ => True) past := by
      apply Proc.Obeys.of_all (says_handleFrame con f) trivial _ fun _ _ _ => trivial
      intro past a _ ha p c payload hspeech
      obtain ⟨msg, rfl, hrelays⟩ := ha p c payload hspeech
      rcases hc with hignored | ⟨allowed, text, hwritten, hread⟩
      · cases hignored
      · exact ⟨k, msg, rfl, heard_of_ofText hwritten hread, hrelays⟩
    exact Proc.Obeys.bind hframe fun _ _ _ => trivial
  · rename_i con
    cases hp
    exact Proc.Obeys.bind (speaks_of_silent (silent_exit con)) fun _ _ _ => trivial
  · cases hp
    exact Proc.Obeys.bind (speaks_of_silent (silent_of_all (sweep_all _) (fun _ _ _ _ => rfl)
      fun _ _ _ _ _ => rfl)) fun _ _ _ => trivial
  · cases hp
    exact Proc.Obeys.bind (speaks_of_silent (silent_of_all flushAndStop_all (fun _ _ _ _ => rfl)
      fun _ _ _ _ _ => rfl)) fun _ _ _ => trivial
  · cases hp

/-- Whatever a section has relayed, its connection had sent. -/
theorem heard_of_speech {sys : RelaySys} (h : Reaches (Hears written) sys) {ev : Event}
    (hev : ev ∈ sys.shared.history) {p : String} {c : Nat} {payload : Option Payload}
    (hspeech : ev.speech = some (p, c, payload)) :
    ∃ k msg, ev.thread = .conn k ∧ Heard written k msg ∧ msg.Relays payload := by
  have horderly := relay_traced.obeys (P := Speaks written) (Q := fun _ _ _ => True) ?_
    (fun _ t q l p past hc _ => speaks_start hc) h ev.thread
  · obtain ⟨t, a, x⟩ := ev
    obtain ⟨later, earlier, hsplit⟩ := List.append_of_mem (mem_record.mpr hev)
    have hrecord := horderly.1
    rw [hsplit] at hrecord
    apply hrecord.of_append p c payload
    cases a <;> exact hspeech
  · rintro _ ⟨file, now, clock, rfl⟩ t
    cases t <;> exact ⟨trivial, trivial⟩

end Runs

/-! ### Two clients -/

/-- Three texts that can be read, and a way to write that keeps the payload. -/
@[reducible] def sampleWire : WireCodec where
  fromStr text :=
    if text = "create" then some (message .create "s" "a" tokenOnes)
    else if text = "join" then some (message .join "s" "b" tokenTwos)
    else if text = "say [1]" then some { msgType := .broadcast, payload := some "[1]" }
    else none
  toJson msg := some (msg.payload.getD "")

theorem sampleWire_verbatim : letI := sampleWire; WireCodec.Verbatim := by
  let _ := sampleWire
  constructor
  · intro text msg h raw hraw
    simp only [WireCodec.fromStr] at h
    split_ifs at h with hcreate hjoin hsay
    · cases h
      cases hraw
    · cases h
      cases hraw
    · cases h
      cases hraw
      subst hsay
      decide
  · intro msg json h raw hraw
    cases h
    rw [Option.mem_def.mp hraw]
    exact List.infix_rfl

def chatTexts : List (Sender × String) := [(0, "create"), (1, "join"), (1, "say [1]")]

/-- The same on the relay, as the messages the texts stand for. -/
def textChat : List RelayLabel :=
  .start (.conn 0) (.connect "ip") :: .start (.conn 1) (.connect "ip") ::
    handles 0 (message .create "s" "a" tokenOnes) 8 ++
    handles 1 (message .join "s" "b" tokenTwos) 5 ++
    handles 1 { msgType := .broadcast, payload := some "[1]" } 2

theorem textChat_hears : letI := sampleWire; ∀ l ∈ textChat, ∀ sys,
    Hears (fun k text => (k, text) ∈ chatTexts) sys l := by
  let _ := sampleWire
  have hhandles : ∀ k text msg n, (k, text) ∈ chatTexts → text.utf8ByteSize ≤ MAX_MESSAGE_SIZE →
      WireCodec.fromStr text = some msg → ∀ l ∈ handles k msg n, ∀ sys,
      Hears (fun k text => (k, text) ∈ chatTexts) sys l := by
    intro k text msg n hmem hsize hread l hl sys
    rcases List.mem_cons.mp hl with rfl | hl
    · refine Or.inr ⟨true, text, hmem, ?_⟩
      simp [Frame.ofText, Nat.not_lt.mpr hsize, hread]
    · rw [List.eq_of_mem_replicate hl]
      trivial
  intro l hl sys
  simp only [textChat, List.mem_append, List.mem_cons] at hl
  rcases hl with ((rfl | rfl | hl) | hl) | hl
  · trivial
  · trivial
  · exact hhandles 0 "create" _ _ (by simp [chatTexts]) (by decide) rfl l hl sys
  · exact hhandles 1 "join" _ _ (by simp [chatTexts]) (by decide) rfl l hl sys
  · exact hhandles 1 "say [1]" _ _ (by simp [chatTexts]) (by decide) rfl l hl sys

end PlezyRelay
