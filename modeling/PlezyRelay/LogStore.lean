/-
  PlezyRelay/LogStore.lean
  ========================
  **Crash logs, uploaded and downloaded** (`logs.rs`).

  `post_logs` keeps a body in memory and answers with an id; `get_logs` answers with the
  body.  Requests run side by side with each other and with the cleanup of the sweep, and
  may be dropped while they wait for the lock of the map.  Every section that holds the
  lock is one action; the time by which a section drops old entries is read before the
  lock is taken, so the sections do not come in the order of their times.

    * `downloads_are_uploads`: an answer with a body has exactly what a `post_logs` stored
      under this id, and a lookup finds it exactly if no section in between dropped what
      was three days old by its own reading.  Ids are never given twice as long as the
      first upload is there.
    * `log_store_bounded`: at most 500 entries of at most a megabyte under well-formed
      ids; the permits for lookups are never lost; and the search for a free id ends as
      soon as it has seen 500 different ids.
-/
import Mathlib.Data.Fintype.BigOperators
import PlezyRelay.Foundation.Permits
import PlezyRelay.Quotas

namespace PlezyRelay

namespace Logs

/-! ### Ids -/

def MAX_LOG_SIZE : Nat := 1024 * 1024
def MAX_LOG_ENTRIES : Nat := 500
def LOG_ID_LENGTH : Nat := 5
def LOG_MAX_AGE : Duration := secs (3 * 24 * 60 * 60)
def MAX_CONCURRENT_LOOKUPS : Nat := 32

def ID_ALPHABET : List UInt8 := "abcdefghijklmnopqrstuvwxyz0123456789".toUTF8.data.toList

/-- What `gen_range` answers, for each of the characters. -/
abbrev Draw := Fin LOG_ID_LENGTH → Fin ID_ALPHABET.length

def generateLogId (draw : Draw) : String :=
  String.ofList (List.ofFn fun i => Char.ofUInt8 (ID_ALPHABET.get (draw i)))

def validLogId (id : String) : Bool :=
  id.utf8ByteSize == LOG_ID_LENGTH && id.toUTF8.data.toList.all ID_ALPHABET.contains

theorem encode_of_mem_ID_ALPHABET : ∀ b ∈ ID_ALPHABET,
    String.utf8EncodeChar (Char.ofUInt8 b) = [b] := by
  decide +kernel

theorem nodup_ID_ALPHABET : ID_ALPHABET.Nodup := by
  decide +kernel

/-- The bytes of an id are the bytes drawn. -/
theorem bytes_generateLogId (draw : Draw) :
    (generateLogId draw).toUTF8.data.toList = List.ofFn fun i => ID_ALPHABET.get (draw i) := by
  have hencode : ∀ bytes : List UInt8, (∀ b ∈ bytes, b ∈ ID_ALPHABET) →
      (bytes.map Char.ofUInt8).flatMap String.utf8EncodeChar = bytes := by
    intro bytes hbytes
    induction bytes with
    | nil => rfl
    | cons b bytes ih =>
        rw [List.map_cons, List.flatMap_cons, encode_of_mem_ID_ALPHABET b (hbytes b List.mem_cons_self),
          ih fun b' hb' => hbytes b' (List.mem_cons_of_mem b hb')]
        rfl
  have hmap : (List.ofFn fun i => Char.ofUInt8 (ID_ALPHABET.get (draw i))) =
      (List.ofFn fun i => ID_ALPHABET.get (draw i)).map Char.ofUInt8 := by
    rw [List.map_ofFn]
    rfl
  rw [generateLogId, String.toUTF8, String.toByteArray_ofList, List.utf8Encode, hmap, hencode]
  · simp
  · intro b hb
    obtain ⟨i, rfl⟩ := List.mem_ofFn.mp hb
    exact List.get_mem ..

theorem validLogId_generateLogId (draw : Draw) : validLogId (generateLogId draw) = true := by
  have hbytes := bytes_generateLogId draw
  have hsize : (generateLogId draw).utf8ByteSize = LOG_ID_LENGTH := by
    have hlength := congrArg List.length hbytes
    simpa using hlength
  rw [validLogId, hsize, hbytes]
  simp

theorem generateLogId_injective : Function.Injective generateLogId := by
  intro draw draw' h
  have hbytes := congrArg (fun id => id.toUTF8.data.toList) h
  simp only [bytes_generateLogId, List.ofFn_inj] at hbytes
  funext i
  exact (List.Nodup.get_inj_iff nodup_ID_ALPHABET).mp (congrFun hbytes i)

/-! ### The store -/

structure Entry where
  data : List UInt8
  createdAt : SystemTime
deriving DecidableEq

structure LogStore where
  entries : AssocMap String Entry
  uploadLimiter : LastTimestampLimiter
  /-- The permits of `lookup_slots` that are free. -/
  lookupSlots : Nat

def LogStore.new : LogStore :=
  { entries := ∅
    uploadLimiter := .new LOG_UPLOAD_INTERVAL
    lookupSlots := MAX_CONCURRENT_LOOKUPS }

/-- Less than three days old at `now`, which may also be before it was made. -/
def Entry.Fresh (now : SystemTime) (entry : Entry) : Prop :=
  now.durationSince entry.createdAt < LOG_MAX_AGE

instance (now : SystemTime) (entry : Entry) : Decidable (entry.Fresh now) :=
  inferInstanceAs (Decidable (_ < _))

/-- `entries.retain(..)`. -/
def retainFresh (entries : AssocMap String Entry) (now : SystemTime) : AssocMap String Entry :=
  entries.retain fun _ entry => decide (entry.Fresh now)

/-- The loop that looks for an id, over the ids it draws; `none` if they are all taken. -/
def freeId (entries : AssocMap String Entry) : List Draw → Option String
  | [] => none
  | draw :: draws =>
      if entries.contains (generateLogId draw) then freeId entries draws
      else some (generateLogId draw)

/-- The section of `post_logs`: the id, or `none` for a full store. -/
def insertLog (entries : AssocMap String Entry) (body : List UInt8) (now : SystemTime)
    (draws : List Draw) : Option (Option String × AssocMap String Entry) :=
  let entries := retainFresh entries now
  if MAX_LOG_ENTRIES ≤ entries.size then some (none, entries)
  else (freeId entries draws).map fun id => (some id, entries.insert id ⟨body, now⟩)

/-! ### Requests -/

inductive Request where
  | post (resolved : Except ClientIpError IpAddr) (body : List UInt8)
  | get (resolved : Except ClientIpError IpAddr) (id : String)
deriving DecidableEq

inductive Response where
  /-- A status code with a body. -/
  | refused (status : Nat) (body : String)
  /-- The id of an upload, as JSON. -/
  | json (id : String)
  | ok (headers : List (String × String)) (data : List UInt8)
deriving DecidableEq

inductive Act where
  /-- `Instant::now()`. -/
  | instantNow
  /-- `SystemTime::now()`. -/
  | systemNow
  | allowUpload (ip : IpAddr) (now : Instant)
  /-- Wait for the lock of the entries, and the section of `post_logs`. -/
  | insert (body : List UInt8) (now : SystemTime)
  | tryAcquire
  /-- Wait for the lock of the entries, and `entries.get`. -/
  | lookup (id : String)
  /-- The permit is dropped. -/
  | release
  /-- `failed_lookup_limiter.allow`. -/
  | allowLookup (ip : IpAddr)
  /-- The section of `LogStore::cleanup`. -/
  | retain (now : SystemTime)
  | cleanupLimiter (now : Instant)
  | respond (request : Request) (response : Response)
deriving DecidableEq

/-- What an action answers.  A request that waits for a lock may be dropped before it gets
    it: then the answer is `none`. -/
abbrev Act.Resp : Act → Type
  | .instantNow => Instant
  | .systemNow => SystemTime
  | .allowUpload .. | .tryAcquire | .allowLookup _ => Bool
  | .insert .. => Option (Option String)
  | .lookup _ => Option (Option (List UInt8))
  | .release | .retain _ | .cleanupLimiter _ | .respond .. => Unit

abbrev Task := Proc Act Act.Resp

abbrev perform (a : Act) : Task a.Resp := Proc.perform a

def refuse (status : Nat) (body : String) : Task (Option Response) :=
  pure (some (.refused status body))

/-- `LastTimestampLimiter::allow`, which reads the clock before it takes its lock. -/
def allowUpload (ip : IpAddr) : Task Bool := do
  let now ← perform .instantNow
  perform (.allowUpload ip now)

/-- `post_logs`; no answer if the request is dropped. -/
def postLogs (resolved : Except ClientIpError IpAddr) (body : List UInt8) :
    Task (Option Response) :=
  match resolved with
  | .error _ => refuse 400 "Invalid client address"
  | .ok ip => do
      let allowed ← allowUpload ip
      if !allowed then refuse 429 "Rate limited: 1 upload per minute"
      else if body.isEmpty then refuse 400 "Empty body"
      else if MAX_LOG_SIZE < body.length then refuse 413 "Log too large (max 1MB)"
      else do
        let now ← perform .systemNow
        let stored ← perform (.insert body now)
        match stored with
        | none => pure none
        | some none => refuse 503 "Log store full"
        | some (some id) => pure (some (.json id))

def logHeaders : List (String × String) :=
  [("content-type", "text/plain; charset=utf-8"), ("cache-control", "private, no-store")]

/-- What is found under an id; one that is not well formed is not looked up. -/
def findLog (id : String) : Task (Option (Option (List UInt8))) :=
  if validLogId id then perform (.lookup id) else pure (some none)

/-- The answer to what has been found. -/
def lookupResponse (ip : IpAddr) : Option (Option (List UInt8)) → Task (Option Response)
  | none => pure none
  | some none => do
      let allowed ← perform (.allowLookup ip)
      if !allowed then refuse 429 "Too many failed lookups" else refuse 404 "Not found"
  | some (some data) => pure (some (.ok logHeaders data))

/-- The part of `get_logs` that is done with a permit. -/
def lookupLog (ip : IpAddr) (id : String) : Task (Option Response) := do
  let found ← findLog id
  lookupResponse ip found

/-- `get_logs`; no answer if the request is dropped. -/
def getLogs (resolved : Except ClientIpError IpAddr) (id : String) : Task (Option Response) :=
  match resolved with
  | .error _ => refuse 400 "Invalid client address"
  | .ok ip => do
      let permit ← perform .tryAcquire
      if !permit then refuse 429 "Too many concurrent lookups"
      else do
        let response ← lookupLog ip id
        -- `_permit` goes out of scope
        perform .release
        pure response

def serve (request : Request) : Task Unit := do
  let response ← match request with
    | .post resolved body => postLogs resolved body
    | .get resolved id => getLogs resolved id
  match response with
  | none => pure ()
  | some response => perform (.respond request response)

/-- `LogStore::cleanup`, at the end of a sweep that has read the clock when it began. -/
def cleanup : Task Unit := do
  let now ← perform .systemNow
  perform (.retain now)
  let now ← perform .instantNow
  perform (.cleanupLimiter now)

/-! ### Requests side by side -/

/-- The outside readings of an action. -/
structure Env where
  instant : Instant := 0
  systemTime : SystemTime := 0
  draws : List Draw := []
  /-- The request is dropped while it waits. -/
  dropped : Bool := false
  /-- What `governor` answers. -/
  lookupAllowed : Bool := true

def LogStore.exec (self : LogStore) : (a : Act) → Env → Option (a.Resp × LogStore)
  | .instantNow, e => some (e.instant, self)
  | .systemNow, e => some (e.systemTime, self)
  | .allowUpload ip now, _ =>
      let (uploadLimiter, allowed) := self.uploadLimiter.allow ip now
      some (allowed, { self with uploadLimiter := uploadLimiter })
  | .insert body now, e =>
      if e.dropped then some (none, self)
      else (insertLog self.entries body now e.draws).map fun (stored, entries) =>
        (some stored, { self with entries := entries })
  | .tryAcquire, _ =>
      if self.lookupSlots = 0 then some (false, self)
      else some (true, { self with lookupSlots := self.lookupSlots - 1 })
  | .lookup id, e =>
      if e.dropped then some (none, self)
      else some (some ((self.entries.lookup id).map Entry.data), self)
  | .release, _ => some ((), { self with lookupSlots := self.lookupSlots + 1 })
  | .allowLookup _, e => some (e.lookupAllowed, self)
  | .retain now, _ => some ((), { self with entries := retainFresh self.entries now })
  | .cleanupLimiter now, _ =>
      some ((), { self with uploadLimiter := self.uploadLimiter.cleanup now })
  | .respond .., _ => some ((), self)

structure Event where
  thread : Nat
  act : Act
  resp : act.Resp

/-- The store and what has happened, latest first. -/
structure World where
  store : LogStore
  history : List Event

inductive Job where
  | serve (request : Request)
  | cleanup

def logs : Machine Nat Act Act.Resp World Env Job Empty Unit where
  exec t a e w := (w.store.exec a e).map fun (x, store) =>
    (x, { store := store, history := ⟨t, a, x⟩ :: w.history })
  start _ job _ :=
    match job with
    | .serve request => some (serve request)
    | .cleanup => some cleanup
  ambient m _ := m.elim

abbrev LogSys := Sys Nat Act Act.Resp World Unit

def initially : LogSys := ⟨⟨.new, []⟩, fun _ => .ret ()⟩

/-- The states of all runs. -/
abbrev Reached (sys : LogSys) : Prop := logs.Reachable (· = initially) (fun _ _ => True) sys

/-! ### What a section does to the entries -/

/-- The time by which an action has dropped old entries. -/
def Event.cutoff : Event → Option SystemTime
  | ⟨_, .insert _ now, some _⟩ => some now
  | ⟨_, .retain now, _⟩ => some now
  | _ => none

/-- The action has stored the entry. -/
def Event.Stores (id : String) (entry : Entry) : Event → Prop
  | ⟨_, .insert body now, some (some id')⟩ => id' = id ∧ entry = ⟨body, now⟩
  | _ => False

theorem Event.Stores.cutoff {id : String} {entry : Entry} {ev : Event} (h : ev.Stores id entry) :
    ev.cutoff = some entry.createdAt := by
  unfold Event.Stores at h
  split at h
  · rw [h.2]
    rfl
  · cases h

/-- `entry` was stored under `id`, and nothing has dropped it since. -/
def Held (id : String) (entry : Entry) : List Event → Prop
  | [] => False
  | ev :: h => ev.Stores id entry ∨ (Held id entry h ∧ ∀ now ∈ ev.cutoff, entry.Fresh now)

theorem freeId_eq_some {entries : AssocMap String Entry} {draws : List Draw} {id : String}
    (h : freeId entries draws = some id) : id ∉ entries ∧ validLogId id = true := by
  induction draws with
  | nil => cases h
  | cons draw draws ih =>
      rw [freeId] at h
      split at h
      · exact ih h
      · rename_i hfree
        obtain rfl := Option.some.inj h
        rw [AList.contains_iff] at hfree
        exact ⟨hfree, validLogId_generateLogId draw⟩

/-- What an action can do to the entries. -/
inductive Moves (entries : AssocMap String Entry) : Event → AssocMap String Entry → Prop where
  | full (t : Nat) (body : List UInt8) (now : SystemTime) :
      Moves entries ⟨t, .insert body now, some none⟩ (retainFresh entries now)
  | stored (t : Nat) (body : List UInt8) (now : SystemTime) (id : String)
      (hroom : (retainFresh entries now).size < MAX_LOG_ENTRIES)
      (hfree : id ∉ retainFresh entries now) (hvalid : validLogId id = true) :
      Moves entries ⟨t, .insert body now, some (some id)⟩
        ((retainFresh entries now).insert id ⟨body, now⟩)
  | swept (t : Nat) (now : SystemTime) :
      Moves entries ⟨t, .retain now, ()⟩ (retainFresh entries now)
  | same (ev : Event) (hcutoff : ev.cutoff = none) : Moves entries ev entries

theorem LogStore.exec_moves {self self' : LogStore} {a : Act} {e : Env} {x : a.Resp}
    (h : self.exec a e = some (x, self')) (t : Nat) :
    Moves self.entries ⟨t, a, x⟩ self'.entries := by
  cases a with
  | insert body now =>
      simp only [exec, insertLog] at h
      split at h
      · cases h
        exact .same _ rfl
      · split at h
        · cases h
          exact .full t body now
        · rename_i hroom
          simp only [Option.map_map, Option.map_eq_some_iff] at h
          obtain ⟨id, hid, heq⟩ := h
          obtain ⟨hfree, hvalid⟩ := freeId_eq_some hid
          cases heq
          exact .stored t body now id (Nat.lt_of_not_le hroom) hfree hvalid
  | retain now =>
      cases h
      exact .swept t now
  | lookup id =>
      simp only [exec] at h
      split at h
      · cases h
        exact .same _ rfl
      · cases h
        exact .same _ rfl
  | tryAcquire =>
      simp only [exec] at h
      split at h
      · cases h
        exact .same _ rfl
      · cases h
        exact .same _ rfl
  | _ =>
      cases h
      exact .same _ rfl

theorem lookup_retainFresh {entries : AssocMap String Entry} {now : SystemTime} {id : String}
    {entry : Entry} : (retainFresh entries now).lookup id = some entry ↔
      entries.lookup id = some entry ∧ entry.Fresh now := by
  rw [retainFresh, AList.lookup_retain, Option.filter_eq_some_iff, decide_eq_true_eq]

/-- What is found after an action. -/
theorem Moves.lookup {entries entries' : AssocMap String Entry} {ev : Event}
    (h : Moves entries ev entries') (id : String) (entry : Entry) :
    entries'.lookup id = some entry ↔ ev.Stores id entry ∨
      (entries.lookup id = some entry ∧ ∀ now ∈ ev.cutoff, entry.Fresh now) := by
  cases h with
  | full t body now => simp [lookup_retainFresh, Event.Stores, Event.cutoff]
  | swept t now => simp [lookup_retainFresh, Event.Stores, Event.cutoff]
  | same ev hcutoff =>
      have hstores : ¬ev.Stores id entry := by
        intro hstores
        rw [hstores.cutoff] at hcutoff
        cases hcutoff
      simp [hcutoff, hstores]
  | stored t body now id' hroom hfree hvalid =>
      simp only [Event.Stores, Event.cutoff, AList.lookup_insert_eq, Option.mem_some_iff,
        forall_eq']
      rw [← lookup_retainFresh]
      by_cases hid : id = id'
      · subst hid
        have hnone : (retainFresh entries now).lookup id = none := AList.lookup_eq_none.mpr hfree
        simp [hnone, eq_comm]
      · simp [hid, Ne.symm hid]

/-! ### Runs -/

/-- A property of the store and the history that every action keeps. -/
theorem Reached.invariant {P : World → Prop} (hinit : P ⟨.new, []⟩)
    (hact : ∀ t a e w x store, w.store.exec a e = some (x, store) → P w →
      P ⟨store, ⟨t, a, x⟩ :: w.history⟩)
    {sys : LogSys} (h : Reached sys) : P sys.shared := by
  induction h with
  | init h => rw [h]; exact hinit
  | step _ _ hstep ih =>
      rcases logs.step_cases hstep with ⟨t, q, loc, p, rfl, _, _, rfl⟩ |
        ⟨t, e, a, k, x, w, rfl, _, hx, rfl⟩ | ⟨m, _⟩
      · exact ih
      · simp only [logs, Option.map_eq_some_iff] at hx
        obtain ⟨⟨x', store⟩, hx, heq⟩ := hx
        cases heq
        exact hact t a e _ x' store hx ih
      · exact m.elim

/-- The entries are what the history says. -/
theorem Reached.lookup {sys : LogSys} (h : Reached sys) (id : String) (entry : Entry) :
    sys.shared.store.entries.lookup id = some entry ↔ Held id entry sys.shared.history := by
  refine h.invariant (P := fun w => w.store.entries.lookup id = some entry ↔
    Held id entry w.history) (by simp [LogStore.new, Held]) ?_
  intro t a e w x store hx ih
  rw [(LogStore.exec_moves hx t).lookup, ih, Held]

/-- What an action found out is what the history says. -/
def Accurate (earlier : List Event) : Event → Prop
  | ⟨_, .lookup id, some found⟩ =>
      ∀ data, found = some data ↔ ∃ createdAt, Held id ⟨data, createdAt⟩ earlier
  | ⟨_, .insert _ now, some (some id)⟩ => ∀ entry, Held id entry earlier → ¬entry.Fresh now
  | _ => True

theorem LogStore.exec_accurate {self self' : LogStore} {a : Act} {e : Env} {x : a.Resp}
    (h : self.exec a e = some (x, self')) (t : Nat) {history : List Event}
    (hheld : ∀ id entry, self.entries.lookup id = some entry ↔ Held id entry history) :
    Accurate history ⟨t, a, x⟩ := by
  cases a with
  | lookup id =>
      simp only [exec] at h
      split at h
      · cases h
        trivial
      · cases h
        intro data
        rw [Option.map_eq_some_iff]
        constructor
        · rintro ⟨entry, hentry, rfl⟩
          exact ⟨entry.createdAt, (hheld id entry).mp hentry⟩
        · rintro ⟨createdAt, hentry⟩
          exact ⟨_, (hheld id _).mpr hentry, rfl⟩
  | insert body now =>
      have hmoves := exec_moves h t
      generalize self'.entries = entries' at hmoves
      generalize hev : (⟨t, .insert body now, x⟩ : Event) = ev at hmoves ⊢
      cases hmoves with
      | stored t body now id _ hfree _ =>
          intro entry hentry hfresh
          exact hfree (AList.mem_of_lookup (lookup_retainFresh.mpr ⟨(hheld id entry).mpr hentry, hfresh⟩))
      | full => trivial
      | swept => trivial
      | same ev hcutoff =>
          subst hev
          cases x with
          | none => trivial
          | some stored => cases hcutoff
  | _ => trivial

theorem Reached.accurate {sys : LogSys} (h : Reached sys) :
    EachAfter Accurate sys.shared.history := by
  have hboth := h.invariant (P := fun w => EachAfter Accurate w.history ∧
    ∀ id entry, w.store.entries.lookup id = some entry ↔ Held id entry w.history)
    ⟨trivial, by simp [LogStore.new, Held]⟩ ?_
  · exact hboth.1
  · rintro t a e w x store hx ⟨haccurate, hheld⟩
    refine ⟨⟨LogStore.exec_accurate hx t hheld, haccurate⟩, ?_⟩
    intro id entry
    rw [(LogStore.exec_moves hx t).lookup, hheld, Held]

/-! ### What a request does -/

abbrev Done := Proc.Done Act Act.Resp

/-- The record of one task. -/
def record (t : Nat) (h : List Event) : List Done :=
  (h.filter fun ev => decide (ev.thread = t)).map fun ev => ⟨ev.act, ev.resp⟩

theorem logs_traced : logs.Traced fun t w => record t w.history where
  own {t a e w x w'} hx := by
    simp only [logs, Option.map_eq_some_iff] at hx
    obtain ⟨_, _, heq⟩ := hx
    cases heq
    simp [record]
  other {t u a e w x w'} hx hne := by
    simp only [logs, Option.map_eq_some_iff] at hx
    obtain ⟨_, _, heq⟩ := hx
    cases heq
    simp [record, Ne.symm hne]
  ambient {m} _ _ := m.elim

theorem record_append (t : Nat) (h h' : List Event) :
    record t (h ++ h') = record t h ++ record t h' := by
  simp [record]

theorem record_cons (t : Nat) (a : Act) (x : a.Resp) (h : List Event) :
    record t (⟨t, a, x⟩ :: h) = ⟨a, x⟩ :: record t h := by
  simp [record]

/-- The latest action of a task, in the history. -/
theorem split_of_record {t : Nat} {h : List Event} {a : Act} {x : a.Resp} {rest : List Done}
    (hrecord : record t h = ⟨a, x⟩ :: rest) :
    ∃ mid earlier, h = mid ++ ⟨t, a, x⟩ :: earlier ∧ record t mid = [] ∧
      record t earlier = rest := by
  induction h with
  | nil => cases hrecord
  | cons ev h ih =>
      obtain ⟨u, b, y⟩ := ev
      by_cases hu : u = t
      · subst hu
        rw [record_cons] at hrecord
        cases hrecord
        exact ⟨[], h, rfl, rfl, rfl⟩
      · have hskip : ∀ h', record t (⟨u, b, y⟩ :: h') = record t h' := by simp [record, hu]
        rw [hskip] at hrecord
        obtain ⟨mid, earlier, rfl, hmid, hearlier⟩ := ih hrecord
        exact ⟨⟨u, b, y⟩ :: mid, earlier, rfl, (hskip mid).trans hmid, hearlier⟩

/-- Answers say what the task has found out, and bodies are checked before they are
    stored. -/
def Proper (past : List Done) : Act → Prop
  | .insert body _ => body ≠ [] ∧ body.length ≤ MAX_LOG_SIZE
  | .respond (.post _ body) (.json id) =>
      ∃ now rest, past = ⟨.insert body now, some (some id)⟩ :: rest
  | .respond (.get _ id) (.ok _ data) =>
      ∃ rest, past = ⟨.release, ()⟩ :: ⟨.lookup id, some (some data)⟩ :: rest
  | .respond (.post ..) (.ok ..) | .respond (.get ..) (.json _) => False
  | _ => True

/-- The permits of `lookup_slots`. -/
def lookupPermits : Permits Act Act.Resp where
  takes
    | .tryAcquire, acquired => acquired
    | _, _ => false
  gives a := decide (a = .release)

/-- The rules for a task. -/
def Rules (past : List Done) (a : Act) : Prop := Proper past a ∧ lookupPermits.Scoped past a

/-- A task ends without a permit. -/
def Settled (past : List Done) (_ : Unit) : Prop := lookupPermits.holds past = false

section Programs

variable {past : List Done}

theorem takes_eq_false {a : Act} (h : a ≠ .tryAcquire) (x : a.Resp) :
    lookupPermits.takes a x = false := by
  cases a with
  | tryAcquire => exact absurd rfl h
  | _ => rfl

/-- The rules for actions that have nothing to do with permits. -/
theorem rules_of_proper {a : Act} (hproper : Proper past a) (hrelease : a ≠ .release)
    (hacquire : a ≠ .tryAcquire) : Rules past a := by
  refine ⟨hproper, ?_, ?_⟩
  · intro hgives
    exact absurd (of_decide_eq_true hgives) hrelease
  · intro x hx
    rw [takes_eq_false hacquire] at hx
    cases hx

/-- The answer may be given, and the task has no permit. -/
def Answers (request : Request) (past : List Done) (response : Option Response) : Prop :=
  lookupPermits.holds past = false ∧ ∀ answer ∈ response, Proper past (.respond request answer)

theorem answers_refuse (request : Request) (status : Nat) (body : String)
    (h : lookupPermits.holds past = false) : Answers request past (some (.refused status body)) := by
  refine ⟨h, ?_⟩
  intro answer hanswer
  obtain rfl := Option.some.inj hanswer
  cases request with
  | post => trivial
  | get => trivial

theorem postLogs_obeys (resolved : Except ClientIpError IpAddr) (body : List UInt8)
    (h : lookupPermits.holds past = false) :
    (postLogs resolved body).Obeys Rules (Answers (.post resolved body)) past := by
  unfold postLogs
  cases resolved with
  | error err => exact answers_refuse _ _ _ h
  | ok ip =>
      refine ⟨rules_of_proper trivial (by simp) (by simp), fun now => ?_⟩
      refine ⟨rules_of_proper trivial (by simp) (by simp), fun allowed => ?_⟩
      replace h : lookupPermits.holds (⟨.allowUpload ip now, allowed⟩ :: ⟨.instantNow, now⟩ :: past) =
          false := h
      dsimp only [Proc.ret_bind]
      split
      · exact answers_refuse _ _ _ h
      · split
        · exact answers_refuse _ _ _ h
        · split
          · exact answers_refuse _ _ _ h
          · rename_i hempty hlarge
            refine ⟨rules_of_proper trivial (by simp) (by simp), fun time => ?_⟩
            refine ⟨rules_of_proper ?_ (by simp) (by simp), fun stored => ?_⟩
            · exact ⟨fun hnil => hempty (by simp [hnil]), Nat.le_of_not_lt hlarge⟩
            · match stored with
              | none => exact ⟨h, by simp⟩
              | some none => exact answers_refuse _ _ _ h
              | some (some id) =>
                  refine ⟨h, ?_⟩
                  intro answer hanswer
                  obtain rfl := Option.some.inj hanswer
                  exact ⟨time, _, rfl⟩

/-- The answer may be given once the permit is back. -/
def Owes (id : String) (past : List Done) (response : Option Response) : Prop :=
  lookupPermits.holds past = true ∧ ∀ answer ∈ response, (∃ status body, answer = .refused status body) ∨
    ∃ headers data rest, answer = .ok headers data ∧ past = ⟨.lookup id, some (some data)⟩ :: rest

theorem lookupLog_obeys (ip : IpAddr) (id : String) (h : lookupPermits.holds past = true) :
    (lookupLog ip id).Obeys Rules (Owes id) past := by
  have hmissing : ∀ past', lookupPermits.holds past' = true →
      (lookupResponse ip (some none)).Obeys Rules (Owes id) past' := by
    intro past' h'
    refine ⟨rules_of_proper trivial (by simp) (by simp), fun allowed => ?_⟩
    cases allowed with
    | true => exact ⟨h', by simp⟩
    | false => exact ⟨h', by simp⟩
  unfold lookupLog findLog
  split
  · refine ⟨rules_of_proper trivial (by simp) (by simp), fun found => ?_⟩
    match found with
    | none => exact ⟨h, by simp⟩
    | some none => exact hmissing _ h
    | some (some data) => exact ⟨h, by simp⟩
  · exact hmissing past h

theorem getLogs_obeys (resolved : Except ClientIpError IpAddr) (id : String)
    (h : lookupPermits.holds past = false) :
    (getLogs resolved id).Obeys Rules (Answers (.get resolved id)) past := by
  unfold getLogs
  cases resolved with
  | error err => exact answers_refuse _ _ _ h
  | ok ip =>
      refine ⟨⟨trivial, by simp [lookupPermits], fun _ _ => h⟩, fun permit => ?_⟩
      cases permit with
      | false => exact answers_refuse _ _ _ h
      | true =>
          apply (lookupLog_obeys ip id rfl).bind
          rintro response past' ⟨hholds, hanswers⟩
          refine ⟨⟨trivial, fun _ => hholds, fun _ hx => absurd hx Bool.false_ne_true⟩,
            fun _ => ⟨rfl, ?_⟩⟩
          intro answer hanswer
          rcases hanswers answer hanswer with ⟨status, body, rfl⟩ | ⟨headers, data, rest, rfl, rfl⟩
          · trivial
          · exact ⟨rest, rfl⟩

theorem serve_obeys (request : Request) (h : lookupPermits.holds past = false) :
    (serve request).Obeys Rules Settled past := by
  have hrespond : ∀ response past', Answers request past' response →
      (match response with
        | none => pure ()
        | some response => perform (.respond request response) : Task Unit).Obeys Rules Settled
        past' := by
    rintro response past' ⟨hholds, hproper⟩
    cases response with
    | none => exact hholds
    | some answer =>
        refine ⟨rules_of_proper (hproper answer rfl) (by simp) (by simp), fun _ => ?_⟩
        exact hholds
  unfold serve
  cases request with
  | post resolved body => exact (postLogs_obeys resolved body h).bind hrespond
  | get resolved id => exact (getLogs_obeys resolved id h).bind hrespond

theorem cleanup_obeys (h : lookupPermits.holds past = false) :
    cleanup.Obeys Rules Settled past := by
  refine ⟨rules_of_proper trivial (by simp) (by simp), fun now => ?_⟩
  refine ⟨rules_of_proper trivial (by simp) (by simp), fun _ => ?_⟩
  refine ⟨rules_of_proper trivial (by simp) (by simp), fun instant => ?_⟩
  refine ⟨rules_of_proper trivial (by simp) (by simp), fun _ => ?_⟩
  exact h

end Programs

theorem Reached.orderly {sys : LogSys} (h : Reached sys) (t : Nat) :
    Machine.Orderly Rules Settled (sys.threads t) (record t sys.shared.history) := by
  refine logs_traced.obeys (P := fun _ => Rules) (Q := fun _ => Settled) ?_ ?_ h t
  · rintro sys rfl t
    exact ⟨trivial, rfl⟩
  · intro sys t job loc p past _ hsettled hstart
    cases job with
    | serve request =>
        obtain rfl := Option.some.inj hstart
        exact serve_obeys request hsettled
    | cleanup =>
        obtain rfl := Option.some.inj hstart
        exact cleanup_obeys hsettled

/-- Whatever a task did, it had a right to. -/
theorem Reached.proper {sys : LogSys} (h : Reached sys) {later earlier : List Event} {t : Nat}
    {a : Act} {x : a.Resp} (hsplit : sys.shared.history = later ++ ⟨t, a, x⟩ :: earlier) :
    Proper (record t earlier) a := by
  have hrecord := (h.orderly t).1
  rw [hsplit, record_append, record_cons] at hrecord
  exact hrecord.of_append.1

/-! ### Downloads and uploads -/

/-- **Downloads are uploads.**  In every interleaving of uploads, downloads and cleanups:

      * a lookup of an id finds a body exactly if it was stored under this id and no section
        since has dropped what was three days old by its reading of the clock;
      * an answer with a body is what the lookup of the same request has found;
      * an answer with an id comes after the body of the same request was stored under it,
        when whatever had been stored under the id before was three days old. -/
theorem downloads_are_uploads {sys : LogSys} (h : Reached sys) {later earlier : List Event}
    {ev : Event} (hsplit : sys.shared.history = later ++ ev :: earlier) :
    (∀ t id found, ev = ⟨t, .lookup id, some found⟩ →
      ∀ data, found = some data ↔ ∃ createdAt, Held id ⟨data, createdAt⟩ earlier) ∧
    (∀ t resolved id headers data, ev = ⟨t, .respond (.get resolved id) (.ok headers data), ()⟩ →
      ∃ mid rest createdAt, earlier = mid ++ ⟨t, .lookup id, some (some data)⟩ :: rest ∧
        record t mid = [⟨.release, ()⟩] ∧ Held id ⟨data, createdAt⟩ rest) ∧
    ∀ t resolved body id, ev = ⟨t, .respond (.post resolved body) (.json id), ()⟩ →
      ∃ mid rest now, earlier = mid ++ ⟨t, .insert body now, some (some id)⟩ :: rest ∧
        record t mid = [] ∧ ∀ entry, Held id entry rest → ¬entry.Fresh now := by
  have haccurate := h.accurate
  rw [hsplit] at haccurate
  refine ⟨?_, ?_, ?_⟩
  · rintro t id found rfl
    exact haccurate.of_append
  · rintro t resolved id headers data rfl
    obtain ⟨rest, hrecord⟩ := h.proper hsplit
    obtain ⟨mid, earlier', rfl, hmid, hrecord'⟩ := split_of_record hrecord
    obtain ⟨mid', rest', rfl, hmid', _⟩ := split_of_record hrecord'
    have hfound : Accurate rest' ⟨t, .lookup id, some (some data)⟩ :=
      haccurate.suffix.2.suffix.2.of_append
    obtain ⟨createdAt, hheld⟩ := (hfound data).mp rfl
    refine ⟨mid ++ ⟨t, .release, ()⟩ :: mid', rest', createdAt, by simp, ?_, hheld⟩
    rw [record_append, record_cons, hmid, hmid']
    rfl
  · rintro t resolved body id rfl
    obtain ⟨now, rest, hrecord⟩ := h.proper hsplit
    obtain ⟨mid, rest', rfl, hmid, _⟩ := split_of_record hrecord
    have hfresh : Accurate rest' ⟨t, .insert body now, some (some id)⟩ :=
      haccurate.suffix.2.of_append
    exact ⟨mid, rest', now, rfl, hmid, hfresh⟩

def sampleIp : IpAddr := .v4 (.replicate 4 10)

/-- One task uploads two bytes, and another one downloads them. -/
def upAndDown : List (Label Nat Env Job Empty) :=
  let env : Env := { draws := [fun _ => ⟨0, by decide +kernel⟩] }
  .start 0 (.serve (.post (.ok sampleIp) [1, 2])) :: List.replicate 5 (.act 0 env) ++
    .start 1 (.serve (.get (.ok sampleIp) "aaaaa")) :: List.replicate 4 (.act 1 env)

/-- The second task has its answer. -/
def Downloaded (sys : LogSys) : Prop :=
  ∃ ev ∈ sys.shared.history.head?, ev.thread = 1 ∧
    ev.act = .respond (.get (.ok sampleIp) "aaaaa") (.ok logHeaders [1, 2])

instance : DecidablePred Downloaded := fun sys =>
  inferInstanceAs (Decidable (∃ ev ∈ sys.shared.history.head?, _))

theorem upAndDown_downloads : ∃ sys, Reached sys ∧ Downloaded sys := by
  have hinit : Reached initially := .init rfl
  have hrun : ((logs.run (fun _ _ => True) initially upAndDown).any
      fun sys => decide (Downloaded sys)) = true := by
    decide +kernel
  exact hinit.exists_of_run hrun

theorem downloads_are_uploads_in_upAndDown : ∃ sys mid rest createdAt, Reached sys ∧
    sys.shared.history.tail = mid ++ ⟨1, .lookup "aaaaa", some (some [1, 2])⟩ :: rest ∧
      Held "aaaaa" ⟨[1, 2], createdAt⟩ rest := by
  obtain ⟨sys, h, ⟨t, a, x⟩, hev, rfl, rfl⟩ := upAndDown_downloads
  have hsplit := List.eq_cons_of_mem_head? hev
  obtain ⟨_, hdownloads, _⟩ := @downloads_are_uploads sys h [] _ _ hsplit
  obtain ⟨mid, rest, createdAt, hmid, _, hheld⟩ := hdownloads 1 _ _ _ _ rfl
  exact ⟨sys, mid, rest, createdAt, h, hmid, hheld⟩

/-! ### Limits -/

/-- What is held was stored. -/
theorem Held.exists_insert {id : String} {entry : Entry} {h : List Event} (hheld : Held id entry h) :
    ∃ later t earlier,
      h = later ++ ⟨t, .insert entry.data entry.createdAt, some (some id)⟩ :: earlier := by
  induction h with
  | nil => cases hheld
  | cons ev h ih =>
      rcases hheld with hstores | ⟨hheld, _⟩
      · unfold Event.Stores at hstores
        split at hstores
        · obtain ⟨rfl, rfl⟩ := hstores
          exact ⟨[], _, h, rfl⟩
        · cases hstores
      · obtain ⟨later, t, earlier, rfl⟩ := ih hheld
        exact ⟨ev :: later, t, earlier, rfl⟩

/-- The entries are few, and their ids are well formed. -/
theorem Reached.entries {sys : LogSys} (h : Reached sys) :
    sys.shared.store.entries.size ≤ MAX_LOG_ENTRIES ∧
      ∀ id ∈ sys.shared.store.entries, validLogId id = true := by
  refine h.invariant (P := fun w => w.store.entries.size ≤ MAX_LOG_ENTRIES ∧
    ∀ id ∈ w.store.entries, validLogId id = true) ?_ ?_
  · exact ⟨Nat.zero_le _, by simp [LogStore.new]⟩
  · rintro t a e w x store hx ⟨hsize, hvalid⟩
    have hretain : ∀ now, (retainFresh w.store.entries now).size ≤ MAX_LOG_ENTRIES ∧
        ∀ id ∈ retainFresh w.store.entries now, validLogId id = true := by
      intro now
      refine ⟨(AList.size_retain_le _ _).trans hsize, ?_⟩
      intro id hid
      exact hvalid id (AList.mem_of_mem_retain hid)
    have hmoves := LogStore.exec_moves hx t
    dsimp only
    generalize store.entries = entries at hmoves ⊢
    generalize (⟨t, a, x⟩ : Event) = ev at hmoves
    cases hmoves with
    | full _ _ now => exact hretain now
    | swept _ now => exact hretain now
    | same => exact ⟨hsize, hvalid⟩
    | stored _ body now id hroom hfree hid =>
        refine ⟨?_, ?_⟩
        · rw [AList.size_insert_of_notMem hfree]
          exact hroom
        · intro id' hid'
          rcases (AList.mem_insert _).mp hid' with rfl | hold
          · exact hid
          · exact (hretain now).2 id' hold

/-- Ids that are all taken are entries. -/
theorem freeId_eq_none {entries : AssocMap String Entry} {draws : List Draw}
    (h : freeId entries draws = none) : ∀ draw ∈ draws, generateLogId draw ∈ entries := by
  induction draws with
  | nil => simp
  | cons draw draws ih =>
      rw [freeId] at h
      split at h
      · rename_i htaken
        intro draw' hdraw'
        rcases List.mem_cons.mp hdraw' with rfl | hdraw'
        · exact AList.contains_iff.mp htaken
        · exact ih h draw' hdraw'
      · cases h

/-- The section ends once the loop has seen more ids than there can be entries. -/
theorem insertLog_ends (entries : AssocMap String Entry) (body : List UInt8) (now : SystemTime)
    {draws : List Draw} (h : MAX_LOG_ENTRIES ≤ (draws.map generateLogId).toFinset.card) :
    ∃ stored entries', insertLog entries body now draws = some (stored, entries') := by
  rw [insertLog]
  by_cases hfull : MAX_LOG_ENTRIES ≤ (retainFresh entries now).size
  · exact ⟨none, retainFresh entries now, by simp [hfull]⟩
  · cases hid : freeId (retainFresh entries now) draws with
    | some id =>
        refine ⟨some id, (retainFresh entries now).insert id ⟨body, now⟩, ?_⟩
        simp [hfull]
    | none =>
        exfalso
        apply hfull
        have hsub : (draws.map generateLogId).toFinset ⊆ (retainFresh entries now).keys.toFinset := by
          intro id hmem
          obtain ⟨draw, hdraw, rfl⟩ := List.mem_map.mp (List.mem_toFinset.mp hmem)
          rw [List.mem_toFinset]
          exact AList.mem_keys.mp (freeId_eq_none hid draw hdraw)
        calc MAX_LOG_ENTRIES ≤ (draws.map generateLogId).toFinset.card := h
          _ ≤ (retainFresh entries now).keys.toFinset.card := Finset.card_le_card hsub
          _ ≤ (retainFresh entries now).keys.length := List.toFinset_card_le _
          _ = (retainFresh entries now).size := (AList.size_eq_length_keys _).symm

/-- There are enough ids. -/
theorem exists_draws : ∃ draws : List Draw,
    MAX_LOG_ENTRIES ≤ (draws.map generateLogId).toFinset.card := by
  refine ⟨Finset.univ.toList, ?_⟩
  have hall : (Finset.univ.toList.map generateLogId).toFinset =
      (Finset.univ : Finset Draw).image generateLogId := by
    ext id
    simp
  rw [hall, Finset.card_image_of_injective _ generateLogId_injective, Finset.card_univ,
    Fintype.card_fun, Fintype.card_fin, Fintype.card_fin]
  decide +kernel

/-- The other actions leave the permits alone. -/
theorem LogStore.exec_lookupSlots {self self' : LogStore} {a : Act} {e : Env} {x : a.Resp}
    (h : self.exec a e = some (x, self')) (hacquire : a ≠ .tryAcquire) (hrelease : a ≠ .release) :
    self'.lookupSlots = self.lookupSlots := by
  cases a with
  | tryAcquire => exact absurd rfl hacquire
  | release => exact absurd rfl hrelease
  | insert body now =>
      simp only [exec] at h
      split at h
      · cases h
        rfl
      · obtain ⟨_, _, heq⟩ := Option.map_eq_some_iff.mp h
        cases heq
        rfl
  | lookup id =>
      simp only [exec] at h
      split at h
      · cases h
        rfl
      · cases h
        rfl
  | _ =>
      cases h
      rfl

theorem lookupPermits_counts : lookupPermits.Counts logs fun w => w.store.lookupSlots where
  exec {t a e w x w'} hx := by
    simp only [logs, Option.map_eq_some_iff] at hx
    obtain ⟨⟨x', store⟩, hx, heq⟩ := hx
    cases heq
    by_cases hacquire : a = .tryAcquire
    · subst hacquire
      simp only [LogStore.exec] at hx
      split at hx
      · cases hx
        rfl
      · cases hx
        simp only [lookupPermits]
        simp
        omega
    · by_cases hrelease : a = .release
      · subst hrelease
        cases hx
        rfl
      · rw [LogStore.exec_lookupSlots hx hacquire hrelease, takes_eq_false hacquire]
        simp [lookupPermits, hrelease]
  ambient {m} _ := m.elim

theorem Reached.permits {sys : LogSys} (h : Reached sys) : ∃ holders : Finset Nat,
    sys.shared.store.lookupSlots + holders.card = MAX_CONCURRENT_LOOKUPS ∧
      ∀ t, t ∈ holders ↔ lookupPermits.holds (record t sys.shared.history) = true := by
  refine lookupPermits_counts.accounted logs_traced ?_ ?_ h
  · rintro sys rfl
    exact ⟨rfl, fun _ => rfl⟩
  · intro sys hreached t a k ht
    have hobeys := (Reached.orderly hreached t).2
    rw [ht] at hobeys
    exact hobeys.1.2

/-- **The log store is bounded.**  In every interleaving there are at most 500 entries, each
    under an id of five characters of the alphabet and with a body of one byte to a
    megabyte.  The free permits for lookups and the requests that have one are 32 together,
    and a task that is done has none.  An upload that has its turn finds an id: the loop
    ends as soon as it has drawn 500 different ones, and there are as many. -/
theorem log_store_bounded {sys : LogSys} (h : Reached sys) :
    sys.shared.store.entries.size ≤ MAX_LOG_ENTRIES ∧
    (∀ id entry, sys.shared.store.entries.lookup id = some entry →
      validLogId id = true ∧ entry.data ≠ [] ∧ entry.data.length ≤ MAX_LOG_SIZE) ∧
    (∃ holders : Finset Nat,
      sys.shared.store.lookupSlots + holders.card = MAX_CONCURRENT_LOOKUPS ∧
      (∀ t, t ∈ holders ↔ lookupPermits.holds (record t sys.shared.history) = true) ∧
      ∀ t, sys.threads t = .ret () → t ∉ holders) ∧
    ∀ body now,
      (∀ draws, MAX_LOG_ENTRIES ≤ (draws.map generateLogId).toFinset.card →
        ∃ stored entries', insertLog sys.shared.store.entries body now draws =
          some (stored, entries')) ∧
      ∃ draws stored entries', insertLog sys.shared.store.entries body now draws =
        some (stored, entries') := by
  obtain ⟨hsize, hvalid⟩ := h.entries
  refine ⟨hsize, ?_, ?_, ?_⟩
  · intro id entry hentry
    obtain ⟨later, t, earlier, hsplit⟩ := ((h.lookup id entry).mp hentry).exists_insert
    exact ⟨hvalid id (AList.mem_of_lookup hentry), h.proper hsplit⟩
  · obtain ⟨holders, hcard, hholders⟩ := h.permits
    refine ⟨holders, hcard, hholders, ?_⟩
    intro t ht hmem
    have hsettled := (h.orderly t).2
    rw [ht] at hsettled
    exact Bool.false_ne_true (hsettled.symm.trans ((hholders t).mp hmem))
  · intro body now
    obtain ⟨draws, hdraws⟩ := exists_draws
    exact ⟨fun draws hdraws => insertLog_ends _ body now hdraws,
      draws, insertLog_ends _ body now hdraws⟩

theorem log_store_bounded_in_upAndDown : ∃ sys, Reached sys ∧ Downloaded sys ∧
    sys.shared.store.entries.size ≤ MAX_LOG_ENTRIES := by
  obtain ⟨sys, h, hdownloaded⟩ := upAndDown_downloads
  exact ⟨sys, h, hdownloaded, (log_store_bounded h).1⟩

end Logs

end PlezyRelay
