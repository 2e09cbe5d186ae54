/-
  PlezyRelay/PersistAtomic.lean
  =============================
  **`persist_atomic` replaces the state file as a whole** (`snapshot.rs`).

  The model of the writer has one step that replaces the file or leaves it as it was.
  The code has ten system calls, any of which may fail, and the process or the machine
  may go down between any two of them.  Here the calls are spelled out, on a disk that
  keeps what was synced, and the one step is derived: `persistAtomic_replaces` for a
  single call wherever it stops, and from it the histories of one server after the
  other.

  All of it rests on the temporary file not being the state file.  The source takes the
  state file's name with the extension `tmp`, so a state file that has this extension
  itself is written in place, and so is one that has the temporary name as a second name
  (`failed_persist_keeps_file_iff`).
-/
import Mathlib.Data.Nat.Notation
import PlezyRelay.Foundation.Files

namespace PlezyRelay

open Files

/-! ### Paths -/

/-- The part of a name before its last dot and the part after it. -/
def rsplitAtDot : List Char → Option (List Char × List Char)
  | [] => none
  | c :: cs =>
      match rsplitAtDot cs with
      | some (before, after) => some (c :: before, after)
      | none => if c = '.' then some ([], cs) else none

/-- A path that ends in a file name. -/
structure FilePath where
  parent : String
  fileName : List Char
deriving DecidableEq

namespace FilePath

/-- `Path::extension`: none if the only dot is the first character. -/
def extension (path : FilePath) : Option (List Char) :=
  match rsplitAtDot path.fileName with
  | none => none
  | some (before, after) => if before = [] then none else some after

def fileStem (path : FilePath) : List Char :=
  match rsplitAtDot path.fileName with
  | none => path.fileName
  | some (before, _) => if before = [] then path.fileName else before

def withExtension (path : FilePath) (extension : List Char) : FilePath :=
  { path with fileName := path.fileStem ++ '.' :: extension }

end FilePath

theorem rsplitAtDot_eq {l before after : List Char} (h : rsplitAtDot l = some (before, after)) :
    l = before ++ '.' :: after := by
  induction l generalizing before with
  | nil => cases h
  | cons c cs ih =>
      simp only [rsplitAtDot] at h
      split at h
      · rename_i before' after' hcs
        cases h
        rw [ih hcs, List.cons_append]
      · split at h
        · rename_i hc
          cases h
          rw [hc, List.nil_append]
        · cases h

/-- A path is its own temporary file exactly if it already has the extension. -/
theorem FilePath.withExtension_eq_self {path : FilePath} {e : List Char} :
    path.withExtension e = path ↔ path.extension = some e := by
  have hname : path.withExtension e = path ↔ path.fileStem ++ '.' :: e = path.fileName := by
    cases path
    simp [FilePath.withExtension]
  have hlonger : path.fileName ++ '.' :: e ≠ path.fileName := by
    intro h
    have hlen := congrArg List.length h
    simp at hlen
  rw [hname]
  unfold FilePath.fileStem FilePath.extension
  split
  · simp [hlonger]
  · rename_i before after hsplit
    split
    · simp [hlonger]
    · rw [rsplitAtDot_eq hsplit]
      simp [eq_comm]

/-! ### The calls -/

abbrev Byte := UInt8

abbrev FileProgram := Program FilePath String Byte

abbrev syscall (a : Call FilePath String Byte) : FileProgram a.Resp := Proc.perform a

/-- `write_all`: writes until everything is taken; a write that takes nothing is an
    error.  Every round takes at least one byte, so the length of the data is fuel
    enough. -/
def writeAll (file : Inode) : Nat → List Byte → FileProgram Bool
  | _, [] => pure true
  | 0, _ :: _ => pure false
  | fuel + 1, bytes => do
      match ← syscall (.write file bytes) with
      | none | some 0 => pure false
      | some (n + 1) => writeAll file fuel (bytes.drop (n + 1))

/-- The sync of the parent directory, whose failure is ignored. -/
def syncParent (dir : String) : FileProgram Unit := do
  if ← syscall (.openDir dir) then
    let _ ← syscall (.syncDir dir)
    pure ()
  else pure ()

/-- The end of `persist_atomic`, once the temporary file has been written. -/
def commitFile (tmpPath path : FilePath) (file : Inode) : FileProgram Bool := do
  if ← syscall (.sync file) then
    if ← syscall (.rename tmpPath path) then
      syncParent path.parent
      pure true
    else pure false
  else pure false

/-- Whether the call returned `Ok`. -/
def persistAtomic (path : FilePath) (data : List Byte) : FileProgram Bool := do
  if ← syscall (.makeDirs path.parent) then
    let tmpPath := path.withExtension ['t', 'm', 'p']
    match ← syscall (.create tmpPath) with
    | none => pure false
    | some file =>
        if ← writeAll file data.length data then commitFile tmpPath path file
        else pure false
  else pure false

/-! ### One call -/

section OneCall

variable {tmp path : FilePath} {d : Disk FilePath Byte} {c : Cell Byte}
  {I : Disk FilePath Byte → Prop}

/-- Writing the temporary file leaves the state file alone, and on success the temporary
    file has all of the data. -/
theorem writeAll_upholds {file : Inode} {fuel : Nat} {done rest : List Byte} {synced : Bool}
    (hI : ∀ d, Holds tmp path d c → I d) (h : Holds tmp path d c)
    (hname : d.names.lookup tmp = some file) (hfile : d.files[file]? = some ⟨done, synced⟩) :
    Upholds I (fun ok d' => Holds tmp path d' c ∧ d'.names.lookup tmp = some file ∧
      (ok = true → ∃ synced, d'.files[file]? = some ⟨done ++ rest, synced⟩))
      (writeAll file fuel rest) d := by
  induction fuel generalizing d done rest synced with
  | zero =>
      cases rest with
      | nil =>
          refine ⟨hI d h, h, hname, fun _ => ⟨synced, ?_⟩⟩
          rw [List.append_nil]
          exact hfile
      | cons b rest =>
          refine ⟨hI d h, h, hname, ?_⟩
          intro hok
          cases hok
  | succ fuel ih =>
      cases rest with
      | nil =>
          refine ⟨hI d h, h, hname, fun _ => ⟨synced, ?_⟩⟩
          rw [List.append_nil]
          exact hfile
      | cons b rest =>
          refine ⟨hI d h, fun e => ?_⟩
          cases e with
          | none =>
              refine ⟨hI d h, h, hname, ?_⟩
              intro hok
              cases hok
          | some n =>
              have h' := h.write hname ((b :: rest).take n)
              have hfile' : (d.write file ((b :: rest).take n)).files[file]? =
                  some ⟨done ++ (b :: rest).take n, false⟩ := by
                simp [Disk.write, hfile]
              cases n with
              | zero =>
                  refine ⟨hI _ h', h', hname, ?_⟩
                  intro hok
                  cases hok
              | succ n =>
                  -- The next round goes on after what was taken.
                  have hround := @ih _ _ ((b :: rest).drop (n + 1)) _ h' hname hfile'
                  rw [List.append_assoc, List.take_append_drop] at hround
                  have htaken : min (n + 1) (b :: rest).length = min n rest.length + 1 := by
                    simp [Nat.succ_min_succ]
                  have hdrop : (b :: rest).drop (min n rest.length + 1) =
                      (b :: rest).drop (n + 1) := by
                    rcases Nat.le_total n rest.length with hle | hle
                    · rw [Nat.min_eq_left hle]
                    · rw [Nat.min_eq_right hle]
                      simp [List.drop_eq_nil_of_le hle]
                  simp only [Call.exec, htaken]
                  show Upholds I _ (writeAll file fuel ((b :: rest).drop (min n rest.length + 1))) _
                  rw [hdrop]
                  exact hround

theorem syncParent_upholds {dir : String} {bytes : List Byte}
    (hI : ∀ d c', c.Replaced bytes c' → Holds tmp path d c' → I d)
    (h : Holds tmp path d (c.replace bytes)) :
    Upholds I (fun _ d' => ∃ c', c.Replaced bytes c' ∧ Holds tmp path d' c')
      (syncParent dir) d := by
  have hold : I d := hI d _ (Or.inl rfl) h
  refine ⟨hold, fun e => ?_⟩
  cases e with
  | none => exact ⟨hold, _, Or.inl rfl, h⟩
  | some n =>
      refine ⟨hold, fun e' => ?_⟩
      cases e' with
      | none => exact ⟨hold, _, Or.inl rfl, h⟩
      | some m => exact ⟨hI _ _ (Or.inr rfl) h.syncNames, _, Or.inr rfl, h.syncNames⟩

/-- The rename is the point at which the state file changes. -/
theorem commitFile_upholds {file : Inode} {bytes : List Byte} {synced : Bool} (hne : tmp ≠ path)
    (hI : ∀ d c', c' = c ∨ c.Replaced bytes c' → Holds tmp path d c' → I d)
    (h : Holds tmp path d c) (hname : d.names.lookup tmp = some file)
    (hfile : d.files[file]? = some ⟨bytes, synced⟩) :
    Upholds I (fun ok d' => ∃ c', (if ok then c.Replaced bytes c' else c' = c) ∧
      Holds tmp path d' c') (commitFile tmp path file) d := by
  have hold : ∀ d, Holds tmp path d c → I d := fun d => hI d c (Or.inl rfl)
  refine ⟨hold d h, fun e => ?_⟩
  cases e with
  | none => exact ⟨hold d h, c, rfl, h⟩
  | some _ =>
      have h₁ := h.sync hname
      have hfile₁ : (d.sync file).files[file]? = some ⟨bytes, true⟩ := by
        simp [Disk.sync, hfile]
      refine ⟨hold _ h₁, fun e => ?_⟩
      cases hrename : (d.sync file).rename tmp path with
      | none =>
          have hgone : (d.sync file).names.lookup tmp = none := Option.map_eq_none_iff.mp hrename
          rw [show (d.sync file).names.lookup tmp = some file from hname] at hgone
          cases hgone
      | some d₂ =>
          cases e with
          | none => exact ⟨hold _ h₁, c, rfl, h₁⟩
          | some _ =>
              have h₂ := h₁.rename hne hname hfile₁ hrename
              simp only [Call.exec, hrename]
              apply Upholds.bind
                (syncParent_upholds (fun d' c' hc' => hI d' c' (Or.inr hc')) h₂)
              rintro _ d₃ hd₃ ⟨c', hc', h₃⟩
              exact ⟨hd₃, c', hc', h₃⟩

end OneCall

/-- Wherever `persist_atomic` stops, the state file has been replaced as a whole or not
    at all; it returns `Ok` exactly if it has been replaced. -/
theorem persistAtomic_replaces {path : FilePath} (hext : path.extension ≠ some ['t', 'm', 'p']) :
    Replaces (path.withExtension ['t', 'm', 'p']) path (persistAtomic path) := by
  intro bytes d c h
  have hne : path.withExtension ['t', 'm', 'p'] ≠ path :=
    fun heq => hext (FilePath.withExtension_eq_self.mp heq)
  have hold : ∀ d', Holds (path.withExtension ['t', 'm', 'p']) path d' c →
      ∃ c', (c' = c ∨ c.Replaced bytes c') ∧
        Holds (path.withExtension ['t', 'm', 'p']) path d' c' :=
    fun d' h' => ⟨c, Or.inl rfl, h'⟩
  refine ⟨hold d h, fun e => ?_⟩
  cases e with
  | none => exact ⟨hold d h, c, rfl, h⟩
  | some _ =>
      refine ⟨hold d h, fun e => ?_⟩
      cases e with
      | none => exact ⟨hold d h, c, rfl, h⟩
      | some _ =>
          obtain ⟨hname, hfile⟩ := h.created
          apply Upholds.bind (writeAll_upholds hold (h.create hne) hname hfile)
          rintro ok d₁ - ⟨h₁, hname₁, hall⟩
          cases ok with
          | false => exact ⟨hold d₁ h₁, c, rfl, h₁⟩
          | true =>
              obtain ⟨synced, hfile₁⟩ := hall rfl
              exact commitFile_upholds hne (fun d' c' hc' h' => ⟨c', hc', h'⟩) h₁ hname₁ hfile₁

theorem writeAll_returns (file : Inode) (data : List Byte) (d : Disk FilePath Byte) :
    ∃ d', Steps (writeAll file data.length data) d (.ret true) d' ∧ d'.names = d.names := by
  cases data with
  | nil => exact ⟨d, .refl _ _, rfl⟩
  | cons b bs =>
      refine ⟨d.write file ((b :: bs).take (bs.length + 1)), .call (some (bs.length + 1)) ?_, rfl⟩
      have hall : (b :: bs).drop (bs.length + 1) = [] := List.drop_length
      simp only [Call.exec, List.length_cons, Nat.min_self]
      show Steps (writeAll file bs.length ((b :: bs).drop (bs.length + 1))) _ _ _
      rw [hall]
      cases bs <;> exact .refl _ _

theorem persistAtomic_returns (path : FilePath) (data : List Byte) (d : Disk FilePath Byte) :
    ∃ d', Steps (persistAtomic path data) d (.ret true) d' := by
  have hcreated := d.lookup_create (path.withExtension ['t', 'm', 'p'])
  obtain ⟨d₁, hwrite, hnames⟩ := writeAll_returns (d.create (path.withExtension ['t', 'm', 'p'])).1
    data (d.create (path.withExtension ['t', 'm', 'p'])).2
  have hrename : ∃ d₂, (d₁.sync (d.create (path.withExtension ['t', 'm', 'p'])).1).rename
      (path.withExtension ['t', 'm', 'p']) path = some d₂ := by
    rw [Disk.rename, show (d₁.sync _).names = d₁.names from rfl, hnames, hcreated]
    exact ⟨_, rfl⟩
  obtain ⟨d₂, hrename⟩ := hrename
  refine ⟨d₂.syncNames, .call (some 0) (.call (some 0) (hwrite.bind ?_))⟩
  refine .call (some 0) (.call (some 0) ?_)
  simp only [Call.exec, hrename]
  exact .call (some 0) (.call (some 0) (.refl _ _))

theorem persistAtomic_fails (path : FilePath) (data : List Byte) (d : Disk FilePath Byte) :
    Steps (persistAtomic path data) d (.ret false) d :=
  .call none (.refl _ _)

/-! ### Histories of servers -/

/-- **The state file is never torn.**  After any number of servers on one disk, whose
    writes returned, failed or were cut short by the death of the process or of the
    machine, the state file is the one found at first or exactly what a write that did
    not fail had to write; and what a write that returned `Ok` has written stays through
    any number of failed ones. -/
theorem state_file_never_torn {path : FilePath} (hext : path.extension ≠ some ['t', 'm', 'p'])
    {d₀ d : Disk FilePath Byte} {log : List (Entry Byte)} (hboot : d₀.Booted)
    (h : History (persistAtomic path) d₀ log d) :
    (d.read path = d₀.read path ∨
      ∃ entry ∈ log, entry.bytes = d.read path ∧ d.read path ≠ none) ∧
    ∀ failed bytes rest, log = failed ++ .returned bytes true :: rest →
      (∀ entry ∈ failed, ∃ b, entry = .returned b false) → d.read path = some bytes := by
  have hne : path.withExtension ['t', 'm', 'p'] ≠ path :=
    fun heq => hext (FilePath.withExtension_eq_self.mp heq)
  obtain ⟨c, hc, hd⟩ := (persistAtomic_replaces hext).history h (hboot.holds hne)
  rw [hd.current]
  constructor
  · apply (hc.written c.current List.mem_cons_self).imp_left
    intro hfirst
    exact List.mem_singleton.mp hfirst
  · rintro failed bytes rest rfl hfailed
    exact hc.last hfailed

def defaultStateFile : FilePath := ⟨"/data", "rooms.json".toList⟩

/-- A write that the disk takes byte by byte, then one that is killed half way, then a
    power cut that leaves garbage in the temporary file. -/
theorem state_file_never_torn_by_power_cut :
    ∃ d, History (persistAtomic defaultStateFile) {}
        [.powerCut, .killed [3, 4], .returned [1, 2] true] d ∧
      d.read (defaultStateFile.withExtension ['t', 'm', 'p']) = some [9, 9] ∧
      d.read defaultStateFile = some [1, 2] ∧
      (d.read defaultStateFile = none ∨
        ∃ entry ∈ [Entry.powerCut, .killed [3, 4], .returned [1, 2] true],
          entry.bytes = d.read defaultStateFile ∧ d.read defaultStateFile ≠ none) := by
  have hfirst := steps_drive [some 0, some 0, some 1, some 1, some 0, some 0, some 0, some 0]
    (persistAtomic defaultStateFile [1, 2]) {}
  have hsecond := steps_drive [some 0, some 0, some 1] (persistAtomic defaultStateFile [3, 4])
    (drive [some 0, some 0, some 1, some 1, some 0, some 0, some 0, some 0]
      (persistAtomic defaultStateFile [1, 2]) {}).2
  have h := History.powerCut 0 (fun _ => [9, 9])
    (.killed (.returned .start hfirst) hsecond)
  exact ⟨_, h, by decide, by decide, (state_file_never_torn (by decide) .empty h).1⟩

/-! ### Failed calls -/

section Failed

variable {tmp path : FilePath} {v : Option (List Byte)} {d : Disk FilePath Byte} {file : Inode}

theorem writeAll_aside {fuel : Nat} {rest : List Byte} (h : Aside tmp path v d)
    (hname : d.names.lookup tmp = some file) :
    Upholds (fun _ => True) (fun _ d' => Aside tmp path v d' ∧ d'.names.lookup tmp = some file)
      (writeAll file fuel rest) d := by
  induction fuel generalizing d rest with
  | zero => cases rest <;> exact ⟨trivial, h, hname⟩
  | succ fuel ih =>
      cases rest with
      | nil => exact ⟨trivial, h, hname⟩
      | cons b rest =>
          refine ⟨trivial, fun e => ?_⟩
          cases e with
          | none => exact ⟨trivial, h, hname⟩
          | some n =>
              have h' := h.write hname ((b :: rest).take n)
              simp only [Call.exec]
              cases min n (b :: rest).length with
              | zero => exact ⟨trivial, h', hname⟩
              | succ m => exact ih h' hname

/-- Before the rename nothing has been done to the state file, and after it nothing fails. -/
theorem commitFile_aside (h : Aside tmp path v d) (hname : d.names.lookup tmp = some file) :
    Upholds (fun _ => True) (fun ok d' => ok = false → d'.read path = v)
      (commitFile tmp path file) d := by
  refine ⟨trivial, fun e => ?_⟩
  cases e with
  | none => exact ⟨trivial, fun _ => h.read⟩
  | some _ =>
      refine ⟨trivial, fun e => ?_⟩
      cases hrename : (d.sync file).rename tmp path with
      | none =>
          simp only [Call.exec, hrename]
          exact ⟨trivial, fun _ => (h.sync hname).read⟩
      | some d₂ =>
          cases e with
          | none => exact ⟨trivial, fun _ => (h.sync hname).read⟩
          | some _ =>
              simp only [Call.exec, hrename]
              apply Upholds.bind (Upholds.trivial (syncParent path.parent) d₂)
              intro _ _ _ _
              refine ⟨trivial, ?_⟩
              intro hok
              cases hok

theorem persistAtomic_aside (data : List Byte) (hne : path.withExtension ['t', 'm', 'p'] ≠ path)
    (h : Aside (path.withExtension ['t', 'm', 'p']) path v d) :
    Upholds (fun _ => True) (fun ok d' => ok = false → d'.read path = v)
      (persistAtomic path data) d := by
  refine ⟨trivial, fun e => ?_⟩
  cases e with
  | none => exact ⟨trivial, fun _ => h.read⟩
  | some _ =>
      refine ⟨trivial, fun e => ?_⟩
      cases e with
      | none => exact ⟨trivial, fun _ => h.read⟩
      | some _ =>
          apply Upholds.bind (writeAll_aside (h.create hne) (d.lookup_create _))
          rintro ok d₁ - ⟨h₁, hname₁⟩
          cases ok with
          | false => exact ⟨trivial, fun _ => h₁.read⟩
          | true => exact commitFile_aside h₁ hname₁

/-- The temporary file is the state file, by name or because the name leads to it. -/
def SameFile (path : FilePath) (d : Disk FilePath Byte) : Prop :=
  path.extension = some ['t', 'm', 'p'] ∨
    ∃ i, d.names.lookup (path.withExtension ['t', 'm', 'p']) = some i ∧
      d.names.lookup path = some i

theorem SameFile.lookup_create (h : SameFile path d) :
    (d.create (path.withExtension ['t', 'm', 'p'])).2.names.lookup path =
      some (d.create (path.withExtension ['t', 'm', 'p'])).1 := by
  rcases h with hext | ⟨i, htmp, hpath⟩
  · have hcreated := d.lookup_create (path.withExtension ['t', 'm', 'p'])
    rwa [FilePath.withExtension_eq_self.mpr hext] at hcreated ⊢
  · simp only [Disk.create, htmp]
    exact hpath

end Failed

/-- **A failed write keeps the state file exactly if the temporary file is another file.**  If
    the state file is called `*.tmp`, or `*.tmp` is a second name of it, it is emptied before
    the first byte of the new one is written. -/
theorem failed_persist_keeps_file_iff (path : FilePath) {d : Disk FilePath Byte}
    (hnamed : d.Named) :
    (∀ bytes d', Steps (persistAtomic path bytes) d (.ret false) d' →
      d'.read path = d.read path) ↔ ¬SameFile path d := by
  constructor
  · intro hkeeps hsame
    have hname := hsame.lookup_create
    have hfile := hnamed.created (path.withExtension ['t', 'm', 'p'])
    -- the disk is full once the file has been opened, or once it has taken one byte
    have hempty : (d.create (path.withExtension ['t', 'm', 'p'])).2.read path = d.read path :=
      hkeeps [1, 2] _ (steps_drive [some 0, some 0, none] (persistAtomic path [1, 2]) d)
    have hone : ((d.create (path.withExtension ['t', 'm', 'p'])).2.write
        (d.create (path.withExtension ['t', 'm', 'p'])).1 [1]).read path = d.read path :=
      hkeeps [1, 2] _ (steps_drive [some 0, some 0, some 1, none] (persistAtomic path [1, 2]) d)
    rw [← hempty] at hone
    simp [Disk.read, Disk.found, Disk.write, hname, hfile] at hone
  · intro hapart bytes d' hrun
    have hne : path.withExtension ['t', 'm', 'p'] ≠ path :=
      fun heq => hapart (Or.inl (FilePath.withExtension_eq_self.mp heq))
    have haside : Aside (path.withExtension ['t', 'm', 'p']) path (d.read path) d :=
      ⟨rfl, fun i htmp hpath => hapart (Or.inr ⟨i, htmp, hpath⟩), hnamed path⟩
    exact ((persistAtomic_aside bytes hne haside).steps hrun).2 rfl

/-- The default state file, with a temporary file that an earlier call left behind. -/
theorem failed_persist_keeps_default_file :
    let tmp := defaultStateFile.withExtension ['t', 'm', 'p']
    let d : Disk FilePath Byte :=
      { files := [⟨[1, 2], true⟩, ⟨[3], false⟩]
        names := ((∅ : AssocMap FilePath Inode).insert defaultStateFile 0).insert tmp 1
        earlier := [(∅ : AssocMap FilePath Inode).insert defaultStateFile 0] }
    d.Named ∧ ¬SameFile defaultStateFile d ∧
      ∀ bytes d', Steps (persistAtomic defaultStateFile bytes) d (.ret false) d' →
        d'.read defaultStateFile = some [1, 2] := by
  intro tmp d
  have hnamed : d.Named := by
    intro p i hp
    simp only [d, AList.lookup_insert_eq] at hp
    split at hp
    · cases hp
      decide
    · split at hp
      · cases hp
        decide
      · cases hp
  have hapart : ¬SameFile defaultStateFile d := by
    rintro (hext | ⟨i, htmp, hpath⟩)
    · revert hext
      decide
    · have hone : d.names.lookup tmp = some 1 := by decide
      have hzero : d.names.lookup defaultStateFile = some 0 := by decide
      obtain rfl := Option.some.inj (hone.symm.trans htmp)
      cases hzero.symm.trans hpath
  exact ⟨hnamed, hapart, (failed_persist_keeps_file_iff defaultStateFile hnamed).mpr hapart⟩

end PlezyRelay
