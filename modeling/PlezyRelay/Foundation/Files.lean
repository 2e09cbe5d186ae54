/-
  PlezyRelay/Foundation/Files.lean
  ================================
  **Files that outlive a power cut only as far as they were synced.**

  A name leads to a file and a file has bytes, and both live in memory first.  A file
  remembers whether its bytes are all on the medium.  The name table is journalled: a
  power cut brings back the present table or any table since the last directory sync,
  always a whole one, so that renaming a file is one step.  A file that was not synced
  may come back with any bytes at all.

  Programs are trees of system calls; every call may fail, and a write may take only
  the first few bytes.  `Steps` stops a program anywhere, which is what killing a
  process does.

  `Cell` is what a file replaced as a whole is meant to be: a current value, and the
  values a power cut may bring back instead.  `Holds` relates a disk to a cell.  Each
  call has one lemma about it, and `Replaces.history` lifts a program that replaces
  the cell atomically to every history of completed, failed and killed runs and power
  cuts.
-/
import PlezyRelay.Foundation.AssocMap
import PlezyRelay.Foundation.Threads

namespace Files

abbrev Inode := Nat

structure File (β : Type) where
  content : List β := []
  /-- All of the content is on the medium. -/
  synced : Bool := false
deriving DecidableEq

structure Disk (π β : Type) where
  files : List (File β) := []
  names : AssocMap π Inode := ∅
  /-- The name tables since the last directory sync, latest first. -/
  earlier : List (AssocMap π Inode) := []

variable {π δ β α γ : Type} [DecidableEq π]

namespace Disk

/-- The bytes a name table leads to. -/
def found (d : Disk π β) (table : AssocMap π Inode) (p : π) : Option (List β) :=
  (table.lookup p).bind fun i => d.files[i]?.map File.content

def read (d : Disk π β) (p : π) : Option (List β) := d.found d.names p

/-- Opening for writing: a file that exists is emptied in place. -/
def create (d : Disk π β) (p : π) : Inode × Disk π β :=
  match d.names.lookup p with
  | some i => (i, { d with files := d.files.set i {} })
  | none =>
      (d.files.length,
        { files := d.files ++ [{}]
          names := d.names.insert p d.files.length
          earlier := d.names :: d.earlier })

def write (d : Disk π β) (i : Inode) (bytes : List β) : Disk π β :=
  { d with files := d.files.modify i fun f => ⟨f.content ++ bytes, false⟩ }

def sync (d : Disk π β) (i : Inode) : Disk π β :=
  { d with files := d.files.modify i fun f => { f with synced := true } }

def rename (d : Disk π β) (a b : π) : Option (Disk π β) :=
  (d.names.lookup a).map fun i =>
    { d with names := (d.names.erase a).insert b i, earlier := d.names :: d.earlier }

def syncNames (d : Disk π β) : Disk π β := { d with earlier := [] }

/-- What is left after a power cut: the table numbered `n`, the files that were synced,
    and anything at all in the others. -/
def cut (d : Disk π β) (n : Nat) (garbage : Inode → List β) : Disk π β :=
  { files := d.files.mapIdx fun i f => if f.synced then f else ⟨garbage i, true⟩
    names := (d.names :: d.earlier)[n]?.getD d.names
    earlier := [] }

end Disk

/-- What a table leads to depends on the file under the name only. -/
theorem Disk.found_congr {d d' : Disk π β} {table table' : AssocMap π Inode} {p : π}
    (htable : table'.lookup p = table.lookup p)
    (hfiles : ∀ i, table.lookup p = some i → d'.files[i]? = d.files[i]?) :
    d'.found table' p = d.found table p := by
  rw [found, found, htable]
  cases hi : table.lookup p with
  | none => rfl
  | some i => rw [Option.bind_some, Option.bind_some, hfiles i hi]

theorem Disk.lookup_create (d : Disk π β) (p : π) :
    (d.create p).2.names.lookup p = some (d.create p).1 := by
  unfold Disk.create
  split
  · rename_i i hi
    exact hi
  · exact AList.lookup_insert _

/-! ### System calls -/

inductive Call (π δ β : Type) where
  | makeDirs (dir : δ)
  | create (p : π)
  | write (i : Inode) (bytes : List β)
  | sync (i : Inode)
  | rename (a b : π)
  | openDir (dir : δ)
  | syncDir (dir : δ)

@[reducible] def Call.Resp : Call π δ β → Type
  | .create _ => Option Inode
  | .write .. => Option Nat
  | .makeDirs _ | .sync _ | .rename .. | .openDir _ | .syncDir _ => Bool

/-- One call; it fails on `none`, and a write takes at most the given number of bytes. -/
def Call.exec : (a : Call π δ β) → Option Nat → Disk π β → a.Resp × Disk π β
  | .makeDirs _, e, d | .openDir _, e, d => (e.isSome, d)
  | .create p, e, d =>
      match e with
      | none => (none, d)
      | some _ => (some (d.create p).1, (d.create p).2)
  | .write i bytes, e, d =>
      match e with
      | none => (none, d)
      | some n => (some (min n bytes.length), d.write i (bytes.take n))
  | .sync i, e, d =>
      match e with
      | none => (false, d)
      | some _ => (true, d.sync i)
  | .rename a b, e, d =>
      match e, d.rename a b with
      | some _, some d' => (true, d')
      | _, _ => (false, d)
  | .syncDir _, e, d =>
      match e with
      | none => (false, d)
      | some _ => (true, d.syncNames)

abbrev Program (π δ β α : Type) := Proc (Call π δ β) Call.Resp α

/-- From `d` the program can get to the point where `p'` is left to do and the disk is
    `d'`. -/
inductive Steps : Program π δ β α → Disk π β → Program π δ β α → Disk π β → Prop where
  | refl (p : Program π δ β α) (d : Disk π β) : Steps p d p d
  | call {a : Call π δ β} {k : a.Resp → Program π δ β α} {d d' : Disk π β}
      {p' : Program π δ β α} (e : Option Nat)
      (h : Steps (k (a.exec e d).1) (a.exec e d).2 p' d') : Steps (.act a k) d p' d'

/-- The program run with the given outcomes of its calls. -/
def drive : List (Option Nat) → Program π δ β α → Disk π β → Program π δ β α × Disk π β
  | e :: es, .act a k, d => drive es (k (a.exec e d).1) (a.exec e d).2
  | [], p, d | _ :: _, p@(.ret _), d => (p, d)

theorem steps_drive (es : List (Option Nat)) (p : Program π δ β α) (d : Disk π β) :
    Steps p d (drive es p d).1 (drive es p d).2 := by
  induction es generalizing p d with
  | nil => exact .refl p d
  | cons e es ih =>
      cases p with
      | ret x => exact .refl _ d
      | act a k => exact .call e (ih _ _)

theorem Steps.bind {p : Program π δ β α} {f : α → Program π δ β γ} {q : Program π δ β γ} {x : α}
    {d d' d'' : Disk π β} (hp : Steps p d (.ret x) d') (hf : Steps (f x) d' q d'') :
    Steps (p.bind f) d q d'' := by
  generalize hr : (Proc.ret x : Program π δ β α) = r at hp
  induction hp with
  | refl p d =>
      subst hr
      exact hf
  | call e _ ih => exact .call e (ih hf hr)

/-- `I` holds before and after every call, and `Q` at the end. -/
def Upholds (I : Disk π β → Prop) (Q : α → Disk π β → Prop) :
    Program π δ β α → Disk π β → Prop
  | .ret x, d => I d ∧ Q x d
  | .act a k, d => I d ∧ ∀ e, Upholds I Q (k (a.exec e d).1) (a.exec e d).2

section Upholds

variable {I : Disk π β → Prop} {Q : α → Disk π β → Prop} {p p' : Program π δ β α}
  {d d' : Disk π β}

theorem Upholds.inv (h : Upholds I Q p d) : I d := by
  cases p with
  | ret x => exact h.1
  | act a k => exact h.1

theorem Upholds.steps (h : Upholds I Q p d) (hsteps : Steps p d p' d') : Upholds I Q p' d' := by
  induction hsteps with
  | refl p d => exact h
  | call e _ ih => exact ih (h.2 e)

theorem Upholds.trivial (p : Program π δ β α) (d : Disk π β) :
    Upholds (fun _ => True) (fun _ _ => True) p d := by
  induction p generalizing d with
  | ret x => exact ⟨True.intro, True.intro⟩
  | act a k ih => exact ⟨True.intro, fun e => ih _ _⟩

theorem Upholds.bind {Q' : γ → Disk π β → Prop} {f : α → Program π δ β γ} (h : Upholds I Q p d)
    (hf : ∀ x d, I d → Q x d → Upholds I Q' (f x) d) : Upholds I Q' (p.bind f) d := by
  induction p generalizing d with
  | ret x => exact hf x d h.1 h.2
  | act a k ih =>
      constructor
      · exact h.1
      · intro e
        exact ih _ (h.2 e)

end Upholds

/-! ### A file beside the one that is written -/

/-- Every name leads to a file. -/
def Disk.Named (d : Disk π β) : Prop := ∀ p i, d.names.lookup p = some i → i < d.files.length

/-- Under the name `p` there is `v`, in another file than the one under the name `tmp`. -/
structure Aside (tmp p : π) (v : Option (List β)) (d : Disk π β) : Prop where
  read : d.read p = v
  apart : ∀ i, d.names.lookup tmp = some i → d.names.lookup p ≠ some i
  named_lt : ∀ i, d.names.lookup p = some i → i < d.files.length

namespace Aside

variable {tmp p : π} {v : Option (List β)} {d : Disk π β}

/-- A change to files cannot be seen through `p` if the file there stays. -/
theorem files (h : Aside tmp p v d) {files : List (File β)}
    (hlen : files.length = d.files.length)
    (hsame : ∀ i, d.names.lookup p = some i → files[i]? = d.files[i]?) :
    Aside tmp p v { d with files := files } := by
  refine ⟨?_, h.apart, ?_⟩
  · rw [← h.read]
    exact Disk.found_congr rfl hsame
  · intro i hi
    rw [hlen]
    exact h.named_lt i hi

theorem modify (h : Aside tmp p v d) {i : Inode} (hi : d.names.lookup tmp = some i)
    (f : File β → File β) : Aside tmp p v { d with files := d.files.modify i f } := by
  apply h.files (List.length_modify ..)
  intro j hj
  apply List.getElem?_modify_ne
  rintro rfl
  exact h.apart i hi hj

theorem write (h : Aside tmp p v d) {i : Inode} (hi : d.names.lookup tmp = some i)
    (bytes : List β) : Aside tmp p v (d.write i bytes) := h.modify hi _

theorem sync (h : Aside tmp p v d) {i : Inode} (hi : d.names.lookup tmp = some i) :
    Aside tmp p v (d.sync i) := h.modify hi _

theorem create (h : Aside tmp p v d) (hne : tmp ≠ p) : Aside tmp p v (d.create tmp).2 := by
  unfold Disk.create
  split
  · rename_i i hi
    apply h.files List.length_set
    intro j hj
    apply List.getElem?_set_ne
    rintro rfl
    exact h.apart i hi hj
  · have hp : (d.names.insert tmp d.files.length).lookup p = d.names.lookup p :=
      AList.lookup_insert_ne hne.symm
    refine ⟨?_, ?_, ?_⟩
    · rw [← h.read]
      exact Disk.found_congr hp fun i hi => List.getElem?_append_left (h.named_lt i hi)
    · intro i hi hi'
      rw [AList.lookup_insert] at hi
      rw [hp, ← Option.some.inj hi] at hi'
      exact Nat.lt_irrefl _ (h.named_lt _ hi')
    · intro i hi
      rw [hp] at hi
      rw [List.length_append]
      exact Nat.lt_add_right _ (h.named_lt i hi)

end Aside

/-- A file that was just created is empty. -/
theorem Disk.Named.created {d : Disk π β} (h : d.Named) (p : π) :
    (d.create p).2.files[(d.create p).1]? = some {} := by
  unfold Disk.create
  split
  · rename_i i hi
    exact List.getElem?_set_self (h p i hi)
  · exact List.getElem?_concat_length

/-! ### A file that is replaced as a whole -/

/-- The value a reader finds, and the values a power cut may bring back instead. -/
structure Cell (β : Type) where
  current : Option (List β) := none
  earlier : List (Option (List β)) := []

namespace Cell

def values (c : Cell β) : List (Option (List β)) := c.current :: c.earlier

def replace (c : Cell β) (bytes : List β) : Cell β := ⟨some bytes, c.values⟩

def settle (c : Cell β) : Cell β := ⟨c.current, []⟩

/-- The cell has been replaced, and perhaps settled too. -/
def Replaced (c : Cell β) (bytes : List β) (c' : Cell β) : Prop :=
  c' = c.replace bytes ∨ c' = (c.replace bytes).settle

theorem Replaced.current {c c' : Cell β} {bytes : List β} (h : c.Replaced bytes c') :
    c'.current = some bytes := by
  rcases h with rfl | rfl <;> rfl

theorem Replaced.values {c c' : Cell β} {bytes : List β} (h : c.Replaced bytes c') :
    ∀ v ∈ c'.values, v = some bytes ∨ v ∈ c.values := by
  rcases h with rfl | rfl
  · intro v hv
    exact List.mem_cons.mp hv
  · intro v hv
    exact Or.inl (List.mem_singleton.mp hv)

end Cell

/-- The disk keeps the cell under the name `p`, while new values are prepared under the
    name `tmp`. -/
structure Holds (tmp p : π) (d : Disk π β) (c : Cell β) : Prop where
  current : d.read p = c.current
  earlier : ∀ table ∈ d.earlier, d.found table p ∈ c.values
  /-- Whatever a table may call `p` is on the medium. -/
  synced : ∀ table ∈ d.names :: d.earlier, ∀ i, table.lookup p = some i →
    ∃ f, d.files[i]? = some f ∧ f.synced = true
  /-- The file being prepared is none of them. -/
  apart : ∀ i, d.names.lookup tmp = some i →
    ∀ table ∈ d.names :: d.earlier, table.lookup p ≠ some i
  apart_earlier : ∀ table ∈ d.earlier, ∀ i, table.lookup tmp = some i → table.lookup p ≠ some i
  named_lt : ∀ table ∈ d.names :: d.earlier, ∀ q i, table.lookup q = some i → i < d.files.length

namespace Holds

variable {tmp p : π} {d : Disk π β} {c : Cell β}

/-- What any table calls `p` is one of the cell's values. -/
theorem found_mem (h : Holds tmp p d c) {table : AssocMap π Inode}
    (ht : table ∈ d.names :: d.earlier) : d.found table p ∈ c.values := by
  rcases List.mem_cons.mp ht with rfl | ht
  · rw [show d.found d.names p = c.current from h.current]
    exact List.mem_cons_self
  · exact h.earlier table ht

/-- What happens to files that no table calls `p` cannot be seen through `p`. -/
theorem files (h : Holds tmp p d c) {files : List (File β)} (hlen : files.length = d.files.length)
    (hsame : ∀ table ∈ d.names :: d.earlier, ∀ i, table.lookup p = some i →
      files[i]? = d.files[i]?) :
    Holds tmp p { d with files := files } c := by
  have hfound : ∀ table ∈ d.names :: d.earlier,
      ({ d with files := files } : Disk π β).found table p = d.found table p :=
    fun table ht => Disk.found_congr rfl (hsame table ht)
  constructor
  · rw [← h.current]
    exact hfound _ List.mem_cons_self
  · intro table ht
    rw [hfound table (List.mem_cons_of_mem _ ht)]
    exact h.earlier table ht
  · intro table ht i hi
    rw [hsame table ht i hi]
    exact h.synced table ht i hi
  · exact h.apart
  · exact h.apart_earlier
  · intro table ht q i hi
    rw [hlen]
    exact h.named_lt table ht q i hi

/-- The same for a change to the file that is being prepared. -/
theorem files_tmp (h : Holds tmp p d c) {i : Inode} (hi : d.names.lookup tmp = some i)
    {files : List (File β)} (hlen : files.length = d.files.length)
    (hsame : ∀ j, j ≠ i → files[j]? = d.files[j]?) : Holds tmp p { d with files := files } c := by
  apply h.files hlen
  intro table ht j hj
  apply hsame
  rintro rfl
  exact h.apart j hi table ht hj

theorem modify (h : Holds tmp p d c) {i : Inode} (hi : d.names.lookup tmp = some i)
    (f : File β → File β) : Holds tmp p { d with files := d.files.modify i f } c := by
  apply h.files_tmp hi
  · exact List.length_modify ..
  · intro j hj
    exact List.getElem?_modify_ne _ _ hj.symm

theorem write (h : Holds tmp p d c) {i : Inode} (hi : d.names.lookup tmp = some i)
    (bytes : List β) : Holds tmp p (d.write i bytes) c := h.modify hi _

theorem sync (h : Holds tmp p d c) {i : Inode} (hi : d.names.lookup tmp = some i) :
    Holds tmp p (d.sync i) c := h.modify hi _

theorem create (h : Holds tmp p d c) (hne : tmp ≠ p) : Holds tmp p (d.create tmp).2 c := by
  unfold Disk.create
  split
  · rename_i i hi
    apply h.files_tmp hi
    · exact List.length_set
    · intro j hj
      exact List.getElem?_set_ne hj.symm
  · have hp : (d.names.insert tmp d.files.length).lookup p = d.names.lookup p :=
      AList.lookup_insert_ne hne.symm
    -- what the new table calls `p` is what the one before called so
    have hcalled : ∀ table ∈ d.names.insert tmp d.files.length :: d.names :: d.earlier,
        ∃ table' ∈ d.names :: d.earlier, table.lookup p = table'.lookup p := by
      intro table ht
      rcases List.mem_cons.mp ht with rfl | ht
      · exact ⟨d.names, List.mem_cons_self, hp⟩
      · exact ⟨table, ht, rfl⟩
    have hfile : ∀ table ∈ d.names :: d.earlier, ∀ i, table.lookup p = some i →
        (d.files ++ [({} : File β)])[i]? = d.files[i]? :=
      fun table ht i hi => List.getElem?_append_left (h.named_lt table ht p i hi)
    constructor
    · rw [← h.current]
      exact Disk.found_congr hp (hfile d.names List.mem_cons_self)
    · intro table ht
      rw [Disk.found_congr rfl (hfile table ht)]
      exact h.found_mem ht
    · intro table ht i hi
      obtain ⟨table', ht', hsame⟩ := hcalled table ht
      rw [hsame] at hi
      rw [hfile table' ht' i hi]
      exact h.synced table' ht' i hi
    · intro i hi table ht htable
      obtain ⟨table', ht', hsame⟩ := hcalled table ht
      rw [AList.lookup_insert] at hi
      rw [hsame, ← Option.some.inj hi] at htable
      exact Nat.lt_irrefl _ (h.named_lt table' ht' p _ htable)
    · intro table ht i hi
      rcases List.mem_cons.mp ht with rfl | ht
      · exact h.apart i hi d.names List.mem_cons_self
      · exact h.apart_earlier table ht i hi
    · intro table ht q i hi
      rw [List.length_append, List.length_singleton]
      rcases List.mem_cons.mp ht with rfl | ht
      · rw [AList.lookup_insert_eq] at hi
        split at hi
        · cases hi
          exact Nat.lt_succ_self _
        · exact Nat.lt_succ_of_lt (h.named_lt d.names List.mem_cons_self q i hi)
      · exact Nat.lt_succ_of_lt (h.named_lt table ht q i hi)

/-- A file that was just created has its name and is empty. -/
theorem created (h : Holds tmp p d c) :
    (d.create tmp).2.names.lookup tmp = some (d.create tmp).1 ∧
      (d.create tmp).2.files[(d.create tmp).1]? = some {} := by
  exact ⟨d.lookup_create tmp, Disk.Named.created (h.named_lt d.names List.mem_cons_self) tmp⟩

/-- Giving the prepared file its name replaces the cell, if the file was synced. -/
theorem rename (h : Holds tmp p d c) (hne : tmp ≠ p) {i : Inode} {bytes : List β}
    (hi : d.names.lookup tmp = some i) (hfile : d.files[i]? = some ⟨bytes, true⟩)
    {d' : Disk π β} (hd' : d.rename tmp p = some d') : Holds tmp p d' (c.replace bytes) := by
  simp only [Disk.rename, hi, Option.map_some, Option.some.injEq] at hd'
  subst hd'
  have hp : ((d.names.erase tmp).insert p i).lookup p = some i := AList.lookup_insert _
  have htmp : ((d.names.erase tmp).insert p i).lookup tmp = none := by
    rw [AList.lookup_insert_ne hne, AList.lookup_erase]
  constructor
  · simp only [Disk.read, Disk.found, hp, Option.bind_some, hfile, Option.map_some]
    rfl
  · intro table ht
    exact List.mem_cons_of_mem _ (h.found_mem ht)
  · intro table ht j hj
    rcases List.mem_cons.mp ht with rfl | ht
    · rw [hp] at hj
      obtain rfl := Option.some.inj hj
      exact ⟨_, hfile, rfl⟩
    · exact h.synced table ht j hj
  · intro j hj
    rw [htmp] at hj
    cases hj
  · intro table ht j hj
    rcases List.mem_cons.mp ht with rfl | ht
    · exact h.apart j hj d.names List.mem_cons_self
    · exact h.apart_earlier table ht j hj
  · intro table ht q j hj
    rcases List.mem_cons.mp ht with rfl | ht
    · rw [AList.lookup_insert_eq, AList.lookup_erase_eq] at hj
      split at hj
      · obtain rfl := Option.some.inj hj
        exact h.named_lt d.names List.mem_cons_self tmp i hi
      · split at hj
        · cases hj
        · exact h.named_lt d.names List.mem_cons_self q j hj
    · exact h.named_lt table ht q j hj

theorem syncNames (h : Holds tmp p d c) : Holds tmp p d.syncNames c.settle := by
  have hmem : ∀ {table : AssocMap π Inode}, table ∈ [d.names] → table ∈ d.names :: d.earlier := by
    intro table ht
    rw [List.mem_singleton.mp ht]
    exact List.mem_cons_self
  constructor
  · exact h.current
  · intro table ht
    cases ht
  · intro table ht
    exact h.synced table (hmem ht)
  · intro i hi table ht
    exact h.apart i hi table (hmem ht)
  · intro table ht
    cases ht
  · intro table ht
    exact h.named_lt table (hmem ht)

/-- With no older tables about, only the current value is left. -/
theorem settled (h : Holds tmp p d c) (hnames : d.earlier = []) : Holds tmp p d c.settle := by
  have hsame : d.syncNames = d := by
    cases d
    cases hnames
    rfl
  exact hsame ▸ h.syncNames

/-- A power cut brings back one of the cell's values, whole. -/
theorem cut (h : Holds tmp p d c) (n : Nat) (garbage : Inode → List β) :
    ∃ v ∈ c.values, Holds tmp p (d.cut n garbage) ⟨v, []⟩ := by
  obtain ⟨table, ht, hnames⟩ : ∃ table ∈ d.names :: d.earlier,
      (d.cut n garbage).names = table := by
    simp only [Disk.cut]
    cases hn : (d.names :: d.earlier)[n]? with
    | none => exact ⟨d.names, List.mem_cons_self, rfl⟩
    | some table => exact ⟨table, List.mem_of_getElem? hn, rfl⟩
  -- A file that was synced comes back as it was.
  have hkept : ∀ i, table.lookup p = some i →
      (d.cut n garbage).files[i]? = d.files[i]? ∧
        ∃ f, d.files[i]? = some f ∧ f.synced = true := by
    intro i hi
    obtain ⟨f, hf, hsynced⟩ := h.synced table ht i hi
    exact ⟨by simp [Disk.cut, hf, hsynced], f, hf, hsynced⟩
  have hfound : (d.cut n garbage).read p = d.found table p :=
    Disk.found_congr (congrArg (AList.lookup p) hnames) fun i hi => (hkept i hi).1
  refine ⟨d.found table p, h.found_mem ht, hfound, ?_, ?_, ?_, ?_, ?_⟩
  · intro table' ht'
    cases ht'
  · intro table' ht' i hi
    obtain rfl : table' = table := (List.mem_singleton.mp ht').trans hnames
    rw [(hkept i hi).1]
    exact (hkept i hi).2
  · intro i hi table' ht'
    obtain rfl : table' = table := (List.mem_singleton.mp ht').trans hnames
    rw [hnames] at hi
    rcases List.mem_cons.mp ht with rfl | ht
    · exact h.apart i hi d.names List.mem_cons_self
    · exact h.apart_earlier table' ht i hi
  · intro table' ht'
    cases ht'
  · intro table' ht' q i hi
    obtain rfl : table' = table := (List.mem_singleton.mp ht').trans hnames
    rw [show (d.cut n garbage).files.length = d.files.length from List.length_mapIdx]
    exact h.named_lt table' ht q i hi

/-- Once the names are synced, a power cut changes nothing that a reader of `p` sees. -/
theorem read_cut (h : Holds tmp p d c) (hnames : d.earlier = []) (n : Nat)
    (garbage : Inode → List β) : (d.cut n garbage).read p = d.read p := by
  obtain ⟨v, hv, hcut⟩ := (h.settled hnames).cut n garbage
  rw [hcut.current, h.current]
  exact List.mem_singleton.mp hv

end Holds

/-- A disk as it is found at startup: what there is is on the medium, and no file has two
    names. -/
structure Disk.Booted (d : Disk π β) : Prop where
  earlier : d.earlier = []
  synced : ∀ f ∈ d.files, f.synced = true
  unaliased : ∀ p q i, d.names.lookup p = some i → d.names.lookup q = some i → p = q
  named_lt : ∀ p i, d.names.lookup p = some i → i < d.files.length

theorem Disk.Booted.empty : ({} : Disk π β).Booted where
  earlier := rfl
  synced f hf := by cases hf
  unaliased p q i hp := by cases hp
  named_lt p i hp := by cases hp

theorem Disk.Booted.holds {d : Disk π β} (h : d.Booted) {tmp p : π} (hne : tmp ≠ p) :
    Holds tmp p d ⟨d.read p, []⟩ := by
  have hnames : ∀ table ∈ d.names :: d.earlier, table = d.names := by
    intro table ht
    rw [h.earlier] at ht
    exact List.mem_singleton.mp ht
  constructor
  · rfl
  · intro table ht
    rw [h.earlier] at ht
    cases ht
  · intro table ht i hi
    rw [hnames table ht] at hi
    have hf := List.getElem?_eq_getElem (h.named_lt p i hi)
    exact ⟨_, hf, h.synced _ (List.mem_of_getElem? hf)⟩
  · intro i hi table ht htable
    rw [hnames table ht] at htable
    exact hne (h.unaliased tmp p i hi htable)
  · intro table ht
    rw [h.earlier] at ht
    cases ht
  · intro table ht q i hi
    rw [hnames table ht] at hi
    exact h.named_lt q i hi

/-! ### Histories -/

/-- What has become of one attempt to replace the cell, or a power cut. -/
inductive Entry (β : Type) where
  | returned (bytes : List β) (ok : Bool)
  /-- The process died on the way. -/
  | killed (bytes : List β)
  | powerCut

/-- The value an entry has written, or may have written. -/
def Entry.bytes : Entry β → Option (List β)
  | .returned bytes true | .killed bytes => some bytes
  | .returned _ false | .powerCut => none

/-- Everything that can happen to a disk on which one process after the other runs
    `prog`, latest first. -/
inductive History (prog : List β → Program π δ β Bool) (d₀ : Disk π β) :
    List (Entry β) → Disk π β → Prop where
  | start : History prog d₀ [] d₀
  | returned {log : List (Entry β)} {d d' : Disk π β} {bytes : List β} {ok : Bool}
      (h : History prog d₀ log d) (hrun : Steps (prog bytes) d (.ret ok) d') :
      History prog d₀ (.returned bytes ok :: log) d'
  | killed {log : List (Entry β)} {d d' : Disk π β} {bytes : List β} {p' : Program π δ β Bool}
      (h : History prog d₀ log d) (hrun : Steps (prog bytes) d p' d') :
      History prog d₀ (.killed bytes :: log) d'
  | powerCut {log : List (Entry β)} {d : Disk π β} (n : Nat) (garbage : Inode → List β)
      (h : History prog d₀ log d) : History prog d₀ (.powerCut :: log) (d.cut n garbage)

/-- The same history of a cell. -/
inductive Cell.History (c₀ : Cell β) : List (Entry β) → Cell β → Prop where
  | start : History c₀ [] c₀
  | replaced {log : List (Entry β)} {c c' : Cell β} {bytes : List β}
      (h : History c₀ log c) (hc' : c.Replaced bytes c') :
      History c₀ (.returned bytes true :: log) c'
  | failed {log : List (Entry β)} {c : Cell β} {bytes : List β}
      (h : History c₀ log c) : History c₀ (.returned bytes false :: log) c
  | killed {log : List (Entry β)} {c c' : Cell β} {bytes : List β}
      (h : History c₀ log c) (hc' : c' = c ∨ c.Replaced bytes c') :
      History c₀ (.killed bytes :: log) c'
  | powerCut {log : List (Entry β)} {c : Cell β} {v : Option (List β)}
      (h : History c₀ log c) (hv : v ∈ c.values) : History c₀ (.powerCut :: log) ⟨v, []⟩

/-- The program replaces the cell in one step, or not at all, wherever it is stopped; it
    says which at its end. -/
def Replaces (tmp p : π) (prog : List β → Program π δ β Bool) : Prop :=
  ∀ bytes d c, Holds tmp p d c →
    Upholds (fun d' => ∃ c', (c' = c ∨ c.Replaced bytes c') ∧ Holds tmp p d' c')
      (fun ok d' => ∃ c', (if ok then c.Replaced bytes c' else c' = c) ∧ Holds tmp p d' c')
      (prog bytes) d

/-- A disk under such a program goes through a history of the cell. -/
theorem Replaces.history {tmp p : π} {prog : List β → Program π δ β Bool}
    (hprog : Replaces tmp p prog) {d₀ d : Disk π β} {c₀ : Cell β} {log : List (Entry β)}
    (h : History prog d₀ log d) (h₀ : Holds tmp p d₀ c₀) :
    ∃ c, c₀.History log c ∧ Holds tmp p d c := by
  induction h with
  | start => exact ⟨c₀, .start, h₀⟩
  | @returned log d d' bytes ok _ hrun ih =>
      obtain ⟨c, hc, hd⟩ := ih
      obtain ⟨_, c', hc', hd'⟩ := (hprog bytes d c hd).steps hrun
      cases ok with
      | true => exact ⟨c', .replaced hc hc', hd'⟩
      | false => exact ⟨c', (show c' = c from hc') ▸ .failed hc, hd'⟩
  | @killed log d d' bytes p' _ hrun ih =>
      obtain ⟨c, hc, hd⟩ := ih
      obtain ⟨c', hc', hd'⟩ := ((hprog bytes d c hd).steps hrun).inv
      exact ⟨c', .killed hc hc', hd'⟩
  | @powerCut log d n garbage _ ih =>
      obtain ⟨c, hc, hd⟩ := ih
      obtain ⟨v, hv, hd'⟩ := hd.cut n garbage
      exact ⟨⟨v, []⟩, .powerCut hc hv, hd'⟩

/-- A cell only ever holds what was there at first or what was written, whole. -/
theorem Cell.History.written {c₀ c : Cell β} {log : List (Entry β)} (h : c₀.History log c) :
    ∀ v ∈ c.values, v ∈ c₀.values ∨ ∃ entry ∈ log, entry.bytes = v ∧ v ≠ none := by
  induction h with
  | start =>
      intro v hv
      exact Or.inl hv
  | @replaced log c c' bytes _ hc' ih =>
      intro v hv
      rcases hc'.values v hv with rfl | hv
      · exact Or.inr ⟨_, List.mem_cons_self, rfl, by simp⟩
      · apply (ih v hv).imp_right
        rintro ⟨entry, hentry, hbytes⟩
        exact ⟨entry, List.mem_cons_of_mem _ hentry, hbytes⟩
  | failed _ ih =>
      intro v hv
      apply (ih v hv).imp_right
      rintro ⟨entry, hentry, hbytes⟩
      exact ⟨entry, List.mem_cons_of_mem _ hentry, hbytes⟩
  | @killed log c c' bytes _ hc' ih =>
      intro v hv
      have hcases : v = some bytes ∨ v ∈ c.values := by
        rcases hc' with rfl | hc'
        · exact Or.inr hv
        · exact hc'.values v hv
      rcases hcases with rfl | hv
      · exact Or.inr ⟨_, List.mem_cons_self, rfl, by simp⟩
      · apply (ih v hv).imp_right
        rintro ⟨entry, hentry, hbytes⟩
        exact ⟨entry, List.mem_cons_of_mem _ hentry, hbytes⟩
  | @powerCut log c v _ hv ih =>
      intro v' hv'
      obtain rfl : v' = v := List.mem_singleton.mp hv'
      apply (ih v' hv).imp_right
      rintro ⟨entry, hentry, hbytes⟩
      exact ⟨entry, List.mem_cons_of_mem _ hentry, hbytes⟩

/-- Attempts that returned without success leave the last replacement in place. -/
theorem Cell.History.last {c₀ c : Cell β} {failed log : List (Entry β)} {bytes : List β}
    (h : c₀.History (failed ++ .returned bytes true :: log) c)
    (hfailed : ∀ entry ∈ failed, ∃ b, entry = .returned b false) : c.current = some bytes := by
  induction failed generalizing c with
  | nil =>
      cases h with
      | replaced _ hc' => exact hc'.current
  | cons entry failed ih =>
      obtain ⟨b, rfl⟩ := hfailed entry List.mem_cons_self
      cases h with
      | failed h => exact ih h fun e he => hfailed e (List.mem_cons_of_mem _ he)

end Files
