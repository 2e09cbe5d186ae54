/-
  PlezyRelay/Foundation/Cooldown.lean
  ===================================
  **A gate that stays shut for a key while a grant is recent.**

  Attempts come one after the other, each with a time and a key.  An attempt is to be
  granted exactly if no earlier grant of its key is still recent, where `recent t now`
  is any relation that a later `now` can only falsify.  `replay` answers attempts from
  the whole history, and the history it makes is `Spaced`.

  A program keeps less than the history: one time per key, and not for every key.
  `Remembers` says how much is enough.  From its clock on, the memory has a recent
  time for a key exactly if the history has a recent grant of it.  A memory may
  therefore forget whatever is not recent by now, and nothing that depends on `recent`
  alone can tell.
-/
import Mathlib.Order.Defs.PartialOrder

universe u v

namespace Cooldown

structure Attempt (κ : Type u) (T : Type v) where
  time : T
  key : κ
  granted : Bool
deriving DecidableEq

variable {κ : Type u} {T : Type v} (recent : T → T → Prop)

/-- There is a grant of the key that is recent now. -/
def Shut (past : List (Attempt κ T)) (key : κ) (now : T) : Prop :=
  ∃ a ∈ past, a.key = key ∧ a.granted = true ∧ recent a.time now

instance [DecidableEq κ] [DecidableRel recent] (past : List (Attempt κ T)) (key : κ) (now : T) :
    Decidable (Shut recent past key now) :=
  inferInstanceAs (Decidable (∃ a ∈ past, a.key = key ∧ a.granted = true ∧ recent a.time now))

/-- Answer the attempts, each from the history before it. -/
def replay [DecidableEq κ] [DecidableRel recent] (past : List (Attempt κ T)) :
    List (T × κ) → List (Attempt κ T)
  | [] => []
  | (now, key) :: attempts =>
      let a : Attempt κ T := ⟨now, key, !decide (Shut recent past key now)⟩
      a :: replay (past ++ [a]) attempts

/-- An attempt is granted if and only if no grant of its key before it is recent. -/
def Spaced (history : List (Attempt κ T)) : Prop :=
  ∀ before a after, history = before ++ a :: after →
    (a.granted = true ↔ ¬ Shut recent before a.key a.time)

variable {recent} {past history : List (Attempt κ T)} {a : Attempt κ T} {key : κ} {now : T}

@[simp] theorem not_shut_nil : ¬ Shut recent ([] : List (Attempt κ T)) key now := by
  rintro ⟨a, ha, _⟩
  cases ha

theorem shut_concat :
    Shut recent (past ++ [a]) key now ↔
      Shut recent past key now ∨ (a.key = key ∧ a.granted = true ∧ recent a.time now) := by
  constructor
  · rintro ⟨b, hb, hgrant⟩
    rcases List.mem_append.mp hb with hb | hb
    · exact Or.inl ⟨b, hb, hgrant⟩
    · rw [List.mem_singleton.mp hb] at hgrant
      exact Or.inr hgrant
  · rintro (⟨b, hb, hgrant⟩ | hgrant)
    · exact ⟨b, List.mem_append_left _ hb, hgrant⟩
    · exact ⟨a, List.mem_append_right _ (List.mem_singleton_self a), hgrant⟩

/-! ### Answers from the whole history -/

theorem spaced_nil : Spaced recent ([] : List (Attempt κ T)) := by
  intro before a after h
  simp at h

theorem Spaced.concat (h : Spaced recent history)
    (ha : a.granted = true ↔ ¬ Shut recent history a.key a.time) :
    Spaced recent (history ++ [a]) := by
  intro before b after hsplit
  -- the attempt looked at is the new one, or it was there already
  rcases List.eq_nil_or_concat after with rfl | ⟨after, c, rfl⟩
  · obtain ⟨rfl, hab⟩ := List.append_inj' hsplit rfl
    cases hab
    exact ha
  · rw [List.concat_eq_append, ← List.cons_append, ← List.append_assoc] at hsplit
    obtain ⟨hhistory, _⟩ := List.append_inj' hsplit rfl
    exact h before b after hhistory

theorem spaced_replay [DecidableEq κ] [DecidableRel recent] (h : Spaced recent past)
    (attempts : List (T × κ)) : Spaced recent (past ++ replay recent past attempts) := by
  induction attempts generalizing past with
  | nil => simpa [replay] using h
  | cons attempt attempts ih =>
      obtain ⟨now, key⟩ := attempt
      rw [replay, List.append_cons]
      apply ih
      apply h.concat
      simp

/-! ### Answers from a memory -/

section Memory

variable [Preorder T]

/-- What is recent at some time was so before. -/
def Fading (recent : T → T → Prop) : Prop :=
  ∀ t now later, now ≤ later → recent t later → recent t now

/-- From `clock` on, the memory has a recent time for the keys with a recent grant. -/
def Remembers (recent : T → T → Prop) (clock : T) (last : κ → Option T)
    (past : List (Attempt κ T)) : Prop :=
  ∀ key now, clock ≤ now → ((∃ t, last key = some t ∧ recent t now) ↔ Shut recent past key now)

variable {last last' : κ → Option T} {clock clock' : T}

theorem Shut.fade (hfading : Fading recent) {later : T} (hle : now ≤ later)
    (h : Shut recent past key later) : Shut recent past key now := by
  obtain ⟨a, ha, hkey, hgranted, hrecent⟩ := h
  exact ⟨a, ha, hkey, hgranted, hfading _ _ _ hle hrecent⟩

theorem remembers_nil (clock : T) :
    Remembers recent clock (fun _ : κ => none) ([] : List (Attempt κ T)) := by
  intro key now _
  simp

namespace Remembers

theorem later (h : Remembers recent clock last past) (hle : clock ≤ clock') :
    Remembers recent clock' last past := by
  intro key now hnow
  exact h key now (le_trans hle hnow)

theorem refused (h : Remembers recent clock last past) :
    Remembers recent clock last (past ++ [⟨now, key, false⟩]) := by
  intro other later hlater
  rw [h other later hlater, shut_concat]
  simp

/-- The time of the new grant takes the place of one that is not recent any more. -/
theorem granted (hfading : Fading recent) (h : Remembers recent now last past)
    (hopen : ¬ Shut recent past key now) (hkey : last' key = some now)
    (hother : ∀ other, other ≠ key → last' other = last other) :
    Remembers recent now last' (past ++ [⟨now, key, true⟩]) := by
  intro other later hlater
  rw [shut_concat]
  by_cases hsame : other = key
  · subst hsame
    have hopen' : ¬ Shut recent past other later := fun hshut => hopen (hshut.fade hfading hlater)
    simp [hkey, hopen']
  · rw [hother other hsame, h other later hlater]
    simp [Ne.symm hsame]

/-- What is not recent at the clock is never asked for again. -/
theorem forget (hfading : Fading recent) (h : Remembers recent now last past)
    (hsub : ∀ key t, last' key = some t → last key = some t)
    (hkeep : ∀ key t, last key = some t → recent t now → last' key = some t) :
    Remembers recent now last' past := by
  intro key later hlater
  rw [← h key later hlater]
  constructor
  · rintro ⟨t, hlast, hrecent⟩
    exact ⟨t, hsub key t hlast, hrecent⟩
  · rintro ⟨t, hlast, hrecent⟩
    exact ⟨t, hkeep key t hlast (hfading t now later hlater hrecent), hrecent⟩

end Remembers

end Memory

end Cooldown
