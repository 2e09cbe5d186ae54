/-
  PlezyRelay/Foundation/Splitting.lean
  ====================================
  **Lists cut at a separator, and loops over the pieces.**

  What is known about `List.splitOn` beyond its equations: how many pieces there are,
  what they are made of, and that it commutes with maps.
-/
import Mathlib.Data.List.Basic

namespace List

theorem length_splitOn {α : Type} [BEq α] (a : α) (l : List α) :
    (l.splitOn a).length = l.count a + 1 := by
  induction l with
  | nil => rfl
  | cons x l ih =>
      rw [List.splitOn] at ih ⊢
      rw [List.splitOnP_cons_eq_if_modifyHead, List.count_cons]
      split
      · rename_i hsep
        simpa [hsep] using ih
      · rename_i hother
        simpa [hother] using ih

variable {α β : Type} [BEq α] {a x : α} {l piece : List α}

theorem mem_of_mem_splitOn (hpiece : piece ∈ l.splitOn a) (hx : x ∈ piece) : x ∈ l := by
  induction l generalizing piece with
  | nil =>
      rw [List.splitOn_nil, List.mem_singleton] at hpiece
      rw [hpiece] at hx
      exact hx
  | cons y l ih =>
      rw [List.splitOn] at hpiece ih
      rw [List.splitOnP_cons_eq_if_modifyHead] at hpiece
      split at hpiece
      · rcases List.mem_cons.mp hpiece with rfl | hpiece
        · cases hx
        · exact List.mem_cons_of_mem y (ih hpiece hx)
      · obtain ⟨first, rest, hsplit⟩ := List.exists_cons_of_ne_nil
          (List.splitOnP_ne_nil (fun z => z == a) l)
        rw [hsplit] at hpiece ih
        rcases List.mem_cons.mp hpiece with rfl | hpiece
        · rcases List.mem_cons.mp hx with rfl | hx
          · exact List.mem_cons_self
          · exact List.mem_cons_of_mem y (ih List.mem_cons_self hx)
        · exact List.mem_cons_of_mem y (ih (List.mem_cons_of_mem first hpiece) hx)

/-- Only the separators are lost. -/
theorem exists_mem_splitOn [LawfulBEq α] (hx : x ∈ l) (hne : x ≠ a) :
    ∃ piece ∈ l.splitOn a, x ∈ piece := by
  induction l with
  | nil => cases hx
  | cons y l ih =>
      rw [List.splitOn] at ih ⊢
      rw [List.splitOnP_cons_eq_if_modifyHead]
      obtain ⟨first, rest, hsplit⟩ := List.exists_cons_of_ne_nil
        (List.splitOnP_ne_nil (fun z => z == a) l)
      rw [hsplit] at ih ⊢
      split
      · rename_i hsep
        rcases List.mem_cons.mp hx with rfl | hx
        · exact absurd (eq_of_beq hsep) hne
        · obtain ⟨piece, hpiece, hmem⟩ := ih hx
          exact ⟨piece, List.mem_cons_of_mem _ hpiece, hmem⟩
      · rcases List.mem_cons.mp hx with rfl | hx
        · exact ⟨_, List.mem_cons_self, List.mem_cons_self⟩
        · obtain ⟨piece, hpiece, hmem⟩ := ih hx
          rcases List.mem_cons.mp hpiece with rfl | hpiece
          · exact ⟨_, List.mem_cons_self, List.mem_cons_of_mem y hmem⟩
          · exact ⟨piece, List.mem_cons_of_mem _ hpiece, hmem⟩

theorem splitOn_map [BEq β] {f : α → β} {b : β} (hf : ∀ x, (f x == b) = (x == a)) (l : List α) :
    (l.map f).splitOn b = (l.splitOn a).map (List.map f) := by
  induction l with
  | nil => rfl
  | cons y l ih =>
      rw [List.splitOn, List.splitOn] at ih ⊢
      rw [List.map_cons, List.splitOnP_cons_eq_if_modifyHead, List.splitOnP_cons_eq_if_modifyHead, ih,
        hf]
      split
      · rfl
      · cases List.splitOnP (fun z => z == a) l <;> rfl

omit [BEq α] in
/-- A loop over the pieces of each element is a loop over all pieces. -/
theorem foldlM_flatMap {σ ε : Type} (f : σ → β → Except ε σ) (g : α → List β) (xs : List α)
    (s : σ) :
    (xs.flatMap g).foldlM f s = xs.foldlM (fun s x => (g x).foldlM f s) s := by
  induction xs generalizing s with
  | nil => rfl
  | cons x xs ih =>
      rw [List.flatMap_cons, List.foldlM_append, List.foldlM_cons]
      congr 1
      funext s
      exact ih s

end List
