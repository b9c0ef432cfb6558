import Mathlib

/-!
# Tables of slots

A table with a number of slots, each free or with a key in it, that is to hold each key of a set in
one slot and nothing else.
-/

namespace Slots

variable {ι κ : Type*} [DecidableEq ι] [DecidableEq κ]

/-- The table holds the keys of the set, each once. -/
structure Records (t : ι → Option κ) (S : Finset κ) : Prop where
  mem : ∀ i k, t i = some k → k ∈ S
  slot : ∀ k ∈ S, ∃ i, t i = some k
  inj : ∀ i j k, t i = some k → t j = some k → i = j

variable {t t' : ι → Option κ} {S S' : Finset κ} {i : ι} {k : κ}

omit [DecidableEq ι] [DecidableEq κ] in
theorem records_empty : Records (fun _ : ι => (none : Option κ)) ∅ :=
  ⟨fun _ _ h => (by cases h), by simp, fun _ _ _ h => (by cases h)⟩

/-- A new key goes into a free slot. -/
theorem Records.insert (h : Records t S) (hi : t i = none) (hk : k ∉ S) :
    Records (Function.update t i (some k)) (insert k S) := by
  have hcases : ∀ j k', Function.update t i (some k) j = some k'
      ↔ j = i ∧ k' = k ∨ j ≠ i ∧ t j = some k' := by
    intro j k'
    rcases eq_or_ne j i with rfl | hji
    · simp [eq_comm]
    · simp [hji]
  refine ⟨fun j k' hj => ?_, fun k' hk' => ?_, fun j l k' hj hl => ?_⟩
  · rcases (hcases j k').1 hj with ⟨-, rfl⟩ | ⟨-, hj⟩
    · exact Finset.mem_insert_self _ _
    · exact Finset.mem_insert_of_mem (h.mem j k' hj)
  · rcases Finset.mem_insert.1 hk' with rfl | hk'
    · exact ⟨i, Function.update_self _ _ _⟩
    · obtain ⟨j, hj⟩ := h.slot k' hk'
      refine ⟨j, (hcases j k').2 (.inr ⟨?_, hj⟩)⟩
      rintro rfl
      rw [hi] at hj
      cases hj
  · rcases (hcases j k').1 hj with ⟨rfl, rfl⟩ | ⟨-, hj'⟩
    · rcases (hcases l k').1 hl with ⟨rfl, -⟩ | ⟨-, hl'⟩
      · rfl
      · exact absurd (h.mem l _ hl') hk
    · rcases (hcases l k').1 hl with ⟨-, rfl⟩ | ⟨-, hl'⟩
      · exact absurd (h.mem j _ hj') hk
      · exact h.inj j l k' hj' hl'

/-- A key is taken out of its slot. -/
theorem Records.erase (h : Records t S) (hi : t i = some k) :
    Records (Function.update t i none) (S.erase k) := by
  have hcases : ∀ j k', Function.update t i none j = some k' ↔ j ≠ i ∧ t j = some k' := by
    intro j k'
    rcases eq_or_ne j i with rfl | hji
    · simp
    · simp [hji]
  refine ⟨fun j k' hj => ?_, fun k' hk' => ?_, fun j l k' hj hl => ?_⟩
  · obtain ⟨hji, hj⟩ := (hcases j k').1 hj
    refine Finset.mem_erase.2 ⟨?_, h.mem j k' hj⟩
    rintro rfl
    exact hji (h.inj j i _ hj hi)
  · obtain ⟨hne, hk'⟩ := Finset.mem_erase.1 hk'
    obtain ⟨j, hj⟩ := h.slot k' hk'
    refine ⟨j, (hcases j k').2 ⟨?_, hj⟩⟩
    rintro rfl
    exact hne (Option.some.inj (hj.symm.trans hi))
  · exact h.inj j l k' ((hcases j k').1 hj).2 ((hcases l k').1 hl).2

omit [DecidableEq ι] [DecidableEq κ] in
/-- Where there are more slots than keys one of them is free. -/
theorem Records.exists_none (h : Records t S) (T : Finset ι) (hT : S.card < T.card) :
    ∃ i ∈ T, t i = none := by
  by_contra hall
  push Not at hall
  have hmaps : ∀ i ∈ T, t i ∈ S.map Function.Embedding.some := by
    intro i hi
    obtain ⟨k, hk⟩ := Option.ne_none_iff_exists'.1 (hall i hi)
    rw [hk, Finset.mem_map]
    exact ⟨k, h.mem i k hk, rfl⟩
  have hinj : ∀ i ∈ T, ∀ j ∈ T, t i = t j → i = j := by
    intro i hi j _ hij
    obtain ⟨k, hk⟩ := Option.ne_none_iff_exists'.1 (hall i hi)
    exact h.inj i j k hk (hij ▸ hk)
  have hcard := Finset.card_le_card_of_injOn t hmaps hinj
  rw [Finset.card_map] at hcard
  omega

omit [DecidableEq ι] [DecidableEq κ] in
/-- A table whose free slot got a key that was there already, or that is not of the set. -/
theorem Records.stale (h : Records t S) (hS : S' ⊆ S) (hi : t i = none) (hi' : t' i = some k)
    (hkeep : ∀ j, t j = some k → k ∈ S' → t' j = some k) : ¬ Records t' S' := by
  intro h'
  have hk := h'.mem i k hi'
  obtain ⟨j, hj⟩ := h.slot k (hS hk)
  obtain rfl := h'.inj j i k (hkeep j hj hk) hi'
  rw [hi] at hj
  cases hj

section Taken

variable [Fintype ι]

/-- The slots that are not free. -/
def taken (t : ι → Option κ) : Finset ι := Finset.univ.filter fun i => t i ≠ none

omit [DecidableEq κ] in
theorem taken_fill (k : κ) (hi : t i = none) :
    (taken (Function.update t i (some k))).card = (taken t).card + 1 := by
  have hset : taken (Function.update t i (some k)) = insert i (taken t) := by
    ext j
    rcases eq_or_ne j i with rfl | hji <;> simp [taken, *]
  rw [hset, Finset.card_insert_of_notMem (by simp [taken, hi])]

omit [DecidableEq κ] in
theorem taken_free (hi : t i ≠ none) :
    (taken (Function.update t i none)).card + 1 = (taken t).card := by
  have hset : taken (Function.update t i none) = (taken t).erase i := by
    ext j
    rcases eq_or_ne j i with rfl | hji <;> simp [taken, *]
  rw [hset, Finset.card_erase_add_one (by simpa [taken] using hi)]

end Taken

end Slots
