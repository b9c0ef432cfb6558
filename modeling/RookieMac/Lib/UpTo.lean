import Mathlib

/-!
# A loop that stops

What a loop over a list gets to when it leaves after the first element that stops it.
-/

namespace UpTo

variable {α : Type*} (p : α → Bool)

/-- The elements up to the first one `p` holds of, with it. -/
def upTo : List α → List α
  | [] => []
  | a :: l => if p a then [a] else a :: upTo l

variable {p} {l : List α} {a : α}

theorem upTo_cons_pos (h : p a = true) : upTo p (a :: l) = [a] := if_pos h

theorem upTo_cons_neg (h : p a = false) : upTo p (a :: l) = a :: upTo p l := by
  rw [upTo, if_neg (by simp [h])]

theorem upTo_sublist : ∀ l : List α, List.Sublist (upTo p l) l
  | [] => .slnil
  | a :: l => by
    unfold upTo
    split_ifs
    · exact (List.nil_sublist l).cons_cons a
    · exact (upTo_sublist l).cons_cons a

/-- An element of an ordered list is reached where none before it stops the loop. -/
theorem mem_upTo [LinearOrder α] : ∀ {l : List α}, l.Pairwise (· < ·) →
    (a ∈ upTo p l ↔ a ∈ l ∧ ∀ b ∈ l, b < a → p b = false)
  | [], _ => by simp [upTo]
  | c :: l, hl => by
    obtain ⟨hlt, hl⟩ := List.pairwise_cons.1 hl
    rcases hc : p c with _ | _
    · rw [upTo_cons_neg hc, List.mem_cons, mem_upTo hl, List.mem_cons]
      constructor
      · rintro (rfl | ⟨ha, h⟩)
        · refine ⟨.inl rfl, fun b hb hba => ?_⟩
          rcases List.mem_cons.1 hb with rfl | hb
          · exact hc
          · exact absurd (hlt b hb) hba.not_gt
        · refine ⟨.inr ha, fun b hb hba => ?_⟩
          rcases List.mem_cons.1 hb with rfl | hb
          · exact hc
          · exact h b hb hba
      · rintro ⟨rfl | ha, h⟩
        · exact .inl rfl
        · exact .inr ⟨ha, fun b hb => h b (.tail _ hb)⟩
    · rw [upTo_cons_pos hc, List.mem_singleton, List.mem_cons]
      constructor
      · rintro rfl
        refine ⟨.inl rfl, fun b hb hba => ?_⟩
        rcases List.mem_cons.1 hb with rfl | hb
        · exact absurd hba (lt_irrefl _)
        · exact absurd (hlt b hb) hba.not_gt
      · rintro ⟨rfl | ha, h⟩
        · rfl
        · have hfalse := h c (.head _) (hlt a ha)
          rw [hc] at hfalse
          cases hfalse

/-- The loop makes at most `n` turns where the list is no longer, or one of its first `n` elements
stops it. -/
theorem length_upTo_le : ∀ {l : List α} {n : ℕ},
    (upTo p l).length ≤ n ↔ l.length ≤ n ∨ ∃ a ∈ l.take n, p a = true
  | [], _ => by simp [upTo]
  | c :: l, 0 => by
    unfold upTo
    split_ifs <;> simp
  | c :: l, n + 1 => by
    rcases hc : p c with _ | _
    · rw [upTo_cons_neg hc, List.length_cons, Nat.add_le_add_iff_right, length_upTo_le]
      simp [hc]
    · rw [upTo_cons_pos hc]
      simp [hc]

end UpTo
