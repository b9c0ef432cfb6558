import Mathlib

/-!
# Chained hash tables

A table is an array of chains. A layout says which chain a key belongs to and how an element
carries its key and its value. While every element sits in its key's chain and no chain repeats a
key (`WF`), the table is a finite map (`toMap`), and what the chain operations do to the map can be
read off the element they touch: an insertion that first looks for an element to overwrite
(`upsert_cases`), the removal of the first match (`eraseFirst_cases`) and the removal of every
match (`toMap_filter`). The element an operation looks for need not be the one with the same key.
-/

namespace Chained

variable {n : ℕ} {β κ ν : Type*}

abbrev Table (n : ℕ) (β : Type*) := Fin n → List β

/-- The chain of a key, and the key and the value of an element. -/
structure Layout (n : ℕ) (β κ ν : Type*) where
  idx : κ → Fin n
  key : β → κ
  val : β → ν

def empty : Table n β := fun _ => []

def entries (t : Table n β) : List β := (List.finRange n).flatMap t

/-- Overwrite the first element `p` picks, if there is one. -/
def modifyFirst (p : β → Bool) (f : β → β) : List β → Option (List β)
  | [] => none
  | a :: l => if p a then some (f a :: l) else (modifyFirst p f l).map (a :: ·)

/-- Overwrite the first element `p` picks in chain `i`, or put `e` in front of the chain. -/
def upsert (p : β → Bool) (f : β → β) (e : β) (i : Fin n) (t : Table n β) : Table n β :=
  Function.update t i ((modifyFirst p f (t i)).getD (e :: t i))

def eraseFirst (p : β → Bool) (i : Fin n) (t : Table n β) : Table n β :=
  Function.update t i ((t i).eraseP p)

/-- Every element sits in the chain of its key, and no chain has two elements of one key. -/
structure WF (L : Layout n β κ ν) (t : Table n β) : Prop where
  placed : ∀ i, ∀ x ∈ t i, L.idx (L.key x) = i
  nodup : ∀ i, ((t i).map L.key).Nodup

def toMap [DecidableEq κ] (L : Layout n β κ ν) (t : Table n β) : κ → Option ν :=
  fun k => ((t (L.idx k)).find? fun x => L.key x = k).map L.val

def keys (L : Layout n β κ ν) (t : Table n β) : Set κ := {k | ∃ x ∈ entries t, L.key x = k}

/-! ## The elements -/

section Entries

@[simp] theorem mem_entries {t : Table n β} {x : β} : x ∈ entries t ↔ ∃ i, x ∈ t i := by
  simp [entries]

@[simp] theorem entries_empty : entries (empty : Table n β) = [] := by
  simp [entries, empty]

theorem length_entries (t : Table n β) : (entries t).length = ∑ i, (t i).length := by
  simp [entries, List.length_flatMap, Fin.sum_univ_def]

theorem length_entries_update (t : Table n β) (i : Fin n) (l : List β) :
    (entries (Function.update t i l)).length + (t i).length = (entries t).length + l.length := by
  rw [length_entries, length_entries, ← Finset.add_sum_erase _ _ (Finset.mem_univ i),
    ← Finset.add_sum_erase _ (fun j => (t j).length) (Finset.mem_univ i), Function.update_self,
    Finset.sum_congr rfl fun j hj => by rw [Function.update_of_ne (Finset.ne_of_mem_erase hj)]]
  omega

@[simp] theorem keys_empty {L : Layout n β κ ν} : keys L (empty : Table n β) = ∅ := by
  simp [keys]

theorem entries_update_empty (i : Fin n) (x : β) :
    entries (Function.update (empty : Table n β) i [x]) = [x] := by
  have hlen := length_entries_update (empty : Table n β) i [x]
  rw [entries_empty] at hlen
  have hmem : x ∈ entries (Function.update (empty : Table n β) i [x]) :=
    mem_entries.2 ⟨i, by rw [Function.update_self]; exact .head _⟩
  obtain ⟨y, hy⟩ := List.length_eq_one_iff.1 hlen
  rw [hy, List.mem_singleton] at hmem
  rw [hy, hmem]

theorem entries_eq_nil {t : Table n β} : entries t = [] ↔ t = empty := by
  constructor
  · intro h
    funext i
    refine List.eq_nil_iff_forall_not_mem.2 fun x hx => ?_
    have : x ∈ entries t := mem_entries.2 ⟨i, hx⟩
    rw [h] at this
    exact List.not_mem_nil this
  · rintro rfl
    exact entries_empty

end Entries

/-! ## The chain operations -/

section Chains

theorem modifyFirst_cases (p : β → Bool) (f : β → β) : ∀ l : List β,
    (modifyFirst p f l = none ∧ ∀ x ∈ l, p x = false)
      ∨ ∃ l₁ a l₂, l = l₁ ++ a :: l₂ ∧ p a = true ∧ modifyFirst p f l = some (l₁ ++ f a :: l₂)
  | [] => .inl ⟨rfl, by simp⟩
  | a :: l => by
    unfold modifyFirst
    by_cases ha : p a = true
    · exact .inr ⟨[], a, l, rfl, ha, by simp [ha]⟩
    simp only [Bool.not_eq_true] at ha
    rcases modifyFirst_cases p f l with ⟨hn, h⟩ | ⟨l₁, b, l₂, rfl, hb, hs⟩
    · refine .inl ⟨by simp [ha, hn], ?_⟩
      rintro x (_ | ⟨_, hx⟩)
      · exact ha
      · exact h x hx
    · exact .inr ⟨a :: l₁, b, l₂, rfl, hb, by simp [ha, hs]⟩

theorem modifyFirst_eq_none {p : β → Bool} {f : β → β} {l : List β} :
    modifyFirst p f l = none ↔ ∀ x ∈ l, p x = false := by
  rcases modifyFirst_cases p f l with ⟨hn, h⟩ | ⟨l₁, a, l₂, rfl, ha, hs⟩
  · exact iff_of_true hn h
  · refine iff_of_false (by simp [hs]) fun h => ?_
    have := h a (by simp)
    rw [ha] at this
    cases this

theorem eraseP_cases (p : β → Bool) (l : List β) :
    (l.eraseP p = l ∧ ∀ x ∈ l, p x = false)
      ∨ ∃ l₁ a l₂, l = l₁ ++ a :: l₂ ∧ p a = true ∧ l.eraseP p = l₁ ++ l₂ := by
  by_cases h : ∃ x ∈ l, p x = true
  · obtain ⟨x, hx, hp⟩ := h
    obtain ⟨a, l₁, l₂, -, ha, hl, he⟩ := List.exists_of_eraseP hx hp
    exact .inr ⟨l₁, a, l₂, hl, ha, he⟩
  · push Not at h
    exact .inl ⟨List.eraseP_of_forall_not h, fun x hx => by simpa using h x hx⟩

/-- Unlinking the first match, seen through a partial view of the elements that has every match. -/
theorem filterMap_eraseP {γ : Type*} {g : β → Option γ} {p : β → Bool} {q : γ → Bool} :
    ∀ l : List β, (∀ x ∈ l, p x = (g x).any q) → (l.eraseP p).filterMap g = (l.filterMap g).eraseP q
  | [], _ => rfl
  | a :: l, h => by
    have ih := filterMap_eraseP l fun x hx => h x (.tail _ hx)
    have ha := h a (.head _)
    rcases hg : g a with _ | y
    · rw [hg, Option.any_none] at ha
      rw [List.eraseP_cons_of_neg (by simp [ha]), List.filterMap_cons_none hg,
        List.filterMap_cons_none hg, ih]
    · rw [hg, Option.any_some] at ha
      rw [List.filterMap_cons_some hg]
      by_cases hq : q y = true
      · rw [List.eraseP_cons_of_pos (ha.trans hq), List.eraseP_cons_of_pos hq]
      · rw [List.eraseP_cons_of_neg (by simp [ha, hq]), List.eraseP_cons_of_neg hq,
          List.filterMap_cons_some hg, ih]

theorem filterMap_modifyFirst {γ : Type*} {g : β → Option γ} {p : β → Bool} {q : γ → Bool}
    {f : β → β} {f' : γ → γ} (hf : ∀ x, p x = true → g (f x) = (g x).map f') :
    ∀ l : List β, (∀ x ∈ l, p x = (g x).any q) →
      (modifyFirst p f l).map (List.filterMap g) = modifyFirst q f' (l.filterMap g)
  | [], _ => rfl
  | a :: l, h => by
    have ih := filterMap_modifyFirst hf l fun x hx => h x (.tail _ hx)
    have ha := h a (.head _)
    rcases hg : g a with _ | y
    · rw [hg, Option.any_none] at ha
      rw [List.filterMap_cons_none hg, ← ih, modifyFirst, ha]
      rcases modifyFirst p f l with _ | l'
      · rfl
      · simp [List.filterMap_cons_none hg]
    · rw [hg, Option.any_some] at ha
      rw [List.filterMap_cons_some hg, modifyFirst, modifyFirst, ha]
      by_cases hq : q y = true
      · have hfa : g (f a) = some (f' y) := by rw [hf a (ha.trans hq), hg, Option.map_some]
        simp [hq, List.filterMap_cons_some hfa]
      · simp only [hq, Bool.false_eq_true, ↓reduceIte, ← ih]
        rcases modifyFirst p f l with _ | l'
        · rfl
        · simp [List.filterMap_cons_some hg]

theorem filterMap_eraseP_of_none {γ : Type*} {g : β → Option γ} {p : β → Bool} (l : List β)
    (h : ∀ x ∈ l, p x = true → g x = none) : (l.eraseP p).filterMap g = l.filterMap g := by
  rcases eraseP_cases p l with ⟨he, -⟩ | ⟨l₁, a, l₂, rfl, ha, he⟩
  · rw [he]
  · rw [he, List.filterMap_append, List.filterMap_append,
      List.filterMap_cons_none (h a (by simp) ha)]

theorem filterMap_modifyFirst_of_none {γ : Type*} {g : β → Option γ} {p : β → Bool} {f : β → β}
    {l l' : List β} (h : ∀ x ∈ l, p x = true → g x = none ∧ g (f x) = none)
    (hm : modifyFirst p f l = some l') : l'.filterMap g = l.filterMap g := by
  rcases modifyFirst_cases p f l with ⟨hn, -⟩ | ⟨l₁, a, l₂, rfl, ha, he⟩
  · rw [hn] at hm
    cases hm
  · obtain ⟨hg, hgf⟩ := h a (by simp) ha
    rw [he, Option.some.injEq] at hm
    rw [← hm, List.filterMap_append, List.filterMap_append, List.filterMap_cons_none hg,
      List.filterMap_cons_none hgf]

/-- Removals of elements no one of which both pick can change places. -/
theorem eraseP_comm {p q : β → Bool} (h : ∀ x, p x = true → q x = false) :
    ∀ l : List β, (l.eraseP p).eraseP q = (l.eraseP q).eraseP p
  | [] => rfl
  | a :: l => by
    by_cases hp : p a = true
    · rw [List.eraseP_cons_of_pos hp, List.eraseP_cons_of_neg (by simp [h a hp]),
        List.eraseP_cons_of_pos hp]
    · rw [List.eraseP_cons_of_neg hp]
      by_cases hq : q a = true
      · rw [List.eraseP_cons_of_pos hq, List.eraseP_cons_of_pos hq]
      · rw [List.eraseP_cons_of_neg hq, List.eraseP_cons_of_neg hq, List.eraseP_cons_of_neg hp,
          eraseP_comm h l]

/-- Where no key occurs twice, dropping every element of one key is dropping the first. -/
theorem filter_eq_eraseP {key : β → κ} {p : β → Bool} {k : κ} (hp : ∀ x, p x = true ↔ key x = k) :
    ∀ l : List β, (l.map key).Nodup → (l.filter fun x => !p x) = l.eraseP p
  | [], _ => rfl
  | a :: l, h => by
    rw [List.map_cons, List.nodup_cons] at h
    by_cases ha : p a = true
    · rw [List.eraseP_cons_of_pos ha, List.filter_cons_of_neg (by simp [ha]), List.filter_eq_self]
      intro x hx
      by_contra hx'
      simp only [Bool.not_eq_true', Bool.not_eq_false] at hx'
      exact h.1 (List.mem_map.2 ⟨x, hx, by rw [(hp x).1 hx', (hp a).1 ha]⟩)
    · rw [List.eraseP_cons_of_neg ha, List.filter_cons_of_pos (by simp [ha]),
        filter_eq_eraseP hp l h.2]

end Chains

/-! ## Reading the table as a map -/

section Map

variable {L : Layout n β κ ν} {t : Table n β}

theorem WF.empty : WF L (empty : Table n β) :=
  ⟨fun _ _ h => by simp [Chained.empty] at h, fun _ => by simp [Chained.empty]⟩

/-- A chain is emptied. -/
theorem WF.clear (h : WF L t) (i : Fin n) : WF L (Function.update t i []) := by
  have hsub : ∀ j, Function.update t i [] j = t j ∨ Function.update t i [] j = [] := fun j => by
    rcases eq_or_ne j i with rfl | hji
    · exact .inr (Function.update_self _ _ _)
    · exact .inl (Function.update_of_ne hji _ _)
  refine ⟨fun j x hx => ?_, fun j => ?_⟩
  · rcases hsub j with hj | hj
    · exact h.placed j x (hj ▸ hx)
    · rw [hj] at hx
      cases hx
  · rcases hsub j with hj | hj
    · rw [hj]
      exact h.nodup j
    · rw [hj]
      exact List.nodup_nil

theorem WF.not_mem_keys_clear (h : WF L t) (k : κ) :
    k ∉ keys L (Function.update t (L.idx k) []) := by
  rintro ⟨x, hx, rfl⟩
  obtain ⟨j, hj⟩ := mem_entries.1 hx
  have hidx := (h.clear (L.idx (L.key x))).placed j x hj
  rw [← hidx, Function.update_self] at hj
  cases hj

theorem WF.eq_of_key (h : WF L t) {i j : Fin n} {x y : β} (hx : x ∈ t i) (hy : y ∈ t j)
    (hk : L.key x = L.key y) : x = y := by
  obtain rfl : i = j := by rw [← h.placed i x hx, ← h.placed j y hy, hk]
  exact List.inj_on_of_nodup_map (h.nodup i) hx hy hk

theorem WF.nodup_entries (h : WF L t) : ((entries t).map L.key).Nodup := by
  rw [entries, List.map_flatMap, List.nodup_flatMap]
  refine ⟨fun i _ => h.nodup i, (List.nodup_finRange n).imp fun {i j} hij k hk hk' => ?_⟩
  obtain ⟨x, hx, rfl⟩ := List.mem_map.1 hk
  obtain ⟨y, hy, hyx⟩ := List.mem_map.1 hk'
  exact hij (by rw [← h.placed i x hx, ← h.placed j y hy, hyx])

theorem WF.length_le_one (h : WF L t) {k : κ} (hk : ∀ x ∈ entries t, L.key x = k) :
    (entries t).length ≤ 1 := by
  have hr : (entries t).map L.key = List.replicate (entries t).length k :=
    List.eq_replicate_iff.2 ⟨List.length_map _, fun k' hk' => by
      obtain ⟨x, hx, rfl⟩ := List.mem_map.1 hk'
      exact hk x hx⟩
  have hnd := h.nodup_entries
  rwa [hr, List.nodup_replicate] at hnd

variable [DecidableEq κ]

@[simp] theorem toMap_empty : toMap L (empty : Table n β) = fun _ => none := by
  funext k
  simp [toMap, Chained.empty]

theorem toMap_eq_none {k : κ} : toMap L t k = none ↔ ∀ x ∈ t (L.idx k), L.key x ≠ k := by
  simp [toMap]

theorem WF.toMap_of_mem (h : WF L t) {i : Fin n} {x : β} (hx : x ∈ t i) :
    toMap L t (L.key x) = some (L.val x) := by
  rw [← h.placed i x hx] at hx
  rcases hf : (t (L.idx (L.key x))).find? (fun y => L.key y = L.key x) with _ | y
  · have := List.find?_eq_none.1 hf x hx
    simp at this
  · have hy := List.find?_some hf
    simp only [decide_eq_true_eq] at hy
    rw [toMap, hf, h.eq_of_key (List.mem_of_find?_eq_some hf) hx hy]
    rfl

theorem WF.toMap_eq_some (h : WF L t) {k : κ} {v : ν} :
    toMap L t k = some v ↔ ∃ x ∈ entries t, L.key x = k ∧ L.val x = v := by
  constructor
  · intro hs
    obtain ⟨x, hf, hv⟩ := Option.map_eq_some_iff.1 hs
    have hk := List.find?_some hf
    simp only [decide_eq_true_eq] at hk
    exact ⟨x, mem_entries.2 ⟨_, List.mem_of_find?_eq_some hf⟩, hk, hv⟩
  · rintro ⟨x, hx, rfl, rfl⟩
    obtain ⟨i, hi⟩ := mem_entries.1 hx
    exact h.toMap_of_mem hi

theorem WF.toMap_isSome (h : WF L t) {k : κ} :
    toMap L t k ≠ none ↔ ∃ x ∈ entries t, L.key x = k := by
  rw [Option.ne_none_iff_exists']
  constructor
  · rintro ⟨v, hv⟩
    obtain ⟨x, hx, hk, -⟩ := h.toMap_eq_some.1 hv
    exact ⟨x, hx, hk⟩
  · rintro ⟨x, hx, rfl⟩
    exact ⟨_, h.toMap_eq_some.2 ⟨x, hx, rfl, rfl⟩⟩

theorem WF.mem_keys (h : WF L t) {k : κ} : k ∈ keys L t ↔ toMap L t k ≠ none :=
  h.toMap_isSome.symm

end Map

/-! ## What the operations do to the map -/

section Operations

variable {L : Layout n β κ ν} {t : Table n β} {i : Fin n} {a b : β} {l₁ l₂ : List β}

theorem WF.set_middle (h : WF L t) (ht : t i = l₁ ++ a :: l₂) (hk : L.key b = L.key a) :
    WF L (Function.update t i (l₁ ++ b :: l₂)) := by
  refine ⟨fun j x hx => ?_, fun j => ?_⟩ <;> rcases eq_or_ne j i with rfl | hj
  · rw [Function.update_self] at hx
    have hp : ∀ y ∈ l₁ ++ a :: l₂, L.idx (L.key y) = j := ht ▸ h.placed j
    simp only [List.mem_append, List.mem_cons] at hx hp
    rcases hx with hx | rfl | hx
    · exact hp x (.inl hx)
    · rw [hk]; exact hp a (.inr (.inl rfl))
    · exact hp x (.inr (.inr hx))
  · rw [Function.update_of_ne hj] at hx
    exact h.placed j x hx
  · have := h.nodup j
    rw [ht] at this
    simpa [hk] using this
  · rw [Function.update_of_ne hj]
    exact h.nodup j

theorem WF.remove_middle (h : WF L t) (ht : t i = l₁ ++ a :: l₂) :
    WF L (Function.update t i (l₁ ++ l₂)) := by
  have hs : List.Sublist (l₁ ++ l₂) (t i) := by
    rw [ht]; exact (List.sublist_cons_self a l₂).append_left l₁
  refine ⟨fun j x hx => ?_, fun j => ?_⟩ <;> rcases eq_or_ne j i with rfl | hj
  · rw [Function.update_self] at hx
    exact h.placed j x (hs.subset hx)
  · rw [Function.update_of_ne hj] at hx
    exact h.placed j x hx
  · rw [Function.update_self]
    exact (h.nodup j).sublist (hs.map _)
  · rw [Function.update_of_ne hj]
    exact h.nodup j

theorem WF.filter (h : WF L t) (q : Fin n → β → Bool) : WF L fun i => (t i).filter (q i) :=
  ⟨fun j x hx => h.placed j x (List.mem_filter.1 hx).1,
    fun j => (h.nodup j).sublist (List.filter_sublist.map _)⟩

variable [DecidableEq κ]

theorem WF.cons (h : WF L t) (hi : L.idx (L.key a) = i) (hn : toMap L t (L.key a) = none) :
    WF L (Function.update t i (a :: t i)) := by
  subst hi
  refine ⟨fun j x hx => ?_, fun j => ?_⟩ <;> rcases eq_or_ne j (L.idx (L.key a)) with rfl | hj
  · rw [Function.update_self, List.mem_cons] at hx
    rcases hx with rfl | hx
    · rfl
    · exact h.placed _ x hx
  · rw [Function.update_of_ne hj] at hx
    exact h.placed j x hx
  · rw [Function.update_self, List.map_cons, List.nodup_cons]
    refine ⟨fun hm => ?_, h.nodup _⟩
    obtain ⟨x, hx, hk⟩ := List.mem_map.1 hm
    exact toMap_eq_none.1 hn x hx hk
  · rw [Function.update_of_ne hj]
    exact h.nodup j

theorem WF.toMap_set_middle (h : WF L t) (ht : t i = l₁ ++ a :: l₂) (hk : L.key b = L.key a) :
    toMap L (Function.update t i (l₁ ++ b :: l₂))
      = Function.update (toMap L t) (L.key a) (some (L.val b)) := by
  funext k
  rcases eq_or_ne k (L.key a) with rfl | hka
  · rw [Function.update_self, ← hk]
    have hb : b ∈ Function.update t i (l₁ ++ b :: l₂) i := by simp
    exact (h.set_middle ht hk).toMap_of_mem hb
  · rw [Function.update_of_ne hka]
    by_cases hik : L.idx k = i
    · simp only [toMap, hik, Function.update_self, ht, List.find?_append, List.find?_cons, hk,
        hka.symm, decide_false]
    · simp only [toMap, Function.update_of_ne hik]

theorem WF.toMap_remove_middle (h : WF L t) (ht : t i = l₁ ++ a :: l₂) :
    toMap L (Function.update t i (l₁ ++ l₂)) = Function.update (toMap L t) (L.key a) none := by
  have hi : L.idx (L.key a) = i := h.placed i a (by simp [ht])
  funext k
  rcases eq_or_ne k (L.key a) with rfl | hka
  · rw [Function.update_self, toMap_eq_none, hi, Function.update_self]
    have hnd := h.nodup i
    rw [ht, List.map_append, List.map_cons, List.nodup_middle, List.nodup_cons] at hnd
    intro x hx hk
    exact hnd.1 (by rw [← List.map_append, ← hk]; exact List.mem_map_of_mem hx)
  · rw [Function.update_of_ne hka]
    by_cases hik : L.idx k = i
    · simp only [toMap, hik, Function.update_self, ht, List.find?_append, List.find?_cons,
        hka.symm, decide_false]
    · simp only [toMap, Function.update_of_ne hik]

theorem toMap_cons (hi : L.idx (L.key a) = i) :
    toMap L (Function.update t i (a :: t i))
      = Function.update (toMap L t) (L.key a) (some (L.val a)) := by
  subst hi
  funext k
  rcases eq_or_ne k (L.key a) with rfl | hka
  · simp [toMap]
  · rw [Function.update_of_ne hka]
    by_cases hik : L.idx k = L.idx (L.key a)
    · simp [toMap, hik, hka.symm]
    · simp only [toMap, Function.update_of_ne hik]

theorem WF.toMap_filter (h : WF L t) (q : Fin n → β → Bool) (Q : κ → ν → Bool)
    (hq : ∀ i, ∀ x ∈ t i, q i x = Q (L.key x) (L.val x)) :
    toMap L (fun i => (t i).filter (q i)) = fun k => (toMap L t k).filter (Q k) := by
  funext k
  apply Option.ext
  intro v
  rw [(h.filter q).toMap_eq_some, Option.filter_eq_some_iff, h.toMap_eq_some]
  simp only [mem_entries, List.mem_filter]
  constructor
  · rintro ⟨x, ⟨i, hx, hqx⟩, rfl, rfl⟩
    exact ⟨⟨x, ⟨i, hx⟩, rfl, rfl⟩, by rw [← hq i x hx, hqx]⟩
  · rintro ⟨⟨x, ⟨i, hx⟩, rfl, rfl⟩, hQ⟩
    exact ⟨x, ⟨i, hx, by rw [hq i x hx, hQ]⟩, rfl, rfl⟩

/-- An insertion overwrites the element it picks, or adds its own. -/
theorem WF.upsert_cases (h : WF L t) {p : β → Bool} {f : β → β} {e : β}
    (hi : L.idx (L.key e) = i) (hp : ∀ x ∈ t i, L.key x = L.key e → p x = true)
    (hf : ∀ x, L.key (f x) = L.key x) :
    WF L (upsert p f e i t) ∧
      ((modifyFirst p f (t i) = none ∧ (∀ x ∈ t i, p x = false)
          ∧ toMap L (upsert p f e i t) = Function.update (toMap L t) (L.key e) (some (L.val e))
          ∧ (entries (upsert p f e i t)).length = (entries t).length + 1)
        ∨ ∃ a ∈ t i, modifyFirst p f (t i) ≠ none ∧ p a = true
          ∧ toMap L (upsert p f e i t) = Function.update (toMap L t) (L.key a) (some (L.val (f a)))
          ∧ (entries (upsert p f e i t)).length = (entries t).length) := by
  rcases modifyFirst_cases p f (t i) with ⟨hn, hall⟩ | ⟨l₁, a, l₂, ht, ha, hs⟩
  · have hu : upsert p f e i t = Function.update t i (e :: t i) := by simp [upsert, hn]
    have hk : toMap L t (L.key e) = none := by
      rw [toMap_eq_none, hi]
      intro x hx hk
      have := hp x hx hk
      rw [hall x hx] at this
      cases this
    have hlen := length_entries_update t i (e :: t i)
    rw [List.length_cons] at hlen
    rw [hu]
    exact ⟨h.cons hi hk, .inl ⟨hn, hall, toMap_cons hi, by omega⟩⟩
  · have hu : upsert p f e i t = Function.update t i (l₁ ++ f a :: l₂) := by simp [upsert, hs]
    have hlen := length_entries_update t i (l₁ ++ f a :: l₂)
    rw [ht] at hlen
    simp only [List.length_append, List.length_cons] at hlen
    rw [hu]
    exact ⟨h.set_middle ht (hf a), .inr ⟨a, by simp [ht], by simp [hs], ha,
      h.toMap_set_middle ht (hf a), by omega⟩⟩

/-- Unlinking the first match removes one key, or nothing. -/
theorem WF.eraseFirst_cases (h : WF L t) (p : β → Bool) (i : Fin n) :
    WF L (eraseFirst p i t) ∧
      (((∀ x ∈ t i, p x = false) ∧ eraseFirst p i t = t)
        ∨ ∃ a ∈ t i, p a = true
          ∧ toMap L (eraseFirst p i t) = Function.update (toMap L t) (L.key a) none
          ∧ (entries (eraseFirst p i t)).length + 1 = (entries t).length) := by
  rcases eraseP_cases p (t i) with ⟨hn, hall⟩ | ⟨l₁, a, l₂, ht, ha, hs⟩
  · have hu : eraseFirst p i t = t := by rw [eraseFirst, hn, Function.update_eq_self]
    rw [hu]
    exact ⟨h, .inl ⟨hall, rfl⟩⟩
  · have hu : eraseFirst p i t = Function.update t i (l₁ ++ l₂) := by rw [eraseFirst, hs]
    have hlen := length_entries_update t i (l₁ ++ l₂)
    rw [ht] at hlen
    simp only [List.length_append, List.length_cons] at hlen
    rw [hu]
    exact ⟨h.remove_middle ht, .inr ⟨a, by simp [ht], ha, h.toMap_remove_middle ht, by omega⟩⟩

theorem WF.filterKey (h : WF L t) {p : β → Bool} {k : κ} (hp : ∀ x, p x = true ↔ L.key x = k)
    (hi : L.idx k = i) :
    WF L (Function.update t i ((t i).filter fun x => !p x))
      ∧ toMap L (Function.update t i ((t i).filter fun x => !p x))
        = Function.update (toMap L t) k none
      ∧ (entries t).length
        ≤ (entries (Function.update t i ((t i).filter fun x => !p x))).length + 1 := by
  have he : Function.update t i ((t i).filter fun x => !p x) = eraseFirst p i t := by
    rw [filter_eq_eraseP hp _ (h.nodup i), eraseFirst]
  rw [he]
  obtain ⟨hwf, ⟨hn, heq⟩ | ⟨a, -, ha, hmap, hlen⟩⟩ := h.eraseFirst_cases p i
  · have hk : toMap L t k = none := by
      rw [toMap_eq_none, hi]
      intro x hx hxk
      have := hn x hx
      rw [(hp x).2 hxk] at this
      cases this
    refine ⟨hwf, ?_, by rw [heq]; omega⟩
    rw [heq, ← hk, Function.update_eq_self]
  · rw [(hp a).1 ha] at hmap
    exact ⟨hwf, hmap, by omega⟩

end Operations

end Chained
