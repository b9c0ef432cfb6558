import Mathlib

/-!
# Circular lists

The doubly linked circular list of the Linux kernel, on a memory of list heads. `Ring l head xs`
says that the entries of the list at `head` are `xs`, from `head->next` on.
-/

namespace Circular

variable {α : Type*} [DecidableEq α]

/-- The memory: the two pointers of the `struct list_head` at each address. -/
structure Links (α : Type*) where
  next : α → α
  prev : α → α

/-- `LIST_HEAD`. -/
def Links.init (head : α) (l : Links α) : Links α where
  next := Function.update l.next head head
  prev := Function.update l.prev head head

/-- `list_add`: right after the head. -/
def Links.add (new head : α) (l : Links α) : Links α where
  next := Function.update (Function.update l.next new (l.next head)) head new
  prev := Function.update (Function.update l.prev (l.next head) new) new head

/-- `list_del`, which leaves the two poison values in the entry. -/
def Links.del (poison₁ poison₂ entry : α) (l : Links α) : Links α where
  next := Function.update (Function.update l.next (l.prev entry) (l.next entry)) entry poison₁
  prev := Function.update (Function.update l.prev (l.next entry) (l.prev entry)) entry poison₂

def Links.Empty (head : α) (l : Links α) : Prop := l.next head = head

instance (head : α) (l : Links α) : Decidable (l.Empty head) :=
  inferInstanceAs (Decidable (_ = _))

/-- From `a` over `xs` to `b`, and back. -/
def Segment (l : Links α) : α → List α → α → Prop
  | a, [], b => l.next a = b ∧ l.prev b = a
  | a, x :: xs, b => l.next a = x ∧ l.prev x = a ∧ Segment l x xs b

structure Ring (l : Links α) (head : α) (xs : List α) : Prop where
  nodup : (head :: xs).Nodup
  segment : Segment l head xs head

variable {l l' : Links α} {head a b x : α} {xs : List α}

omit [DecidableEq α] in
/-- A segment is only as much of the memory as it goes over. -/
theorem Segment.congr : ∀ {xs : List α} {a : α}, Segment l a xs b →
    (∀ y ∈ a :: xs, l'.next y = l.next y) → (∀ y ∈ b :: xs, l'.prev y = l.prev y) →
    Segment l' a xs b
  | [], a, h, hn, hp => by
    rw [Segment, hn a (.head _), hp b (.head _)]
    exact h
  | x :: xs, a, h, hn, hp => by
    obtain ⟨h1, h2, h3⟩ := h
    refine ⟨(hn a (.head _)).trans h1, (hp x (.tail _ (.head _))).trans h2, ?_⟩
    refine h3.congr (fun y hy => hn y (.tail _ hy)) fun y hy => ?_
    rcases List.mem_cons.1 hy with rfl | hy
    · exact hp y (.head _)
    · exact hp y (.tail _ (.tail _ hy))

theorem ring_init (l : Links α) (head : α) : Ring (l.init head) head [] :=
  ⟨List.nodup_singleton head, by simp [Segment, Links.init]⟩

omit [DecidableEq α] in
theorem Ring.empty_iff (h : Ring l head xs) : l.Empty head ↔ xs = [] := by
  obtain ⟨hnd, hseg⟩ := h
  rcases xs with _ | ⟨x, xs⟩
  · exact iff_of_true hseg.1 rfl
  · refine iff_of_false (fun he => ?_) (List.cons_ne_nil _ _)
    rw [Links.Empty, hseg.1] at he
    subst he
    exact (List.nodup_cons.1 hnd).1 (.head _)

omit [DecidableEq α] in
theorem Ring.next_head (h : Ring l head (x :: xs)) : l.next head = x := h.segment.1

omit [DecidableEq α] in
theorem Ring.ne_head (h : Ring l head (x :: xs)) : x ≠ head := by
  rintro rfl
  exact (List.nodup_cons.1 h.nodup).1 (.head _)

/-- An entry that is not yet in the list comes first. -/
theorem Ring.add (h : Ring l head xs) (hx : x ∉ head :: xs) :
    Ring (l.add x head) head (x :: xs) := by
  obtain ⟨hnd, hseg⟩ := h
  rw [List.mem_cons, not_or] at hx
  obtain ⟨hxh, hx⟩ := hx
  obtain ⟨hh, hnd⟩ := List.nodup_cons.1 hnd
  refine ⟨?_, ?_⟩
  · rw [List.nodup_cons, List.mem_cons, not_or, List.nodup_cons]
    exact ⟨⟨Ne.symm hxh, hh⟩, hx, hnd⟩
  rcases xs with _ | ⟨y, ys⟩
  · obtain ⟨h1, h2⟩ := hseg
    simp [Segment, Links.add, h1, hxh, Ne.symm hxh]
  · obtain ⟨h1, h2, h3⟩ := hseg
    have hyx : y ≠ x := fun e => hx (e ▸ .head _)
    refine ⟨by simp [Links.add], by simp [Links.add], by simp [Links.add, h1, hxh],
      by simp [Links.add, h1, hyx], h3.congr (fun z hz => ?_) fun z hz => ?_⟩
    · have hzh : z ≠ head := fun e => hh (e ▸ hz)
      have hzx : z ≠ x := fun e => hx (e ▸ hz)
      simp [Links.add, hzh, hzx]
    · have hzx : z ≠ x := by
        rcases List.mem_cons.1 hz with rfl | hz
        · exact Ne.symm hxh
        · exact fun e => hx (e ▸ .tail _ hz)
      have hzy : z ≠ y := by
        rcases List.mem_cons.1 hz with rfl | hz
        · exact fun e => hh (e ▸ .head _)
        · exact fun e => (List.nodup_cons.1 hnd).1 (e ▸ hz)
      simp [Links.add, h1, hzx, hzy]

/-- The first entry is taken out. -/
theorem Ring.del (h : Ring l head (x :: xs)) (poison₁ poison₂ : α) :
    Ring (l.del poison₁ poison₂ x) head xs := by
  obtain ⟨hnd, h1, h2, h3⟩ := h
  obtain ⟨hh, hnd⟩ := List.nodup_cons.1 hnd
  rw [List.mem_cons, not_or] at hh
  obtain ⟨hhx, hh⟩ := hh
  obtain ⟨hx, hnd⟩ := List.nodup_cons.1 hnd
  refine ⟨List.nodup_cons.2 ⟨hh, hnd⟩, ?_⟩
  rcases xs with _ | ⟨y, ys⟩
  · obtain ⟨h4, h5⟩ := h3
    simp [Segment, Links.del, h2, h4, hhx]
  · obtain ⟨h4, h5, h6⟩ := h3
    have hyx : y ≠ x := fun e => hx (e ▸ .head _)
    refine ⟨by simp [Links.del, h2, h4, hhx], by simp [Links.del, h2, h4, hyx],
      h6.congr (fun z hz => ?_) fun z hz => ?_⟩
    · have hzh : z ≠ head := fun e => hh (e ▸ hz)
      have hzx : z ≠ x := fun e => hx (e ▸ hz)
      simp [Links.del, h2, hzh, hzx]
    · have hzx : z ≠ x := by
        rcases List.mem_cons.1 hz with rfl | hz
        · exact hhx
        · exact fun e => hx (e ▸ .tail _ hz)
      have hzy : z ≠ y := by
        rcases List.mem_cons.1 hz with rfl | hz
        · exact fun e => hh (e ▸ .head _)
        · exact fun e => (List.nodup_cons.1 hnd).1 (e ▸ hz)
      simp [Links.del, h4, hzx, hzy]

end Circular
