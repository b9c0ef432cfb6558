import Mathlib

/-!
# Queues in a row

Messages that pass from one program to the next wait in a queue before each. Every queue is first in
first out, a program takes a message off the one before it and puts it on the one behind it, and may
lose it there. However the programs take turns, what is in the row, the oldest first, is what was
fed to it in order, less what was lost; where nothing was, the last queue is a prefix of it.
-/

namespace Hops

variable {α : Type*}

/-- What is in the row, the oldest first: the first queue is the one that is fed. -/
def content : List (List α) → List α
  | [] => []
  | q :: qs => content qs ++ q

/-- A message is passed on, or lost. -/
inductive Hop : Bool → List (List α) → List (List α) → Prop
  | pass (a : α) (q q' : List α) (qs : List (List α)) :
      Hop true ((a :: q) :: q' :: qs) (q :: (q' ++ [a]) :: qs)
  | lose (a : α) (q q' : List α) (qs : List (List α)) :
      Hop false ((a :: q) :: q' :: qs) (q :: q' :: qs)
  | later {b : Bool} {qs qs' : List (List α)} (q : List α) :
      Hop b qs qs' → Hop b (q :: qs) (q :: qs')

/-- The rows that feeding the messages can lead to, and whether every one is still there. -/
inductive Fed : Bool → List α → List (List α) → Prop
  | start (n : ℕ) : Fed true [] (List.replicate n [])
  | feed {b : Bool} {as q : List α} {qs : List (List α)} (a : α) :
      Fed b as (q :: qs) → Fed b (as ++ [a]) ((q ++ [a]) :: qs)
  | miss {b : Bool} {as : List α} {qs : List (List α)} (a : α) :
      Fed b as qs → Fed false (as ++ [a]) qs
  | hop {b b' : Bool} {as : List α} {qs qs' : List (List α)} :
      Fed b as qs → Hop b' qs qs' → Fed (b && b') as qs'

@[simp] theorem content_nil : content ([] : List (List α)) = [] := rfl

@[simp] theorem content_cons (q : List α) (qs : List (List α)) :
    content (q :: qs) = content qs ++ q := rfl

theorem content_replicate : ∀ n : ℕ, content (List.replicate n ([] : List α)) = []
  | 0 => rfl
  | n + 1 => by rw [List.replicate_succ, content_cons, content_replicate n, List.append_nil]

theorem Hop.content_eq {b : Bool} {qs qs' : List (List α)} (h : Hop b qs qs') (hb : b = true) :
    content qs' = content qs := by
  induction h with
  | pass a q q' qs => simp
  | lose a q q' qs => cases hb
  | later q _ ih => rw [content_cons, content_cons, ih hb]

theorem Hop.sublist {b : Bool} {qs qs' : List (List α)} (h : Hop b qs qs') :
    (content qs').Sublist (content qs) := by
  induction h with
  | pass a q q' qs => simp
  | lose a q q' qs =>
    simp only [content_cons]
    exact (List.sublist_cons_self a q).append_left _
  | later q _ ih => exact ih.append_right q

theorem Hop.append {b : Bool} {qs qs' : List (List α)} (h : Hop b qs qs') :
    ∀ pre : List (List α), Hop b (pre ++ qs) (pre ++ qs')
  | [] => h
  | q :: pre => .later q (h.append pre)

/-- A program takes the oldest message of a queue and passes it on if it can. -/
theorem Fed.relay {b : Bool} {as : List α} (pre : List (List α)) {a : α} {q q' : List α}
    {qs : List (List α)} (h : Fed b as (pre ++ (a :: q) :: q' :: qs)) (passed : Bool) :
    Fed (b && passed) as (pre ++ q :: (q' ++ if passed then [a] else []) :: qs) := by
  refine h.hop (Hop.append ?_ pre)
  cases passed with
  | true => exact .pass a q q' qs
  | false =>
    rw [if_neg Bool.false_ne_true, List.append_nil]
    exact .lose a q q' qs

/-- Nothing is added and nothing changes places. -/
theorem Fed.sublist {b : Bool} {as : List α} {qs : List (List α)} (h : Fed b as qs) :
    (content qs).Sublist as := by
  induction h with
  | start n => rw [content_replicate]
  | feed a _ ih =>
    rw [content_cons, ← List.append_assoc]
    exact ih.append_right [a]
  | miss a _ ih => exact ih.trans (List.sublist_append_left _ _)
  | hop _ hop ih => exact hop.sublist.trans ih

theorem Fed.content_eq {b : Bool} {as : List α} {qs : List (List α)} (h : Fed b as qs)
    (hb : b = true) : content qs = as := by
  induction h with
  | start n => exact content_replicate n
  | feed a _ ih => rw [content_cons, ← List.append_assoc, ← content_cons, ih hb]
  | miss a _ ih => cases hb
  | hop _ hop ih =>
    obtain ⟨hb, hb'⟩ := Bool.and_eq_true_iff.1 hb
    rw [hop.content_eq hb', ih hb]

theorem Fed.feed_all {b : Bool} {qs : List (List α)} : ∀ (new : List α) {as : List α}
    {q : List α}, Fed b as (q :: qs) → Fed b (as ++ new) ((q ++ new) :: qs)
  | [], as, q, h => by rwa [List.append_nil, List.append_nil]
  | a :: new, as, q, h => by
    have := Fed.feed_all new (h.feed a)
    rwa [List.append_assoc, List.append_assoc] at this

end Hops
