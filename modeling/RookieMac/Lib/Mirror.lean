import Mathlib

/-!
# A set and its mirror

A party announces each change to its set of keys and then makes it; its mirror makes the changes in
the order of the announcements, when they arrive. The party can also send the mirror a key it holds
(`copy`), and each of the two can clear its own set. So each of them listens to one stream of
changes, with its own delay.

Copies never part the two sets while each is of a key the party goes on to hold (`Ahead`). Clears do
not either, while no change that one side made after its last clear and the other before it has the
last word on a key (`Settled`).
-/

namespace Mirror

variable {κ : Type*}

/-! ## Changes -/

/-- A change: the key is learnt or forgotten. -/
structure Word (κ : Type*) where
  key : κ
  learnt : Bool

def Word.act (s : Set κ) (w : Word κ) : Set κ := if w.learnt then insert w.key s else s \ {w.key}

def play (s : Set κ) (ws : List (Word κ)) : Set κ := ws.foldl Word.act s

def said (ws : List (Word κ)) : Set κ := {k | ∃ w ∈ ws, w.key = k}

section Play

variable {s : Set κ} {k : κ} {w : Word κ}

theorem mem_act : k ∈ w.act s ↔ (k = w.key ∧ w.learnt = true) ∨ (k ≠ w.key ∧ k ∈ s) := by
  unfold Word.act
  rcases eq_or_ne k w.key with rfl | hk
  · split_ifs with hl <;> simp [hl]
  · split_ifs <;> simp [hk]

@[simp] theorem play_nil : play s [] = s := rfl

@[simp] theorem play_cons (ws : List (Word κ)) : play s (w :: ws) = play (w.act s) ws := rfl

theorem play_append (ws ws' : List (Word κ)) : play s (ws ++ ws') = play (play s ws) ws' :=
  List.foldl_append

theorem said_cons (ws : List (Word κ)) : k ∈ said (w :: ws) ↔ k = w.key ∨ k ∈ said ws := by
  constructor
  · rintro ⟨v, hv, rfl⟩
    rcases List.mem_cons.1 hv with rfl | hv
    · exact .inl rfl
    · exact .inr ⟨v, hv, rfl⟩
  · rintro (rfl | ⟨v, hv, rfl⟩)
    · exact ⟨w, .head _, rfl⟩
    · exact ⟨v, .tail _ hv, rfl⟩

/-- A key nothing is said of stays as it was. -/
theorem mem_play : ∀ (ws : List (Word κ)) {s : Set κ},
    k ∈ play s ws ↔ k ∈ play ∅ ws ∨ (k ∈ s ∧ k ∉ said ws)
  | [], s => by simp [said]
  | w :: ws, s => by
    rw [play_cons, play_cons, mem_play ws, mem_play (s := w.act ∅) ws, mem_act, mem_act, said_cons]
    simp only [Set.mem_empty_iff_false, and_false, or_false]
    tauto

theorem play_empty_subset (ws : List (Word κ)) : play ∅ ws ⊆ said ws := by
  intro k hk
  by_contra hs
  induction ws using List.reverseRecOn with
  | nil => exact hk
  | append_singleton ws w ih =>
    have hs' : k ∉ said ws ∧ k ≠ w.key := by
      refine ⟨fun ⟨v, hv, hvk⟩ => hs ⟨v, List.mem_append_left _ hv, hvk⟩, fun hkw => hs ⟨w, ?_⟩⟩
      exact ⟨List.mem_append_right _ (.head _), hkw.symm⟩
    rw [play_append, play_cons, play_nil, mem_act] at hk
    rcases hk with ⟨hkw, -⟩ | ⟨-, hk⟩
    · exact hs'.2 hkw
    · exact ih hk hs'.1

/-- Earlier changes do not show exactly when everything they leave is spoken of again. -/
theorem play_append_eq_iff (ws ws' : List (Word κ)) :
    play ∅ (ws ++ ws') = play ∅ ws' ↔ play ∅ ws ⊆ said ws' := by
  rw [play_append]
  constructor
  · intro h k hk
    by_contra hs
    have hin : k ∈ play (play ∅ ws) ws' := (mem_play ws').2 (.inr ⟨hk, hs⟩)
    rw [h] at hin
    exact hs (play_empty_subset ws' hin)
  · intro h
    ext k
    rw [mem_play ws']
    refine or_iff_left ?_
    rintro ⟨hk, hs⟩
    exact hs (h hk)

end Play

/-! ## Listeners -/

/-- The changes on their way, oldest first, those made since the last clear, and the number of
clears. -/
structure Ear (κ : Type*) where
  queue : List (Word κ)
  heard : List (Word κ)
  clears : ℕ

namespace Ear

def say (a : Ear κ) (w : Word κ) : Ear κ := { a with queue := a.queue ++ [w] }

def hear (a : Ear κ) : Ear κ :=
  match a.queue with
  | [] => a
  | w :: queue => { a with queue := queue, heard := a.heard ++ [w] }

def clear (a : Ear κ) : Ear κ := { a with heard := [], clears := a.clears + 1 }

def keys (s₀ : Set κ) (a : Ear κ) : Set κ := play (if a.clears = 0 then s₀ else ∅) a.heard

variable {s₀ : Set κ} {a : Ear κ} {w : Word κ} {ws : List (Word κ)}

theorem hear_queue (h : a.queue = w :: ws) : a.hear.queue = ws := by
  unfold hear
  rw [h]

theorem hear_clears : a.hear.clears = a.clears := by
  unfold hear
  split <;> rfl

theorem keys_hear (h : a.queue = w :: ws) : a.hear.keys s₀ = w.act (a.keys s₀) := by
  unfold hear
  rw [h]
  exact play_append _ _

/-- What the listener will hold once it has made the changes on their way. -/
def will (s₀ : Set κ) (a : Ear κ) : Set κ := play (a.keys s₀) a.queue

theorem will_say : (a.say w).will s₀ = w.act (a.will s₀) := play_append _ _

theorem will_hear : a.hear.will s₀ = a.will s₀ := by
  rcases h : a.queue with _ | ⟨w, ws⟩
  · rw [hear, h]
  · rw [will, keys_hear h, hear_queue h, will, h, play_cons]

/-- The listener is somewhere along the stream `l`. -/
structure Follows (l : List (Word κ)) (a : Ear κ) : Prop where
  suffix : a.heard ++ a.queue <:+ l
  whole : a.clears = 0 → a.heard ++ a.queue = l

variable {l : List (Word κ)}

theorem Follows.say (h : Follows l a) (w : Word κ) : Follows (l ++ [w]) (a.say w) := by
  have heq : (a.say w).heard ++ (a.say w).queue = (a.heard ++ a.queue) ++ [w] :=
    (List.append_assoc _ _ _).symm
  refine ⟨?_, fun hc => ?_⟩
  · rw [heq]
    obtain ⟨pre, hpre⟩ := h.suffix
    exact ⟨pre, by rw [← hpre, ← List.append_assoc]⟩
  · rw [heq, h.whole hc]

theorem Follows.hear (h : Follows l a) : Follows l a.hear := by
  rcases hq : a.queue with _ | ⟨w, ws⟩
  · rw [Ear.hear, hq]
    exact h
  · have heq : a.hear.heard ++ a.hear.queue = a.heard ++ a.queue := by
      simp only [Ear.hear, hq, List.append_assoc, List.singleton_append]
    exact ⟨heq ▸ h.suffix, fun hc => heq ▸ h.whole (hear_clears ▸ hc)⟩

theorem Follows.clear (h : Follows l a) : Follows l a.clear :=
  ⟨(List.suffix_append a.heard a.queue).trans h.suffix, fun hc => absurd hc (Nat.succ_ne_zero _)⟩

end Ear

/-! ## The pair -/

structure Pair (κ : Type*) where
  mirror : Ear κ
  origin : Ear κ

def Pair.start : Pair κ := ⟨⟨[], [], 0⟩, ⟨[], [], 0⟩⟩

inductive Event (κ : Type*)
  | announce (w : Word κ)
  | copy (k : κ)
  | deliver
  | perform
  | clearMirror
  | clearOrigin

def step (p : Pair κ) : Event κ → Pair κ
  | .announce w => ⟨p.mirror.say w, p.origin.say w⟩
  | .copy k => { p with mirror := p.mirror.say ⟨k, true⟩ }
  | .deliver => { p with mirror := p.mirror.hear }
  | .perform => { p with origin := p.origin.hear }
  | .clearMirror => { p with mirror := p.mirror.clear }
  | .clearOrigin => { p with origin := p.origin.clear }

variable {p : Pair κ} {s₀ : Set κ}

section Copies

def Ahead (s₀ : Set κ) (p : Pair κ) : Prop := p.mirror.will s₀ = p.origin.will s₀

/-- A copy is of a key that will stay, and nothing is cleared. -/
def Fresh (s₀ : Set κ) (p : Pair κ) : Event κ → Prop
  | .copy k => k ∈ p.origin.will s₀
  | .clearMirror | .clearOrigin => False
  | _ => True

theorem Ahead.step (h : Ahead s₀ p) (e : Event κ) (hc : Fresh s₀ p e) : Ahead s₀ (step p e) := by
  cases e with
  | announce w =>
    change (p.mirror.say w).will s₀ = (p.origin.say w).will s₀
    rw [Ear.will_say, Ear.will_say, h]
  | copy k =>
    change (p.mirror.say ⟨k, true⟩).will s₀ = p.origin.will s₀
    rw [Ear.will_say, h]
    exact Set.insert_eq_of_mem hc
  | deliver => exact Ear.will_hear.trans h
  | perform => exact h.trans Ear.will_hear.symm
  | clearMirror => exact hc.elim
  | clearOrigin => exact hc.elim

theorem Ahead.agree (h : Ahead s₀ p) (hm : p.mirror.queue = []) (ho : p.origin.queue = []) :
    p.mirror.keys s₀ = p.origin.keys s₀ := by
  rw [Ahead, Ear.will, Ear.will, hm, ho] at h
  exact h

end Copies

section Clears

/-- Of two suffixes of one stream, the changes that only the longer one has leave no key that the
shorter one does not speak of. -/
def Settled (ws ws' : List (Word κ)) : Prop :=
  ∀ pre, (ws = pre ++ ws' → play ∅ pre ⊆ said ws') ∧ (ws' = pre ++ ws → play ∅ pre ⊆ said ws)

theorem Settled.symm {ws ws' : List (Word κ)} (h : Settled ws ws') : Settled ws' ws :=
  fun pre => (h pre).symm

theorem settled_append_iff (pre ws : List (Word κ)) :
    Settled (pre ++ ws) ws ↔ play ∅ pre ⊆ said ws := by
  refine ⟨fun h => (h pre).1 rfl, fun h pre' => ⟨fun heq => ?_, fun heq => ?_⟩⟩
  · rwa [← List.append_cancel_right heq]
  · have hlen := congrArg List.length heq
    simp only [List.length_append] at hlen
    rw [List.eq_nil_of_length_eq_zero (by omega : pre'.length = 0)]
    exact Set.empty_subset _

def InStep (p : Pair κ) : Prop := ∃ l, p.mirror.Follows l ∧ p.origin.Follows l

theorem InStep.start : InStep (Pair.start : Pair κ) :=
  ⟨[], ⟨List.suffix_rfl, fun _ => rfl⟩, ⟨List.suffix_rfl, fun _ => rfl⟩⟩

theorem InStep.step (h : InStep p) (e : Event κ) (hc : ∀ k, e ≠ .copy k) : InStep (step p e) := by
  obtain ⟨l, hm, ho⟩ := h
  cases e with
  | announce w => exact ⟨l ++ [w], hm.say w, ho.say w⟩
  | copy k => exact absurd rfl (hc k)
  | deliver => exact ⟨l, hm.hear, ho⟩
  | perform => exact ⟨l, hm, ho.hear⟩
  | clearMirror => exact ⟨l, hm.clear, ho⟩
  | clearOrigin => exact ⟨l, hm, ho.clear⟩

/-- With nothing on its way and as many clears on either side, the sets are equal exactly when the
changes made on one side only are settled. -/
theorem InStep.agree_iff (h : InStep p) (hm : p.mirror.queue = []) (ho : p.origin.queue = [])
    (hc : p.mirror.clears = p.origin.clears) :
    p.mirror.keys s₀ = p.origin.keys s₀ ↔ Settled p.mirror.heard p.origin.heard := by
  obtain ⟨l, hml, hol⟩ := h
  have hms := hml.suffix
  have hos := hol.suffix
  have hmw := hml.whole
  have how := hol.whole
  rw [hm, List.append_nil] at hms hmw
  rw [ho, List.append_nil] at hos how
  unfold Ear.keys
  rw [hc]
  split_ifs with h0
  · rw [hmw (hc.trans h0), how h0]
    refine iff_of_true rfl ?_
    exact (settled_append_iff [] l).2 (Set.empty_subset _)
  · rcases List.suffix_or_suffix_of_suffix hms hos with ⟨pre, hpre⟩ | ⟨pre, hpre⟩
    · rw [← hpre, eq_comm, play_append_eq_iff, ← settled_append_iff]
      exact ⟨Settled.symm, Settled.symm⟩
    · rw [← hpre, play_append_eq_iff, settled_append_iff]

end Clears

end Mirror
