import RookieMac.Lib.Runs

/-!
# Two parties that send each other their value

Each party reads its value once, to be sent to the other, and stores once what the other has sent.
Where a party stores before it reads, it sends back what it got and the two agree from then on.
Where each reads before it stores, they swap their values.
-/

namespace Exchange

open Runs

variable {α : Type*}

/-- The values of the two parties, what each has read for the other, and whether it has stored. -/
structure Pair (α : Type*) where
  val : Bool → α
  sent : Bool → Option α
  stored : Bool → Bool

inductive Move
  | read (p : Bool)
  | store (p : Bool)

def Pair.send (s : Pair α) (p : Bool) : Pair α :=
  { s with sent := Function.update s.sent p (some (s.val p)) }

def Pair.take (s : Pair α) (p : Bool) (v : α) : Pair α :=
  { s with val := Function.update s.val p v, stored := Function.update s.stored p true }

def step (s : Pair α) : Move → Option (Pair α)
  | .read p =>
    match s.sent p with
    | none => some (s.send p)
    | some _ => none
  | .store p =>
    match s.sent (!p), s.stored p with
    | some v, false => some (s.take p v)
    | _, _ => none

def start (v₀ : Bool → α) : Pair α := ⟨v₀, fun _ => none, fun _ => false⟩

section Fields

variable (s : Pair α) (p : Bool) (v : α)

@[simp] theorem send_val : (s.send p).val = s.val := rfl

@[simp] theorem send_stored : (s.send p).stored = s.stored := rfl

theorem send_sent : (s.send p).sent = Function.update s.sent p (some (s.val p)) := rfl

theorem take_val : (s.take p v).val = Function.update s.val p v := rfl

@[simp] theorem take_sent : (s.take p v).sent = s.sent := rfl

theorem take_stored : (s.take p v).stored = Function.update s.stored p true := rfl

end Fields

/-- The party reads its value before it stores the other's. -/
def ReadFirst (p : Bool) (ms : List Move) : Prop := Before (· = .read p) (· = .store p) ms

theorem readFirst_concat {p : Bool} {m : Move} {ms : List Move} :
    ReadFirst p (ms ++ [m]) ↔ ReadFirst p ms ∨ .read p ∈ ms ∧ m = .store p := by
  rw [ReadFirst, before_concat]
  simp [ReadFirst]

/-- What the moves so far say of the state. -/
structure History (ms : List Move) (s : Pair α) : Prop where
  sent_iff : ∀ p, s.sent p ≠ none ↔ .read p ∈ ms
  stored_iff : ∀ p, s.stored p = true ↔ .store p ∈ ms
  sent_of_stored : ∀ p, s.stored p = true → s.sent (!p) ≠ none

/-- No party has stored without reading first: each has its own value or the other's. -/
structure Swapping (v₀ : Bool → α) (ms : List Move) (s : Pair α) : Prop where
  readFirst : ∀ p, .store p ∈ ms → ReadFirst p ms
  val_eq : ∀ p, s.val p = if s.stored p then v₀ (!p) else v₀ p
  sent_eq : ∀ p v, s.sent p = some v → v = v₀ p

/-- A party has stored without reading first: there is one value left. -/
structure Settled (ms : List Move) (s : Pair α) (v : α) : Prop where
  val_eq : ∀ p, s.val p = v
  sent_eq : ∀ p w, s.sent p = some w → w = v
  early : ∃ p, .store p ∈ ms ∧ ¬ ReadFirst p ms

variable {v₀ : Bool → α} {ms : List Move} {s s' : Pair α} {p : Bool}

theorem step_read (hs : step s (.read p) = some s') :
    s.sent p = none ∧ s' = s.send p := by
  simp only [step] at hs
  split at hs
  · rename_i h
    exact ⟨h, (Option.some.inj hs).symm⟩
  · cases hs

theorem step_store (hs : step s (.store p) = some s') :
    ∃ v, s.sent (!p) = some v ∧ s.stored p = false ∧ s' = s.take p v := by
  simp only [step] at hs
  split at hs
  · rename_i v h h'
    exact ⟨v, h, h', (Option.some.inj hs).symm⟩
  · cases hs

theorem History.next (h : History ms s) {m : Move} (hs : step s m = some s') :
    History (ms ++ [m]) s' := by
  cases m with
  | read p =>
    obtain ⟨hn, rfl⟩ := step_read hs
    refine ⟨fun q => ?_, fun q => by simp [h.stored_iff q], fun q hq => ?_⟩
    · rw [send_sent]
      rcases eq_or_ne q p with rfl | hqp
      · simp
      · simp [hqp, h.sent_iff q]
    · rw [send_sent]
      rcases eq_or_ne (!q) p with hqp | hqp
      · simp [hqp]
      · rw [Function.update_of_ne hqp]
        exact h.sent_of_stored q hq
  | store p =>
    obtain ⟨v, hv, hn, rfl⟩ := step_store hs
    refine ⟨fun q => by simp [h.sent_iff q], fun q => ?_, fun q hq => ?_⟩
    · rw [take_stored]
      rcases eq_or_ne q p with rfl | hqp
      · simp
      · simp [hqp, h.stored_iff q]
    · rw [take_stored] at hq
      rcases eq_or_ne q p with rfl | hqp
      · simp [hv]
      · rw [Function.update_of_ne hqp] at hq
        exact h.sent_of_stored q hq

/-- A move that is not a second store leaves the order of a party's moves. -/
theorem History.early_concat (h : History ms s) {m : Move} (hs : step s m = some s')
    (he : ∃ p, .store p ∈ ms ∧ ¬ ReadFirst p ms) :
    ∃ p, .store p ∈ ms ++ [m] ∧ ¬ ReadFirst p (ms ++ [m]) := by
  obtain ⟨p, hp, hr⟩ := he
  refine ⟨p, List.mem_append_left _ hp, ?_⟩
  rw [readFirst_concat, not_or]
  refine ⟨hr, ?_⟩
  rintro ⟨-, rfl⟩
  obtain ⟨-, -, hn, -⟩ := step_store hs
  rw [(h.stored_iff p).2 hp] at hn
  cases hn

theorem Settled.next {v : α} (hh : History ms s) (h : Settled ms s v) {m : Move}
    (hs : step s m = some s') : Settled (ms ++ [m]) s' v := by
  have hearly := hh.early_concat hs h.early
  cases m with
  | read p =>
    obtain ⟨hn, rfl⟩ := step_read hs
    refine ⟨h.val_eq, fun q w hw => ?_, hearly⟩
    rw [send_sent] at hw
    rcases eq_or_ne q p with rfl | hqp
    · rw [Function.update_self] at hw
      rw [← Option.some.inj hw, h.val_eq]
    · rw [Function.update_of_ne hqp] at hw
      exact h.sent_eq q w hw
  | store p =>
    obtain ⟨w, hw, -, rfl⟩ := step_store hs
    refine ⟨fun q => ?_, h.sent_eq, hearly⟩
    rw [take_val]
    rcases eq_or_ne q p with rfl | hqp
    · rw [Function.update_self, h.sent_eq _ w hw]
    · rw [Function.update_of_ne hqp, h.val_eq]

theorem Swapping.read (hh : History ms s) (h : Swapping v₀ ms s) (hs : step s (.read p) = some s') :
    Swapping v₀ (ms ++ [.read p]) s' := by
  obtain ⟨hn, rfl⟩ := step_read hs
  refine ⟨fun q hq => ?_, h.val_eq, fun q w hw => ?_⟩
  · rcases List.mem_append.1 hq with hq | hq
    · exact readFirst_concat.2 (.inl (h.readFirst q hq))
    · cases List.mem_singleton.1 hq
  · rw [send_sent] at hw
    rcases eq_or_ne q p with rfl | hqp
    · rw [Function.update_self] at hw
      rw [← Option.some.inj hw, h.val_eq, if_neg]
      intro hst
      -- it has stored, so it has read
      obtain ⟨e, he, rfl⟩ := (h.readFirst q ((hh.stored_iff q).1 hst)).exists_left
      exact (hh.sent_iff q).2 he hn
    · rw [Function.update_of_ne hqp] at hw
      exact h.sent_eq q w hw

theorem Swapping.store (hh : History ms s) (h : Swapping v₀ ms s)
    (hs : step s (.store p) = some s') :
    Swapping v₀ (ms ++ [.store p]) s' ∨ Settled (ms ++ [.store p]) s' (v₀ (!p)) := by
  obtain ⟨w, hw, hn, rfl⟩ := step_store hs
  obtain rfl := h.sent_eq _ w hw
  by_cases hr : .read p ∈ ms
  · refine .inl ⟨fun q hq => ?_, fun q => ?_, h.sent_eq⟩
    · rw [readFirst_concat]
      rcases List.mem_append.1 hq with hq | hq
      · exact .inl (h.readFirst q hq)
      · obtain rfl := Move.store.inj (List.mem_singleton.1 hq)
        exact .inr ⟨hr, rfl⟩
    · rw [take_val, take_stored]
      rcases eq_or_ne q p with rfl | hqp
      · simp
      · rw [Function.update_of_ne hqp, Function.update_of_ne hqp, h.val_eq]
  · -- the other has not stored either, for there was nothing sent to store
    have hsent : s.sent p = none := by
      by_contra hne
      exact hr ((hh.sent_iff p).1 hne)
    have hother : s.stored (!p) = false := by
      rcases hst : s.stored (!p) with _ | _
      · rfl
      · exact absurd hsent (by simpa using hh.sent_of_stored (!p) hst)
    refine .inr ⟨fun q => ?_, fun q v hv => ?_, p, List.mem_append_right _ (.head _), ?_⟩
    · rw [take_val]
      rcases eq_or_ne q p with rfl | hqp
      · rw [Function.update_self]
      · obtain rfl : q = !p := by cases p <;> cases q <;> simp_all
        rw [Function.update_of_ne hqp, h.val_eq, hother]
        rfl
    · rw [take_sent] at hv
      rcases eq_or_ne q p with rfl | hqp
      · rw [hsent] at hv
        cases hv
      · obtain rfl : q = !p := by cases p <;> cases q <;> simp_all
        exact h.sent_eq _ v hv
    · rw [readFirst_concat, not_or]
      refine ⟨fun hrf => ?_, fun hrf => hr hrf.1⟩
      obtain ⟨e, he, rfl⟩ := hrf.exists_left
      exact hr he

/-- What the moves of a run make of the two values. -/
theorem run_cases (hp : Path step (start v₀) ms s) :
    History ms s ∧ (Swapping v₀ ms s ∨ ∃ v, Settled ms s v) := by
  refine hp.history (I := fun ms s => History ms s ∧ (Swapping v₀ ms s ∨ ∃ v, Settled ms s v))
    ?_ [] ?_
  · rintro ms s m s' ⟨hh, hs | ⟨v, hs⟩⟩ hstep
    · refine ⟨hh.next hstep, ?_⟩
      cases m with
      | read p => exact .inl (hs.read hh hstep)
      | store p => exact (hs.store hh hstep).imp id fun h => ⟨_, h⟩
    · exact ⟨hh.next hstep, .inr ⟨v, hs.next hh hstep⟩⟩
  · refine ⟨⟨fun p => by simp [start], fun p => by simp [start], fun p h => ?_⟩, .inl ⟨?_, ?_, ?_⟩⟩
    · cases h
    · simp
    · simp [start]
    · simp [start]

/-- After a run the two agree exactly when they did before it, or one of them has stored and one has
not read before it stored. -/
theorem agree_iff (hp : Path step (start v₀) ms s) : s.val true = s.val false
    ↔ v₀ true = v₀ false ∨ (∃ p, .store p ∈ ms) ∧ ∃ p, ¬ ReadFirst p ms := by
  obtain ⟨hh, hs | ⟨v, hs⟩⟩ := run_cases hp
  · have hst : ∀ p, .store p ∈ ms ↔ s.stored p = true := fun p => (hh.stored_iff p).symm
    have hrf : ∀ p, ReadFirst p ms ↔ s.stored p = true := fun p => by
      rw [← hst]
      refine ⟨fun h => ?_, hs.readFirst p⟩
      obtain ⟨e, he, rfl⟩ := h.exists_right
      exact he
    simp only [hst, hrf, hs.val_eq, Bool.exists_bool, Bool.not_true, Bool.not_false]
    cases s.stored true <;> cases s.stored false <;> simp [eq_comm]
  · obtain ⟨p, hp, hr⟩ := hs.early
    exact iff_of_true ((hs.val_eq true).trans (hs.val_eq false).symm) (.inr ⟨⟨p, hp⟩, p, hr⟩)

end Exchange
