import RookieMac.Lib.Runs

/-!
# Calls that take effect at once

Threads call functions that share a state. A function takes the mutex of the state, accesses it one
access at a time, and releases the mutex before it returns, or keeps it; functions that take no
mutex change only a state beside it, and may read the shared one in the middle of a change.

However the accesses of the threads are interleaved, the calls take effect one after the other, in
the order in which they take the mutex: `Linear.replay_eq` for the state, and for what the calls
return `returned_between`, which also places each call between its beginning and its end.
-/

namespace Atomic

open Runs

/-! ## Programs -/

/-- What a function does while it holds the mutex: it reads and changes the shared state, or changes
the one beside it. -/
inductive Accesses (σ κ α : Type)
  | ret (a : α)
  | access (f : σ → σ) (next : σ → Accesses σ κ α)
  | put (f : κ → κ) (next : Accesses σ κ α)

namespace Accesses

variable {σ κ α β : Type}

def bind : Accesses σ κ α → (α → Accesses σ κ β) → Accesses σ κ β
  | ret a, k => k a
  | access f next, k => access f fun s => (next s).bind k
  | put f next, k => put f (next.bind k)

instance : Monad (Accesses σ κ) where
  pure := ret
  bind := bind

def read (g : σ → α) : Accesses σ κ α := access id fun s => ret (g s)

def write (f : σ → σ) : Accesses σ κ Unit := access f fun _ => ret ()

def writeBeside (f : κ → κ) : Accesses σ κ Unit := put f (ret ())

/-- What the accesses come to if no other thread has any in between. -/
def exec : Accesses σ κ α → σ → α × σ
  | ret a, s => (a, s)
  | access f next, s => (next s).exec (f s)
  | put _ next, s => next.exec s

@[simp] theorem exec_pure (a : α) (s : σ) : (pure a : Accesses σ κ α).exec s = (a, s) := rfl

@[simp] theorem exec_read (g : σ → α) (s : σ) : (read g : Accesses σ κ α).exec s = (g s, s) := rfl

@[simp] theorem exec_write (f : σ → σ) (s : σ) : (write f : Accesses σ κ Unit).exec s = ((), f s) :=
  rfl

@[simp] theorem exec_writeBeside (f : κ → κ) (s : σ) :
    (writeBeside f : Accesses σ κ Unit).exec s = ((), s) := rfl

@[simp] theorem exec_bind (p : Accesses σ κ α) (k : α → Accesses σ κ β) (s : σ) :
    (p >>= k).exec s = (k (p.exec s).1).exec (p.exec s).2 := by
  change (p.bind k).exec s = _
  induction p generalizing s with
  | ret a => rfl
  | access f next ih => exact ih s (f s)
  | put f next ih => exact ih s

@[simp] theorem exec_ite {c : Prop} [Decidable c] (p q : Accesses σ κ α) (s : σ) :
    (if c then p else q).exec s = if c then p.exec s else q.exec s := by
  split_ifs <;> rfl

end Accesses

/-- A function without the mutex. -/
inductive Bare (σ κ : Type)
  | ended
  | step (f : σ → κ → κ) (next : σ → κ → Bare σ κ)

/-- The functions: of a `γ`, what it returns where it does not come to the mutex, or what it does
under it, with whether it keeps the mutex; of a `δ`, what it does without. -/
structure System (σ κ γ δ ρ : Type) where
  call : γ → ρ ⊕ Accesses σ κ (Bool × ρ)
  bare : δ → Bare σ κ

/-! ## Threads -/

/-- What a thread is at. -/
inductive Doing (σ κ γ ρ : Type)
  | idle
  | waiting (c : γ) (p : Accesses σ κ (Bool × ρ))
  | inside (c : γ) (p : Accesses σ κ (Bool × ρ))
  | bare (b : Bare σ κ)

def Doing.Outside {σ κ γ ρ : Type} (d : Doing σ κ γ ρ) : Prop := ∀ c p, d ≠ .inside c p

structure State (τ σ κ γ ρ : Type) where
  shared : σ
  beside : κ
  holder : Option τ
  doing : τ → Doing σ κ γ ρ
  /-- The calls that have come to the mutex and taken it, or have returned without, in order. -/
  log : List (τ × γ)
  returned : τ → List (γ × ρ)

inductive Event (τ γ δ : Type)
  | call (t : τ) (c : γ)
  | callBare (t : τ) (b : δ)
  | run (t : τ)

section Steps

variable {τ σ κ γ δ ρ : Type} [DecidableEq τ]

namespace State

def start (s : σ) (k : κ) : State τ σ κ γ ρ := ⟨s, k, none, fun _ => .idle, [], fun _ => []⟩

/-- The thread is at `d`. -/
def goes (s : State τ σ κ γ ρ) (t : τ) (d : Doing σ κ γ ρ) : τ → Doing σ κ γ ρ :=
  Function.update s.doing t d

def returns (s : State τ σ κ γ ρ) (t : τ) (c : γ) (r : ρ) : τ → List (γ × ρ) :=
  Function.update s.returned t (s.returned t ++ [(c, r)])

end State

variable (sys : System σ κ γ δ ρ)

def step (s : State τ σ κ γ ρ) : Event τ γ δ → Option (State τ σ κ γ ρ)
  | .call t c =>
    match s.doing t with
    | .idle =>
      match sys.call c with
      | .inl r => some { s with log := s.log ++ [(t, c)], returned := s.returns t c r }
      | .inr p => some { s with doing := s.goes t (.waiting c p) }
    | _ => none
  | .callBare t b =>
    match s.doing t with
    | .idle => some { s with doing := s.goes t (.bare (sys.bare b)) }
    | _ => none
  | .run t =>
    match s.doing t with
    | .idle => none
    | .waiting c p =>
      if s.holder = none then some { s with
        holder := some t, doing := s.goes t (.inside c p), log := s.log ++ [(t, c)] }
      else none
    | .inside c (.ret (kept, r)) =>
      some { s with
        holder := if kept then some t else none
        doing := s.goes t .idle
        returned := s.returns t c r }
    | .inside c (.access f next) =>
      some { s with shared := f s.shared, doing := s.goes t (.inside c (next s.shared)) }
    | .inside c (.put f next) =>
      some { s with beside := f s.beside, doing := s.goes t (.inside c next) }
    | .bare .ended => some { s with doing := s.goes t .idle }
    | .bare (.step f next) =>
      some { s with
        beside := f s.shared s.beside, doing := s.goes t (.bare (next s.shared s.beside)) }

/-- What a step can do. -/
inductive Moves (s : State τ σ κ γ ρ) : Event τ γ δ → State τ σ κ γ ρ → Prop
  | direct {t c r} (hidle : s.doing t = .idle) (hcall : sys.call c = .inl r) :
      Moves s (.call t c) { s with log := s.log ++ [(t, c)], returned := s.returns t c r }
  | call {t c p} (hidle : s.doing t = .idle) (hcall : sys.call c = .inr p) :
      Moves s (.call t c) { s with doing := s.goes t (.waiting c p) }
  | callBare {t b} (hidle : s.doing t = .idle) :
      Moves s (.callBare t b) { s with doing := s.goes t (.bare (sys.bare b)) }
  | lock {t c p} (hwait : s.doing t = .waiting c p) (hfree : s.holder = none) :
      Moves s (.run t) { s with
        holder := some t, doing := s.goes t (.inside c p), log := s.log ++ [(t, c)] }
  | leave {t c kept r} (hin : s.doing t = .inside c (.ret (kept, r))) :
      Moves s (.run t) { s with
        holder := if kept then some t else none
        doing := s.goes t .idle
        returned := s.returns t c r }
  | access {t c f next} (hin : s.doing t = .inside c (.access f next)) :
      Moves s (.run t)
        { s with shared := f s.shared, doing := s.goes t (.inside c (next s.shared)) }
  | put {t c f next} (hin : s.doing t = .inside c (.put f next)) :
      Moves s (.run t) { s with beside := f s.beside, doing := s.goes t (.inside c next) }
  | ended {t} (hbare : s.doing t = .bare .ended) : Moves s (.run t) { s with doing := s.goes t .idle }
  | bare {t f next} (hbare : s.doing t = .bare (.step f next)) :
      Moves s (.run t) { s with
        beside := f s.shared s.beside, doing := s.goes t (.bare (next s.shared s.beside)) }

variable {sys} {s s' : State τ σ κ γ ρ} {e : Event τ γ δ}

theorem step_moves (h : step sys s e = some s') : Moves sys s e s' := by
  cases e with
  | call t c =>
    unfold step at h
    rcases hd : s.doing t with _ | _ | _ | _ <;> simp only [hd, reduceCtorEq] at h
    rcases hc : sys.call c with r | p <;> simp only [hc, Option.some.injEq] at h <;> subst h
    · exact .direct hd hc
    · exact .call hd hc
  | callBare t b =>
    unfold step at h
    rcases hd : s.doing t with _ | _ | _ | _ <;>
      simp only [hd, reduceCtorEq, Option.some.injEq] at h
    subst h
    exact .callBare hd
  | run t =>
    unfold step at h
    rcases hd : s.doing t with _ | ⟨c, p⟩ | ⟨c, _ | _ | _⟩ | (_ | _) <;>
      simp only [hd, reduceCtorEq, Option.some.injEq, Option.ite_none_right_eq_some] at h
    · obtain ⟨hfree, rfl⟩ := h
      exact .lock hd hfree
    all_goals subst h
    · exact .leave hd
    · exact .access hd
    · exact .put hd
    · exact .ended hd
    · exact .bare hd

end Steps

/-! ## One call after the other -/

section Replay

variable {τ σ κ γ δ ρ : Type} (sys : System σ κ γ δ ρ)

def System.answer (c : γ) (s : σ) : ρ :=
  match sys.call c with
  | .inl r => r
  | .inr p => (p.exec s).1.2

/-- A call that has all its accesses at once: whether it keeps the mutex, and the state. -/
def System.take (x : Bool × σ) (y : τ × γ) : Bool × σ :=
  match sys.call y.2 with
  | .inl _ => x
  | .inr p => ((p.exec x.2).1.1, (p.exec x.2).2)

def System.replay (s : σ) (log : List (τ × γ)) : Bool × σ := log.foldl sys.take (false, s)

/-- The call can take effect: no call before it has kept the mutex, or it does not come to it. -/
def System.Enters (x : Bool × σ) (y : τ × γ) : Prop := x.1 = true → ∃ r, sys.call y.2 = .inl r

variable [DecidableEq τ]

/-- What the calls of a thread return. -/
def System.results (t : τ) : Bool × σ → List (τ × γ) → List (γ × ρ)
  | _, [] => []
  | x, y :: log =>
    (if y.1 = t then [(y.2, sys.answer y.2 x.2)] else []) ++ results t (sys.take x y) log

variable {sys}

omit [DecidableEq τ] in
theorem replay_concat (s : σ) (log : List (τ × γ)) (y : τ × γ) :
    sys.replay s (log ++ [y]) = sys.take (sys.replay s log) y := by
  simp [System.replay]

theorem results_append (t : τ) : ∀ (x : Bool × σ) (log log' : List (τ × γ)),
    sys.results t x (log ++ log')
      = sys.results t x log ++ sys.results t (log.foldl sys.take x) log'
  | _, [], _ => rfl
  | x, y :: log, log' => by
    rw [List.cons_append, System.results, System.results, results_append t _ log log',
      List.foldl_cons, List.append_assoc]

theorem results_concat (t t' : τ) (c : γ) (s : σ) (log : List (τ × γ)) :
    sys.results t (false, s) (log ++ [(t', c)]) = sys.results t (false, s) log
      ++ if t' = t then [(c, sys.answer c (sys.replay s log).2)] else [] := by
  rw [results_append, System.results, System.results, List.append_nil, System.replay]

/-- A result is the answer to a call in the state that the calls before it leave. -/
theorem mem_results {t : τ} {z : γ × ρ} : ∀ {x : Bool × σ} {log : List (τ × γ)},
    z ∈ sys.results t x log → ∃ l, l ++ [(t, z.1)] <+: log
      ∧ z.2 = sys.answer z.1 (l.foldl sys.take x).2
  | x, y :: log, h => by
    rw [System.results, List.mem_append] at h
    rcases h with h | h
    · split_ifs at h with ht
      · obtain rfl := List.mem_singleton.1 h
        exact ⟨[], by simp [← ht], rfl⟩
      · exact absurd h List.not_mem_nil
    · obtain ⟨l, hl, hz⟩ := mem_results h
      exact ⟨y :: l, List.cons_prefix_cons.2 ⟨rfl, hl⟩, hz⟩

end Replay

/-! ## Interleavings -/

section Linear

variable {τ σ κ γ δ ρ : Type} [DecidableEq τ] {sys : System σ κ γ δ ρ}

namespace State

/-- Whether the mutex ends kept, and what the shared state ends as, when the thread inside goes on
alone. -/
def ends (s : State τ σ κ γ ρ) : Bool × σ :=
  match s.holder with
  | none => (false, s.shared)
  | some t =>
    match s.doing t with
    | .inside _ p => ((p.exec s.shared).1.1, (p.exec s.shared).2)
    | _ => (true, s.shared)

/-- What a thread inside will return. -/
def due (s : State τ σ κ γ ρ) (t : τ) : List (γ × ρ) :=
  match s.doing t with
  | .inside c p => [(c, (p.exec s.shared).1.2)]
  | _ => []

end State

variable (sys) in
/-- The state is that of the calls in the log, each at once, but for what the thread inside has yet
to do. -/
structure Linear (s₀ : σ) (s : State τ σ κ γ ρ) : Prop where
  inside : ∀ {t c p}, s.doing t = .inside c p → s.holder = some t
  waiting : ∀ {t c p}, s.doing t = .waiting c p → sys.call c = .inr p
  state : sys.replay s₀ s.log = s.ends
  results : ∀ t, sys.results t (false, s₀) s.log = s.returned t ++ s.due t
  enters : Each sys.take sys.Enters (false, s₀) s.log

variable {s₀ : σ} {s s' : State τ σ κ γ ρ} {t : τ} {c : γ} {d : Doing σ κ γ ρ}

@[simp] theorem goes_self : s.goes t d t = d := Function.update_self ..

theorem goes_of_ne {t' : τ} (h : t' ≠ t) : s.goes t d t' = s.doing t' := Function.update_of_ne h ..

theorem returns_eq (r : ρ) (t' : τ) :
    s.returns t c r t' = s.returned t' ++ if t = t' then [(c, r)] else [] := by
  by_cases h : t = t'
  · subst h
    simp [State.returns]
  · simp [State.returns, h, Function.update_of_ne (Ne.symm h)]

theorem ends_goes (ht : (s.doing t).Outside) (hd : d.Outside) :
    State.ends { s with doing := s.goes t d } = s.ends := by
  unfold State.ends
  rcases hh : s.holder with _ | t'
  · rfl
  · by_cases h : t' = t
    · subst h
      have hout : ∀ {d' : Doing σ κ γ ρ}, d'.Outside → (match d' with
          | .inside _ p => ((p.exec s.shared).1.1, (p.exec s.shared).2)
          | _ => (true, s.shared)) = (true, s.shared) := by
        intro d' hd'
        rcases d' with _ | _ | ⟨c, p⟩ | _
        · rfl
        · rfl
        · exact absurd rfl (hd' c p)
        · rfl
      simp only [goes_self]
      rw [hout hd, hout ht]
    · simp only [goes_of_ne h]

omit [DecidableEq τ] in
theorem due_of_outside (h : (s.doing t).Outside) : s.due t = [] := by
  unfold State.due
  split
  · rename_i c p hd
    exact absurd hd (h c p)
  · rfl

namespace Linear

theorem start (s₀ : σ) (k : κ) : Linear sys s₀ (.start s₀ k : State τ σ κ γ ρ) where
  inside := by rintro _ _ _ ⟨⟩
  waiting := by rintro _ _ _ ⟨⟩
  state := rfl
  results _ := rfl
  enters := trivial

/-- Only the thread that holds the mutex is inside. -/
theorem outside (h : Linear sys s₀ s) {t' : τ} (ht : s.holder = some t) (hne : t' ≠ t) :
    (s.doing t').Outside := by
  intro c p hd
  have := (h.inside hd).symm.trans ht
  exact hne (Option.some.inj this)

theorem outside_of_free (h : Linear sys s₀ s) (hfree : s.holder = none) (t : τ) :
    (s.doing t).Outside := by
  intro c p hd
  have := (h.inside hd).symm.trans hfree
  cases this

theorem ends_of_inside (h : Linear sys s₀ s) {p : Accesses σ κ (Bool × ρ)}
    (hd : s.doing t = .inside c p) : s.ends = ((p.exec s.shared).1.1, (p.exec s.shared).2) := by
  simp [State.ends, h.inside hd, hd]

/-- A thread that is not inside goes on, and does not come inside. -/
theorem goes_outside (h : Linear sys s₀ s) (ht : (s.doing t).Outside)
    (hd : d.Outside) (hwait : ∀ c p, d = .waiting c p → sys.call c = .inr p) :
    Linear sys s₀ { s with doing := s.goes t d } where
  inside := by
    intro t' c p hin
    by_cases hne : t' = t
    · subst hne
      exact absurd (goes_self.symm.trans hin) (hd c p)
    · exact h.inside ((goes_of_ne hne).symm.trans hin)
  waiting := by
    intro t' c p hw
    by_cases hne : t' = t
    · subst hne
      exact hwait c p (goes_self.symm.trans hw)
    · exact h.waiting ((goes_of_ne hne).symm.trans hw)
  state := by rw [ends_goes ht hd]; exact h.state
  results t' := by
    have hdue : State.due { s with doing := s.goes t d } t' = s.due t' := by
      by_cases hne : t' = t
      · subst hne
        rw [due_of_outside ht, due_of_outside]
        simpa using hd
      · simp only [State.due, goes_of_ne hne]
    rw [hdue]
    exact h.results t'
  enters := h.enters

/-- The thread inside goes on, to the same end. -/
theorem goes_inside (h : Linear sys s₀ s) {p : Accesses σ κ (Bool × ρ)}
    (hd : s.doing t = .inside c p) (p' : Accesses σ κ (Bool × ρ)) (x : σ)
    (hexec : p'.exec x = p.exec s.shared) :
    Linear sys s₀ { s with shared := x, doing := s.goes t (.inside c p') } where
  inside := by
    intro t' c' q hin
    by_cases hne : t' = t
    · subst hne
      exact h.inside hd
    · exact h.inside ((goes_of_ne hne).symm.trans hin)
  waiting := by
    intro t' c' q hw
    by_cases hne : t' = t
    · subst hne
      cases goes_self.symm.trans hw
    · exact h.waiting ((goes_of_ne hne).symm.trans hw)
  state := by
    have hends : s.ends = _ := h.ends_of_inside hd
    rw [h.state, hends, ← hexec]
    simp [State.ends, h.inside hd]
  results t' := by
    rw [h.results t']
    by_cases hne : t' = t
    · subst hne
      simp [State.due, hd, hexec]
    · have hout := h.outside (h.inside hd) hne
      rw [due_of_outside hout, due_of_outside]
      simpa [goes_of_ne hne] using hout
  enters := h.enters

/-- What is beside does not matter. -/
theorem beside (h : Linear sys s₀ s) (k : κ) : Linear sys s₀ { s with beside := k } :=
  ⟨h.inside, h.waiting, h.state, h.results, h.enters⟩

/-- A call comes to the mutex and does not have to take it. -/
theorem direct (h : Linear sys s₀ s) {r : ρ} (hidle : s.doing t = .idle) (hc : sys.call c = .inl r) :
    Linear sys s₀ { s with log := s.log ++ [(t, c)], returned := s.returns t c r } where
  inside := h.inside
  waiting := h.waiting
  state := by
    rw [replay_concat, h.state]
    simp only [System.take, hc]
    rfl
  results t' := by
    have hret := returns_eq (s := s) (t := t) (c := c) r t'
    have hdue := h.results t'
    change _ = s.returns t c r t' ++ s.due t'
    rw [results_concat, hdue, hret, List.append_assoc, List.append_assoc]
    congr 1
    split_ifs with ht
    · subst ht
      simp [State.due, hidle, System.answer, hc]
    · simp
  enters := each_concat.2 ⟨h.enters, fun _ => ⟨r, hc⟩⟩

/-- A call takes the mutex. -/
theorem lock (h : Linear sys s₀ s) {p : Accesses σ κ (Bool × ρ)} (hwait : s.doing t = .waiting c p)
    (hfree : s.holder = none) : Linear sys s₀
      { s with holder := some t, doing := s.goes t (.inside c p), log := s.log ++ [(t, c)] } where
  inside := by
    intro t' c' q hin
    by_cases hne : t' = t
    · rw [hne]
    · exact absurd ((goes_of_ne hne).symm.trans hin) (h.outside_of_free hfree t' c' q)
  waiting := by
    intro t' c' q hw
    by_cases hne : t' = t
    · subst hne
      cases goes_self.symm.trans hw
    · exact h.waiting ((goes_of_ne hne).symm.trans hw)
  state := by
    have hends : s.ends = (false, s.shared) := by simp [State.ends, hfree]
    rw [replay_concat, h.state, hends]
    simp [System.take, h.waiting hwait, State.ends]
  results t' := by
    have hends : s.ends = (false, s.shared) := by simp [State.ends, hfree]
    rw [results_concat, h.results, h.state, hends, due_of_outside (h.outside_of_free hfree t'),
      List.append_nil]
    congr 1
    by_cases hne : t' = t
    · subst hne
      simp [State.due, System.answer, h.waiting hwait]
    · have hout := h.outside_of_free hfree t'
      rw [if_neg (Ne.symm hne), due_of_outside]
      simpa [goes_of_ne hne] using hout
  enters := by
    refine each_concat.2 ⟨h.enters, fun hkept => ?_⟩
    have hends : sys.replay s₀ s.log = (false, s.shared) := by
      rw [h.state]
      simp [State.ends, hfree]
    change (sys.replay s₀ s.log).1 = true at hkept
    rw [hends] at hkept
    cases hkept

/-- The call inside returns. -/
theorem leave (h : Linear sys s₀ s) {kept : Bool} {r : ρ}
    (hin : s.doing t = .inside c (.ret (kept, r))) : Linear sys s₀ { s with
      holder := if kept then some t else none
      doing := s.goes t .idle
      returned := s.returns t c r } where
  inside := by
    intro t' c' q hin'
    by_cases hne : t' = t
    · subst hne
      cases goes_self.symm.trans hin'
    · exact absurd ((goes_of_ne hne).symm.trans hin') (h.outside (h.inside hin) hne c' q)
  waiting := by
    intro t' c' q hw
    by_cases hne : t' = t
    · subst hne
      cases goes_self.symm.trans hw
    · exact h.waiting ((goes_of_ne hne).symm.trans hw)
  state := by
    rw [h.state, h.ends_of_inside hin]
    cases kept with
    | false => rfl
    | true => simp [State.ends, Accesses.exec]
  results t' := by
    have hret := returns_eq (s := s) (t := t) (c := c) r t'
    change _ = s.returns t c r t' ++ _
    rw [h.results, hret]
    by_cases hne : t' = t
    · subst hne
      simp [State.due, hin, Accesses.exec]
    · have hout := h.outside (h.inside hin) hne
      have hout' : (s.goes t .idle t').Outside := by rwa [goes_of_ne hne]
      rw [if_neg (Ne.symm hne), due_of_outside hout, due_of_outside hout', List.append_nil,
        List.append_nil]
  enters := h.enters

theorem step (h : Linear sys s₀ s) {e : Event τ γ δ} (hs : Atomic.step sys s e = some s') :
    Linear sys s₀ s' := by
  have out : ∀ {t} {d : Doing σ κ γ ρ}, s.doing t = d → d.Outside → (s.doing t).Outside :=
    fun h hd => h ▸ hd
  cases step_moves hs with
  | direct hidle hcall => exact h.direct hidle hcall
  | call hidle hcall =>
    refine h.goes_outside (out hidle nofun) nofun fun c p hw => ?_
    cases hw
    exact hcall
  | callBare hidle => exact h.goes_outside (out hidle nofun) nofun nofun
  | lock hwait hfree => exact h.lock hwait hfree
  | leave hin => exact h.leave hin
  | access hin => exact h.goes_inside hin _ _ rfl
  | @put _ _ _ next hin => exact (h.goes_inside hin next s.shared rfl).beside _
  | ended hbare => exact h.goes_outside (out hbare nofun) nofun nofun
  | @bare _ _ next hbare =>
    have hout := out hbare nofun
    exact (h.goes_outside (d := .bare (next s.shared s.beside)) hout nofun nofun).beside _

/-- In every run the calls take effect one after the other. -/
theorem path {es : List (Event τ γ δ)} (hp : Path (Atomic.step sys) s es s')
    (h : Linear sys s₀ s) : Linear sys s₀ s' := by
  induction hp with
  | nil s => exact h
  | cons hstep _ ih => exact ih (h.step hstep)

/-- While no thread is inside, the state is that of the calls so far. -/
theorem replay_eq (h : Linear sys s₀ s) (hout : ∀ t, (s.doing t).Outside) :
    sys.replay s₀ s.log = (s.holder.isSome, s.shared) := by
  rw [h.state]
  unfold State.ends
  rcases hh : s.holder with _ | t
  · rfl
  · rcases hd : s.doing t with _ | _ | ⟨c, p⟩ | _
    · simp [hd]
    · simp [hd]
    · exact absurd hd (hout t c p)
    · simp [hd]

end Linear

/-! ## When a call takes effect -/

theorem step_log {e : Event τ γ δ} (h : step sys s e = some s') : s.log <+: s'.log := by
  cases step_moves h <;> simp

theorem step_returned {e : Event τ γ δ} (h : step sys s e = some s') (t : τ) :
    s.returned t <+: s'.returned t := by
  cases step_moves h <;> simp [returns_eq]

theorem path_grows {es : List (Event τ γ δ)} (hp : Path (step sys) s es s') :
    s.log <+: s'.log ∧ ∀ t, s.returned t <+: s'.returned t := by
  induction hp with
  | nil s => exact ⟨List.prefix_rfl, fun _ => List.prefix_rfl⟩
  | cons hstep _ ih =>
    exact ⟨(step_log hstep).trans ih.1, fun t => (step_returned hstep t).trans (ih.2 t)⟩

/-- What a thread's calls return between two states, in the first of which it is in no call, is the
answer to each at a point in between. -/
theorem returned_between (h : Linear sys s₀ s) {es : List (Event τ γ δ)}
    (hp : Path (step sys) s es s') (hidle : s.doing t = .idle) :
    ∃ new, s'.returned t = s.returned t ++ new ∧ ∀ c r, (c, r) ∈ new →
      ∃ l, s.log <+: l ∧ l ++ [(t, c)] <+: s'.log ∧ r = sys.answer c (sys.replay s₀ l).2 := by
  obtain ⟨⟨log, hlog⟩, hret⟩ := path_grows hp
  obtain ⟨new, hnew⟩ := hret t
  have hnow : sys.results t (false, s₀) s.log = s.returned t := by
    rw [h.results, State.due, hidle, List.append_nil]
  have hthen := (h.path hp).results t
  rw [← hlog, results_append, hnow, ← hnew, List.append_assoc, List.append_cancel_left_eq] at hthen
  refine ⟨new, hnew.symm, fun c r hmem => ?_⟩
  have hmem' : (c, r) ∈ sys.results t (s.log.foldl sys.take (false, s₀)) log := by
    rw [hthen]
    exact List.mem_append_left _ hmem
  obtain ⟨l, hl, hr⟩ := mem_results hmem'
  refine ⟨s.log ++ l, List.prefix_append .., ?_, ?_⟩
  · rw [← hlog, List.append_assoc]
    exact List.prefix_append_right_inj s.log |>.2 hl
  · rw [System.replay, List.foldl_append]
    exact hr

end Linear

end Atomic
