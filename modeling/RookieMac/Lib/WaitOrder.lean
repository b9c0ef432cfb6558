import RookieMac.Lib.Runs

/-!
# Mutexes and connections of bounded room

Threads lock mutexes and write bytes to connections. A thread waits where the mutex is held and
where the connection is full; the reader of a connection takes what is in it once it has nothing
else to do, and then handles it. Mutexes and connections have ranks. Where every call takes and
writes above what it holds and holds nothing in the end, and a reader stays above its connections,
every thread that waits is, at the end of a chain of waiting threads, waiting for one that can go
on.
Where, besides, a byte is worth more than handling it costs, the calls in progress end, however the
threads take turns.
-/

namespace WaitOrder

open Runs

variable {τ ρ χ β : Type*}

inductive Act (ρ χ β : Type*)
  | lock (r : ρ)
  | unlock (r : ρ)
  /-- One byte. -/
  | put (c : χ) (b : β)

/-- What each thread has still to do, who holds each mutex, what has been written to each
connection, and how much of it has not been read. -/
structure State (τ ρ χ β : Type*) where
  todo : τ → List (Act ρ χ β)
  holder : ρ → Option τ
  sent : χ → List β
  count : χ → ℕ

inductive Event (τ ρ χ β : Type*)
  /-- A thread with nothing to do begins a call. -/
  | call (t : τ) (p : List (Act ρ χ β))
  /-- A reader takes some bytes, and begins to handle them. -/
  | read (c : χ) (k : ℕ) (p : List (Act ρ χ β))
  | run (t : τ)

structure System (τ ρ χ β : Type*) where
  cap : χ → ℕ
  reader : χ → τ
  Calls : τ → List (Act ρ χ β) → Prop
  /-- What the reader of the connection may do with what it has read. -/
  Handles : χ → List (Act ρ χ β) → Prop

namespace System

variable (sys : System τ ρ χ β)

def Allowed : Event τ ρ χ β → Prop
  | .call t p => sys.Calls t p
  | .read c _ p => sys.Handles c p
  | .run _ => True

/-- No call begins. -/
def Goes : Event τ ρ χ β → Prop
  | .call _ _ => False
  | .read c _ p => sys.Handles c p
  | .run _ => True

section Step

variable [DecidableEq τ] [DecidableEq ρ] [DecidableEq χ]

def run (s : State τ ρ χ β) (t : τ) : Option (State τ ρ χ β) :=
  match s.todo t with
  | [] => none
  | .lock r :: p =>
    match s.holder r with
    | some _ => none
    | none => some { s with
        todo := Function.update s.todo t p, holder := Function.update s.holder r (some t) }
  | .unlock r :: p => some { s with
      todo := Function.update s.todo t p, holder := Function.update s.holder r none }
  | .put c b :: p =>
    if s.count c < sys.cap c then some { s with
      todo := Function.update s.todo t p
      sent := Function.update s.sent c (s.sent c ++ [b])
      count := Function.update s.count c (s.count c + 1) }
    else none

def step (s : State τ ρ χ β) : Event τ ρ χ β → Option (State τ ρ χ β)
  | .call t p =>
    if s.todo t = [] then some { s with todo := Function.update s.todo t p } else none
  | .read c k p =>
    if s.todo (sys.reader c) = [] ∧ 0 < k ∧ k ≤ s.count c then some { s with
      todo := Function.update s.todo (sys.reader c) p
      count := Function.update s.count c (s.count c - k) }
    else none
  | .run t => sys.run s t

end Step

end System

/-- Before the first call. -/
def State.idle : State τ ρ χ β := ⟨fun _ => [], fun _ => none, fun _ => [], fun _ => 0⟩

/-- No thread at work, no mutex held, nothing to read. -/
structure State.Quiet (s : State τ ρ χ β) : Prop where
  todo : ∀ t, s.todo t = []
  holder : ∀ r, s.holder r = none
  count : ∀ c, s.count c = 0

/-- No connection holds more than it has room for. -/
def State.Fits (sys : System τ ρ χ β) (s : State τ ρ χ β) : Prop := ∀ c, s.count c ≤ sys.cap c

structure Ranks (ρ χ : Type*) where
  mutex : ρ → ℕ
  conn : χ → ℕ

section Order

variable (rk : Ranks ρ χ)

/-- A thread that holds the first mutexes takes and writes above what it holds, releases only what
it holds, and in the end holds the last ones. -/
def Leads : Set ρ → List (Act ρ χ β) → Set ρ → Prop
  | held, [], held' => held = held'
  | held, .lock r :: p, held' =>
    (∀ q ∈ held, rk.mutex q < rk.mutex r) ∧ Leads (insert r held) p held'
  | held, .unlock r :: p, held' => r ∈ held ∧ Leads (held \ {r}) p held'
  | held, .put c _ :: p, held' => (∀ q ∈ held, rk.mutex q < rk.conn c) ∧ Leads held p held'

/-- The acts are above the rank. -/
def Above (n : ℕ) (p : List (Act ρ χ β)) : Prop :=
  (∀ r, .lock r ∈ p → n < rk.mutex r) ∧ ∀ c b, .put c b ∈ p → n < rk.conn c

variable {rk} {held held' held'' : Set ρ} {p q : List (Act ρ χ β)} {n : ℕ}

theorem Leads.append : ∀ {p : List (Act ρ χ β)} {held : Set ρ}, Leads rk held p held' →
    Leads rk held' q held'' → Leads rk held (p ++ q) held''
  | [], _, h, h' => by
    unfold Leads at h
    exact h ▸ h'
  | .lock r :: p, _, h, h' => ⟨h.1, h.2.append h'⟩
  | .unlock r :: p, _, h, h' => ⟨h.1, h.2.append h'⟩
  | .put _ _ :: p, _, h, h' => ⟨h.1, h.2.append h'⟩

/-- A mutex around what takes and writes above it. -/
theorem Leads.around {r : ρ} (hr : ∀ q ∈ held, rk.mutex q < rk.mutex r)
    (h : Leads rk (insert r held) p (insert r held)) :
    Leads rk held (.lock r :: (p ++ [.unlock r])) held := by
  have hmem : r ∉ held := fun hm => absurd (hr r hm) (lt_irrefl _)
  refine ⟨hr, h.append ⟨Set.mem_insert r held, ?_⟩⟩
  exact Set.insert_sdiff_self_of_notMem hmem

theorem above_nil : Above rk n ([] : List (Act ρ χ β)) := by
  simp [Above]

theorem above_append : Above rk n (p ++ q) ↔ Above rk n p ∧ Above rk n q := by
  simp only [Above, List.mem_append, or_imp, forall_and]
  tauto

theorem Above.of_cons {a : Act ρ χ β} (h : Above rk n (a :: p)) : Above rk n p :=
  ⟨fun r hr => h.1 r (.tail _ hr), fun c b hc => h.2 c b (.tail _ hc)⟩

end Order

/-! ## What a step can do -/

section Moves

variable [DecidableEq τ] [DecidableEq ρ] [DecidableEq χ] (sys : System τ ρ χ β)

inductive Moves (s : State τ ρ χ β) : Event τ ρ χ β → State τ ρ χ β → Prop
  | call (t : τ) (p : List (Act ρ χ β)) (hidle : s.todo t = []) :
      Moves s (.call t p) { s with todo := Function.update s.todo t p }
  | read (c : χ) (k : ℕ) (p : List (Act ρ χ β)) (hidle : s.todo (sys.reader c) = []) (hk : 0 < k)
      (hle : k ≤ s.count c) :
      Moves s (.read c k p) { s with
        todo := Function.update s.todo (sys.reader c) p
        count := Function.update s.count c (s.count c - k) }
  | lock (t : τ) (r : ρ) (p : List (Act ρ χ β)) (htodo : s.todo t = .lock r :: p)
      (hfree : s.holder r = none) :
      Moves s (.run t) { s with
        todo := Function.update s.todo t p, holder := Function.update s.holder r (some t) }
  | unlock (t : τ) (r : ρ) (p : List (Act ρ χ β)) (htodo : s.todo t = .unlock r :: p) :
      Moves s (.run t) { s with
        todo := Function.update s.todo t p, holder := Function.update s.holder r none }
  | put (t : τ) (c : χ) (b : β) (p : List (Act ρ χ β)) (htodo : s.todo t = .put c b :: p)
      (hroom : s.count c < sys.cap c) :
      Moves s (.run t) { s with
        todo := Function.update s.todo t p
        sent := Function.update s.sent c (s.sent c ++ [b])
        count := Function.update s.count c (s.count c + 1) }

theorem step_iff {s s' : State τ ρ χ β} {e : Event τ ρ χ β} :
    sys.step s e = some s' ↔ Moves sys s e s' := by
  constructor
  · intro h
    rcases e with ⟨t, p⟩ | ⟨c, k, p⟩ | t
    · simp only [System.step] at h
      split_ifs at h with hidle
      cases h
      exact .call t p hidle
    · simp only [System.step] at h
      split_ifs at h with hread
      cases h
      exact .read c k p hread.1 hread.2.1 hread.2.2
    · simp only [System.step] at h
      unfold System.run at h
      rcases htodo : s.todo t with _ | ⟨⟨r⟩ | ⟨r⟩ | ⟨c, b⟩, p⟩ <;> rw [htodo] at h <;>
        simp only [] at h
      · cases h
      · rcases hfree : s.holder r with _ | t' <;> rw [hfree] at h <;> cases h
        exact .lock t r p htodo hfree
      · cases h
        exact .unlock t r p htodo
      · split_ifs at h with hroom
        cases h
        exact .put t c b p htodo hroom
  · intro h
    cases h with
    | call t p hidle => simp [System.step, hidle]
    | read c k p hidle hk hle => simp [System.step, hidle, hk, hle]
    | lock t r p htodo hfree => simp [System.step, System.run, htodo, hfree]
    | unlock t r p htodo => simp [System.step, System.run, htodo]
    | put t c b p htodo hroom => simp [System.step, System.run, htodo, hroom]

variable {sys} {s s' : State τ ρ χ β} {e : Event τ ρ χ β}

theorem State.Fits.step (h : s.Fits sys) (hm : Moves sys s e s') : s'.Fits sys := by
  cases hm with
  | call t p hidle => exact h
  | read c k p hidle hk hle =>
    intro c'
    have := h c'
    show Function.update s.count c (s.count c - k) c' ≤ sys.cap c'
    rcases eq_or_ne c' c with rfl | hc
    · rw [Function.update_self]
      omega
    · rwa [Function.update_of_ne hc]
  | lock t r p htodo hfree => exact h
  | unlock t r p htodo => exact h
  | put t c b p htodo hroom =>
    intro c'
    show Function.update s.count c (s.count c + 1) c' ≤ sys.cap c'
    rcases eq_or_ne c' c with rfl | hc
    · rwa [Function.update_self]
    · rw [Function.update_of_ne hc]
      exact h c'

theorem State.Fits.path {es : List (Event τ ρ χ β)} (hp : Path sys.step s es s')
    (h : s.Fits sys) : s'.Fits sys := by
  induction hp with
  | nil s => exact h
  | cons hstep _ ih => exact ih (h.step ((step_iff sys).1 hstep))

end Moves

/-! ## No thread waits for ever -/

section Held

variable [DecidableEq ρ] {s : State τ ρ χ β} {t : τ}

theorem held_lock (r : ρ) :
    {x | Function.update s.holder r (some t) x = some t} = insert r {x | s.holder x = some t} := by
  ext x
  rcases eq_or_ne x r with rfl | hx
  · simp
  · simp [hx]

theorem held_unlock (r : ρ) :
    {x | Function.update s.holder r none x = some t} = {x | s.holder x = some t} \ {r} := by
  ext x
  rcases eq_or_ne x r with rfl | hx
  · simp
  · simp [hx]

theorem held_update {r : ρ} {o : Option τ} (ho : o ≠ some t) (hr : s.holder r ≠ some t) :
    {x | Function.update s.holder r o x = some t} = {x | s.holder x = some t} := by
  ext x
  rcases eq_or_ne x r with rfl | hx
  · simp [ho, hr]
  · simp [hx]

end Held

section Progress

variable (sys : System τ ρ χ β) (rk : Ranks ρ χ)

/-- What the calls of the system keep to. -/
structure Respects : Prop where
  calls : ∀ t p, sys.Calls t p → Leads rk ∅ p ∅
  handles : ∀ c p, sys.Handles c p → Leads rk ∅ p ∅
  calls_above : ∀ c p, sys.Calls (sys.reader c) p → Above rk (rk.conn c) p
  handles_above : ∀ c c' p, sys.reader c' = sys.reader c → sys.Handles c' p →
    Above rk (rk.conn c) p

structure Ordered (s : State τ ρ χ β) : Prop where
  leads : ∀ t, Leads rk {r | s.holder r = some t} (s.todo t) ∅
  above : ∀ c, Above rk (rk.conn c) (s.todo (sys.reader c))

variable {sys rk} {s s' : State τ ρ χ β} {t : τ}

theorem Ordered.leads_of_todo (h : Ordered sys rk s) {p : List (Act ρ χ β)} (htodo : s.todo t = p) :
    Leads rk {r | s.holder r = some t} p ∅ :=
  htodo ▸ h.leads t

theorem Ordered.above_tail (h : Ordered sys rk s) {a : Act ρ χ β} {p : List (Act ρ χ β)}
    (htodo : s.todo t = a :: p) (c : χ) (hc : sys.reader c = t) : Above rk (rk.conn c) p := by
  have := h.above c
  rw [hc, htodo] at this
  exact this.of_cons

variable [DecidableEq τ]

/-- The thread at work comes to the rest of what it has to do. -/
theorem Ordered.above_update (h : Ordered sys rk s) {p : List (Act ρ χ β)}
    (hp : ∀ c, sys.reader c = t → Above rk (rk.conn c) p) (c : χ) :
    Above rk (rk.conn c) (Function.update s.todo t p (sys.reader c)) := by
  rcases eq_or_ne (sys.reader c) t with hc | hc
  · rw [hc, Function.update_self]
    exact hp c hc
  · rw [Function.update_of_ne hc]
    exact h.above c

/-- What the other threads hold stays what it was. -/
theorem Ordered.leads_update (h : Ordered sys rk s) {p : List (Act ρ χ β)} {holder : ρ → Option τ}
    (hp : Leads rk {r | holder r = some t} p ∅)
    (hne : ∀ t', t' ≠ t → {r | holder r = some t'} = {r | s.holder r = some t'}) (t' : τ) :
    Leads rk {r | holder r = some t'} (Function.update s.todo t p t') ∅ := by
  rcases eq_or_ne t' t with rfl | ht
  · rw [Function.update_self]
    exact hp
  · rw [Function.update_of_ne ht, hne t' ht]
    exact h.leads t'

/-- A thread that holds nothing begins. -/
theorem Ordered.leads_begin (h : Ordered sys rk s) {p : List (Act ρ χ β)} (hidle : s.todo t = [])
    (hp : Leads rk ∅ p ∅) (t' : τ) :
    Leads rk {r | s.holder r = some t'} (Function.update s.todo t p t') ∅ := by
  have hheld : {r | s.holder r = some t} = ∅ := h.leads_of_todo hidle
  exact h.leads_update (hheld.symm ▸ hp) (fun _ _ => rfl) t'

variable [DecidableEq ρ] [DecidableEq χ] {e : Event τ ρ χ β}

theorem Ordered.step (hr : Respects sys rk) (h : Ordered sys rk s) (he : sys.Allowed e)
    (hm : Moves sys s e s') : Ordered sys rk s' := by
  cases hm with
  | call t p hidle =>
    refine ⟨h.leads_begin hidle (hr.calls t p he), h.above_update fun c hc => ?_⟩
    exact hr.calls_above c p (hc ▸ he)
  | read c k p hidle hk hle =>
    refine ⟨h.leads_begin hidle (hr.handles c p he), h.above_update fun c' hc => ?_⟩
    exact hr.handles_above c' c p hc.symm he
  | lock t r p htodo hfree =>
    have hlead := (h.leads_of_todo htodo).2
    refine ⟨h.leads_update ?_ fun t' ht => ?_, h.above_update (h.above_tail htodo)⟩
    · rwa [held_lock]
    · exact held_update (fun h => ht (Option.some.inj h).symm) (by simp [hfree])
  | unlock t r p htodo =>
    obtain ⟨hheld, hlead⟩ := h.leads_of_todo htodo
    have hr : s.holder r = some t := hheld
    refine ⟨h.leads_update ?_ fun t' ht => ?_, h.above_update (h.above_tail htodo)⟩
    · rwa [held_unlock]
    · exact held_update (by simp) fun h => ht (Option.some.inj (hr.symm.trans h)).symm
  | put t c b p htodo hroom =>
    have hlead := (h.leads_of_todo htodo).2
    exact ⟨h.leads_update hlead fun _ _ => rfl, h.above_update (h.above_tail htodo)⟩

theorem Ordered.path (hr : Respects sys rk) {es : List (Event τ ρ χ β)} (hp : Path sys.step s es s')
    (h : Ordered sys rk s) (hes : ∀ e ∈ es, sys.Allowed e) : Ordered sys rk s' := by
  induction hp with
  | nil s => exact h
  | cons hstep _ ih =>
    refine ih (h.step hr (hes _ (.head _)) ((step_iff sys).1 hstep)) ?_
    exact fun e he => hes e (.tail _ he)

/-! ## Who waits for whom -/

/-- The mutex the first thread locks is the second one's, or the connection it writes to is full and
the second one is its reader. -/
def State.Waits (sys : System τ ρ χ β) (s : State τ ρ χ β) (t t' : τ) : Prop :=
  (∃ r p, s.todo t = .lock r :: p ∧ s.holder r = some t')
    ∨ ∃ c b p, s.todo t = .put c b :: p ∧ sys.cap c ≤ s.count c ∧ sys.reader c = t'

/-- The thread can take its next step, or it is back at its read and there is something to read. -/
def State.CanGo (sys : System τ ρ χ β) (s : State τ ρ χ β) (t : τ) : Prop :=
  (∃ s', sys.run s t = some s') ∨ s.todo t = [] ∧ ∃ c, sys.reader c = t ∧ 0 < s.count c

variable {N : ℕ}

/-- What the thread takes or writes next is less than `n` below the highest rank. -/
def Near (rk : Ranks ρ χ) (N n : ℕ) (p : List (Act ρ χ β)) : Prop :=
  (∀ r q, p = .lock r :: q → N < rk.mutex r + n) ∧ ∀ c b q, p = .put c b :: q → N < rk.conn c + n

theorem Ordered.chain_near (hcap : ∀ c, 0 < sys.cap c) (hmutex : ∀ r, rk.mutex r ≤ N)
    (hconn : ∀ c, rk.conn c ≤ N) (h : Ordered sys rk s) : ∀ (n : ℕ) (t : τ), s.todo t ≠ [] →
      Near rk N n (s.todo t) → ∃ t', Relation.ReflTransGen (s.Waits sys) t t' ∧ s.CanGo sys t'
  | 0, t, hne, hnear => by
    rcases htodo : s.todo t with _ | ⟨⟨r⟩ | ⟨r⟩ | ⟨c, b⟩, p⟩
    · exact absurd htodo hne
    · have := hnear.1 r p htodo
      have := hmutex r
      omega
    · exact ⟨t, .refl, .inl ⟨_, (step_iff sys).2 (.unlock t r p htodo)⟩⟩
    · have := hnear.2 c b p htodo
      have := hconn c
      omega
  | n + 1, t, hne, hnear => by
    rcases htodo : s.todo t with _ | ⟨⟨r⟩ | ⟨r⟩ | ⟨c, b⟩, p⟩
    · exact absurd htodo hne
    · rcases hfree : s.holder r with _ | t'
      · exact ⟨t, .refl, .inl ⟨_, (step_iff sys).2 (.lock t r p htodo hfree)⟩⟩
      -- the holder has something to do, above what it holds
      have hwait : s.Waits sys t t' := .inl ⟨r, p, htodo, hfree⟩
      have hn := hnear.1 r p htodo
      have hne' : s.todo t' ≠ [] := by
        intro hidle
        have hempty : {x | s.holder x = some t'} = ∅ := h.leads_of_todo hidle
        exact Set.notMem_empty r (hempty ▸ hfree)
      have hnear' : Near rk N n (s.todo t') := by
        refine ⟨fun r' q hq => ?_, fun c' b' q hq => ?_⟩
        · have := (h.leads_of_todo hq).1 r hfree
          omega
        · have := (h.leads_of_todo hq).1 r hfree
          omega
      obtain ⟨t'', hchain, hgo⟩ := h.chain_near hcap hmutex hconn n t' hne' hnear'
      exact ⟨t'', .head hwait hchain, hgo⟩
    · exact ⟨t, .refl, .inl ⟨_, (step_iff sys).2 (.unlock t r p htodo)⟩⟩
    · by_cases hroom : s.count c < sys.cap c
      · exact ⟨t, .refl, .inl ⟨_, (step_iff sys).2 (.put t c b p htodo hroom)⟩⟩
      have hwait : s.Waits sys t (sys.reader c) := .inr ⟨c, b, p, htodo, by omega, rfl⟩
      have hn := hnear.2 c b p htodo
      by_cases hidle : s.todo (sys.reader c) = []
      · have := hcap c
        exact ⟨_, .single hwait, .inr ⟨hidle, c, rfl, by omega⟩⟩
      have habove := h.above c
      have hnear' : Near rk N n (s.todo (sys.reader c)) := by
        refine ⟨fun r' q hq => ?_, fun c' b' q hq => ?_⟩
        · have := habove.1 r' (hq ▸ .head _)
          omega
        · have := habove.2 c' b' (hq ▸ .head _)
          omega
      obtain ⟨t'', hchain, hgo⟩ := h.chain_near hcap hmutex hconn n _ hidle hnear'
      exact ⟨t'', .head hwait hchain, hgo⟩

/-- A thread at work can go on, or waits, through others that wait, for one that can. -/
theorem Ordered.chain (hcap : ∀ c, 0 < sys.cap c) (hmutex : ∀ r, rk.mutex r ≤ N)
    (hconn : ∀ c, rk.conn c ≤ N) (h : Ordered sys rk s) (hne : s.todo t ≠ []) :
    ∃ t', Relation.ReflTransGen (s.Waits sys) t t' ∧ s.CanGo sys t' :=
  h.chain_near hcap hmutex hconn (N + 1) t hne ⟨fun _ _ _ => by omega, fun _ _ _ _ => by omega⟩

/-- Where no step is possible but a new call, every call has ended. -/
theorem Ordered.quiet (hcap : ∀ c, 0 < sys.cap c) (hmutex : ∀ r, rk.mutex r ≤ N)
    (hconn : ∀ c, rk.conn c ≤ N) (hhandle : ∀ c, ∃ p, sys.Handles c p) (h : Ordered sys rk s)
    (hend : ∀ e, sys.Goes e → sys.step s e = none) : s.Quiet := by
  have hread : ∀ c, s.todo (sys.reader c) = [] → s.count c = 0 := by
    intro c hidle
    by_contra hc
    obtain ⟨p, hp⟩ := hhandle c
    have hstep := (step_iff sys).2 (.read c 1 p hidle one_pos (Nat.one_le_iff_ne_zero.2 hc))
    rw [hend (.read c 1 p) hp] at hstep
    cases hstep
  have htodo : ∀ t, s.todo t = [] := by
    intro t
    by_contra hne
    obtain ⟨t', -, ⟨s', hrun⟩ | ⟨hidle, c, rfl, hc⟩⟩ := h.chain hcap hmutex hconn hne
    · have hnone : sys.run s t' = none := hend (.run t') trivial
      rw [hnone] at hrun
      cases hrun
    · exact absurd (hread c hidle) hc.ne'
  have hholder : ∀ r, s.holder r = none := by
    intro r
    rcases hr : s.holder r with _ | t
    · rfl
    · have hempty : {x | s.holder x = some t} = ∅ := h.leads_of_todo (htodo t)
      exact absurd (show r ∈ {x | s.holder x = some t} from hr) (hempty ▸ Set.notMem_empty r)
  exact ⟨htodo, hholder, fun c => hread c (htodo _)⟩

end Progress

/-! ## The calls in progress end -/

section Price

variable (cost : χ → ℕ)

/-- The steps the acts take, a byte with what it costs to handle it. -/
def price : List (Act ρ χ β) → ℕ
  | [] => 0
  | .lock _ :: p => price p + 1
  | .unlock _ :: p => price p + 1
  | .put c _ :: p => price p + cost c + 1

/-- The threads listed and what is in the connections. -/
def State.total [Fintype χ] (T : Finset τ) (s : State τ ρ χ β) : ℕ :=
  ∑ t ∈ T, price cost (s.todo t) + ∑ c, s.count c * cost c

theorem sum_update {ι β : Type*} [DecidableEq ι] {S : Finset ι} {i : ι} (hi : i ∈ S)
    (f : ι → β → ℕ) (g : ι → β) (b : β) :
    ∑ j ∈ S, f j (Function.update g i b j) + f i (g i) = ∑ j ∈ S, f j (g j) + f i b := by
  have hrest : ∑ j ∈ S.erase i, f j (Function.update g i b j) = ∑ j ∈ S.erase i, f j (g j) := by
    refine Finset.sum_congr rfl fun j hj => ?_
    rw [Function.update_of_ne (Finset.ne_of_mem_erase hj)]
  rw [← Finset.add_sum_erase S _ hi, hrest, ← Finset.add_sum_erase S (fun j => f j (g j)) hi,
    Function.update_self]
  omega

variable {cost} {sys : System τ ρ χ β} {rk : Ranks ρ χ} {s s' : State τ ρ χ β} {e : Event τ ρ χ β}
  {T : Finset τ}

/-- The threads listed are the readers and all that are at work. -/
structure State.Busy (sys : System τ ρ χ β) (T : Finset τ) (s : State τ ρ χ β) : Prop where
  todo : ∀ t, t ∉ T → s.todo t = []
  reader : ∀ c, sys.reader c ∈ T

theorem State.Busy.mem (h : s.Busy sys T) {t : τ} {a : Act ρ χ β} {p : List (Act ρ χ β)}
    (htodo : s.todo t = a :: p) : t ∈ T := by
  by_contra ht
  rw [h.todo t ht] at htodo
  cases htodo

variable [DecidableEq τ]

theorem State.Busy.update (h : s.Busy sys T) {t : τ} (ht : t ∈ T) {p : List (Act ρ χ β)} (t' : τ)
    (ht' : t' ∉ T) : Function.update s.todo t p t' = [] := by
  rw [Function.update_of_ne (fun he : t' = t => ht' (he ▸ ht))]
  exact h.todo t' ht'

variable [DecidableEq ρ] [DecidableEq χ]

/-- Only a call brings a thread to work that was not. -/
theorem State.Busy.step (h : s.Busy sys T) (hm : Moves sys s e s') :
    ∃ T', s'.Busy sys T' ∧ (sys.Goes e → T' = T) := by
  cases hm with
  | call t p hidle =>
    refine ⟨insert t T, ⟨fun t' ht' => ?_, fun c => Finset.mem_insert_of_mem (h.reader c)⟩, ?_⟩
    · rw [Finset.mem_insert, not_or] at ht'
      show Function.update s.todo t p t' = []
      rw [Function.update_of_ne ht'.1]
      exact h.todo t' ht'.2
    · exact False.elim
  | read c k p hidle hk hle =>
    exact ⟨T, ⟨h.update (h.reader c), h.reader⟩, fun _ => rfl⟩
  | lock t r p htodo hfree => exact ⟨T, ⟨h.update (h.mem htodo), h.reader⟩, fun _ => rfl⟩
  | unlock t r p htodo => exact ⟨T, ⟨h.update (h.mem htodo), h.reader⟩, fun _ => rfl⟩
  | put t c b p htodo hroom => exact ⟨T, ⟨h.update (h.mem htodo), h.reader⟩, fun _ => rfl⟩

theorem State.Busy.path {es : List (Event τ ρ χ β)} (hp : Path sys.step s es s') :
    ∀ {T : Finset τ}, s.Busy sys T → ∃ T', s'.Busy sys T' := by
  induction hp with
  | nil s => exact fun h => ⟨_, h⟩
  | cons hstep _ ih =>
    intro T h
    obtain ⟨T', hT', -⟩ := h.step ((step_iff sys).1 hstep)
    exact ih hT'

variable [Fintype χ]

theorem State.Busy.total_lt (hcost : ∀ c p, sys.Handles c p → price cost p < cost c)
    (h : s.Busy sys T) (he : sys.Goes e) (hm : Moves sys s e s') :
    s'.total cost T < s.total cost T := by
  unfold State.total
  cases hm with
  | call t p hidle => exact he.elim
  | read c k p hidle hk hle =>
    have hcheap := hcost c p he
    have htodo := sum_update (h.reader c) (fun _ => price cost) s.todo p
    have hcount := sum_update (Finset.mem_univ c) (fun c n => n * cost c) s.count (s.count c - k)
    have hmul : s.count c * cost c = (s.count c - k) * cost c + k * cost c := by
      rw [← Nat.add_mul, Nat.sub_add_cancel hle]
    have hk' : cost c ≤ k * cost c := Nat.le_mul_of_pos_left _ hk
    rw [hidle] at htodo
    simp only [price] at htodo hcount ⊢
    omega
  | lock t r p htodo hfree =>
    have hsum := sum_update (h.mem htodo) (fun _ => price cost) s.todo p
    rw [htodo] at hsum
    simp only [price] at hsum ⊢
    omega
  | unlock t r p htodo =>
    have hsum := sum_update (h.mem htodo) (fun _ => price cost) s.todo p
    rw [htodo] at hsum
    simp only [price] at hsum ⊢
    omega
  | put t c b p htodo hroom =>
    have hsum := sum_update (h.mem htodo) (fun _ => price cost) s.todo p
    have hcount := sum_update (Finset.mem_univ c) (fun c n => n * cost c) s.count (s.count c + 1)
    rw [htodo] at hsum
    simp only [price, Nat.add_mul, one_mul] at hsum hcount ⊢
    omega

/-- As many steps as the state is worth, at most. -/
theorem State.Busy.length_le (hcost : ∀ c p, sys.Handles c p → price cost p < cost c)
    {es : List (Event τ ρ χ β)} (hp : Path sys.step s es s') (h : s.Busy sys T)
    (hes : ∀ e ∈ es, sys.Goes e) : es.length + s'.total cost T ≤ s.total cost T := by
  induction hp with
  | nil s => simp
  | cons hstep _ ih =>
    have hm := (step_iff sys).1 hstep
    have hlt := h.total_lt hcost (hes _ (.head _)) hm
    obtain ⟨T', hT', heq⟩ := h.step hm
    obtain rfl := heq (hes _ (.head _))
    have := ih hT' fun e he => hes e (.tail _ he)
    rw [List.length_cons]
    omega

end Price

end WaitOrder
