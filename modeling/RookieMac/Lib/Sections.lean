import RookieMac.Lib.WaitOrder

/-!
# Critical sections

Threads that write to a connection only while they hold its mutex, and release only what they hold.
What is written to a connection is then a row of sections, each in one piece and each thread's in
its order. Threads that wait for one another in a circle stay as they are in every run.
-/

namespace WaitOrder

open Runs

variable {τ ρ χ β : Type*}

section Keeps

variable (guard : χ → ρ)

/-- With the mutexes held, the acts release only what is held, and write only under the mutex of the
connection. -/
def Keeps : Set ρ → List (Act ρ χ β) → Prop
  | _, [] => True
  | held, .lock r :: p => Keeps (insert r held) p
  | held, .unlock r :: p => r ∈ held ∧ Keeps (held \ {r}) p
  | held, .put c _ :: p => guard c ∈ held ∧ Keeps held p

variable {guard} {held held' : Set ρ}

theorem Keeps.mono : ∀ {p : List (Act ρ χ β)} {held held' : Set ρ}, held ⊆ held' →
    Keeps guard held p → Keeps guard held' p
  | [], _, _, _, _ => trivial
  | .lock _ :: p, _, _, hs, h => Keeps.mono (p := p) (Set.insert_subset_insert hs) h
  | .unlock _ :: p, _, _, hs, h =>
    ⟨hs h.1, Keeps.mono (p := p) (Set.sdiff_subset_sdiff_left hs) h.2⟩
  | .put _ _ :: p, _, _, hs, h => ⟨hs h.1, Keeps.mono (p := p) hs h.2⟩

/-- What follows acts that in the end hold what they began with. -/
theorem Keeps.append {rk : Ranks ρ χ} {q : List (Act ρ χ β)} : ∀ {p : List (Act ρ χ β)}
    {held : Set ρ}, Keeps guard held p → Leads rk held p held' → Keeps guard held' q →
    Keeps guard held (p ++ q)
  | [], _, _, hl, h' => by
    unfold Leads at hl
    exact hl ▸ h'
  | .lock _ :: p, _, h, hl, h' => Keeps.append (p := p) h hl.2 h'
  | .unlock _ :: p, _, h, hl, h' => ⟨h.1, Keeps.append (p := p) h.2 hl.2 h'⟩
  | .put _ _ :: p, _, h, hl, h' => ⟨h.1, Keeps.append (p := p) h.2 hl.2 h'⟩

/-- A part of a call that keeps to the order and to the mutexes of the connections, and in the end
holds what it began with. -/
structure Sound (rk : Ranks ρ χ) (guard : χ → ρ) (n : ℕ) (held : Set ρ) (p : List (Act ρ χ β)) :
    Prop where
  leads : Leads rk held p held
  keeps : Keeps guard held p
  above : Above rk n p

namespace Sound

variable {rk : Ranks ρ χ} {n m : ℕ} {p q : List (Act ρ χ β)}

theorem nil : Sound rk guard n held ([] : List (Act ρ χ β)) :=
  ⟨rfl, trivial, above_nil⟩

theorem mono (h : Sound rk guard m held p) (hn : n ≤ m) : Sound rk guard n held p :=
  ⟨h.leads, h.keeps, fun r hr => hn.trans_lt (h.above.1 r hr),
    fun c b hc => hn.trans_lt (h.above.2 c b hc)⟩

theorem append (h : Sound rk guard n held p) (h' : Sound rk guard n held q) :
    Sound rk guard n held (p ++ q) :=
  ⟨h.leads.append h'.leads, h.keeps.append h.leads h'.keeps, above_append.2 ⟨h.above, h'.above⟩⟩

theorem flatMap {ι : Type*} {f : ι → List (Act ρ χ β)} : ∀ {xs : List ι},
    (∀ x ∈ xs, Sound rk guard n held (f x)) → Sound rk guard n held (xs.flatMap f)
  | [], _ => nil
  | x :: xs, h => by
    rw [List.flatMap_cons]
    exact (h x (.head _)).append (Sound.flatMap fun y hy => h y (.tail _ hy))

/-- A mutex around what takes and writes above it. -/
theorem around {r : ρ} (hr : ∀ q ∈ held, rk.mutex q < rk.mutex r) (hn : n < rk.mutex r)
    (h : Sound rk guard n (insert r held) p) :
    Sound rk guard n held (.lock r :: (p ++ [.unlock r])) := by
  refine ⟨Leads.around hr h.leads, ?_, fun r' hr' => ?_, fun c b hc => ?_⟩
  · exact h.keeps.append h.leads ⟨Set.mem_insert r held, trivial⟩
  · have : r' = r ∨ .lock r' ∈ p := by simpa using hr'
    rcases this with rfl | hmem
    · exact hn
    · exact h.above.1 r' hmem
  · have : .put c b ∈ p := by simpa using hc
    exact h.above.2 c b this

theorem writes {c : χ} (hc : ∀ q ∈ held, rk.mutex q < rk.conn c) (hn : n < rk.conn c)
    (hg : guard c ∈ held) : ∀ bs : List β, Sound rk guard n held (bs.map (.put c))
  | [] => nil
  | b :: bs => by
    obtain ⟨hl, hk, ha⟩ := writes hc hn hg bs
    refine ⟨⟨hc, hl⟩, ⟨hg, hk⟩, fun r hr => ?_, fun c' b' hb => ?_⟩
    · simp at hr
    · have : c' = c := by
        simp only [List.map_cons, List.mem_cons, Act.put.injEq, List.mem_map] at hb
        rcases hb with ⟨rfl, -⟩ | ⟨_, _, rfl, -⟩ <;> rfl
      rwa [this]

end Sound

/-- The calls of the system keep to it. -/
structure Guarded (guard : χ → ρ) (sys : System τ ρ χ β) : Prop where
  calls : ∀ t p, sys.Calls t p → Keeps guard ∅ p
  handles : ∀ c p, sys.Handles c p → Keeps guard ∅ p

/-- Every thread will, with what it holds. -/
def State.Kept (guard : χ → ρ) (s : State τ ρ χ β) : Prop :=
  ∀ t, Keeps guard {r | s.holder r = some t} (s.todo t)

theorem kept_idle : (State.idle : State τ ρ χ β).Kept guard :=
  fun _ => trivial

theorem State.Kept.of_todo {s : State τ ρ χ β} (h : s.Kept guard) {t : τ} {p : List (Act ρ χ β)}
    (htodo : s.todo t = p) : Keeps guard {r | s.holder r = some t} p :=
  htodo ▸ h t

variable {s : State τ ρ χ β} {t : τ}

/-- Only the thread that holds its mutex writes to a connection. -/
theorem State.Kept.writer (h : s.Kept guard) {c : χ} {b : β} {p : List (Act ρ χ β)}
    (htodo : s.todo t = .put c b :: p) : s.holder (guard c) = some t :=
  (h.of_todo htodo).1

variable [DecidableEq τ] {sys : System τ ρ χ β} {s' : State τ ρ χ β} {e : Event τ ρ χ β}

theorem State.Kept.update (h : s.Kept guard) {p : List (Act ρ χ β)} {holder : ρ → Option τ}
    (hp : Keeps guard {r | holder r = some t} p)
    (hne : ∀ t', t' ≠ t → {r | holder r = some t'} = {r | s.holder r = some t'}) (t' : τ) :
    Keeps guard {r | holder r = some t'} (Function.update s.todo t p t') := by
  rcases eq_or_ne t' t with rfl | ht
  · rwa [Function.update_self]
  · rw [Function.update_of_ne ht, hne t' ht]
    exact h t'

variable [DecidableEq ρ] [DecidableEq χ]

theorem State.Kept.step (hg : Guarded guard sys) (h : s.Kept guard) (he : sys.Allowed e)
    (hm : Moves sys s e s') : s'.Kept guard := by
  cases hm with
  | call t p hidle =>
    exact h.update (Keeps.mono (Set.empty_subset _) (hg.calls t p he)) fun _ _ => rfl
  | read c k p hidle hk hle =>
    exact h.update (Keeps.mono (Set.empty_subset _) (hg.handles c p he)) fun _ _ => rfl
  | lock t r p htodo hfree =>
    refine h.update ?_ fun t' ht =>
      held_update (fun h => ht (Option.some.inj h).symm) (by simp [hfree])
    rw [held_lock]
    exact h.of_todo htodo
  | unlock t r p htodo =>
    obtain ⟨hheld, hkeep⟩ := h.of_todo htodo
    have hr : s.holder r = some t := hheld
    refine h.update ?_ fun t' ht =>
      held_update (by simp) fun h => ht (Option.some.inj (hr.symm.trans h)).symm
    rwa [held_unlock]
  | put t c b p htodo hroom => exact h.update (h.of_todo htodo).2 fun _ _ => rfl

theorem State.Kept.path (hg : Guarded guard sys) {es : List (Event τ ρ χ β)}
    (hp : Path sys.step s es s') (h : s.Kept guard) (hes : ∀ e ∈ es, sys.Allowed e) :
    s'.Kept guard := by
  induction hp with
  | nil s => exact h
  | cons hstep _ ih =>
    refine ih (h.step hg (hes _ (.head _)) ((step_iff sys).1 hstep)) ?_
    exact fun e he => hes e (.tail _ he)

end Keeps

/-! ## Waiting in a circle -/

section Circle

variable {guard : χ → ρ} {sys : System τ ρ χ β} {s s' : State τ ρ χ β} {D : Set τ} {t : τ}

/-- Each of the threads waits for one of them. -/
def State.Stuck (sys : System τ ρ χ β) (D : Set τ) (s : State τ ρ χ β) : Prop :=
  ∀ t ∈ D, ∃ t' ∈ D, s.Waits sys t t'

theorem State.Stuck.todo_ne (h : s.Stuck sys D) {t : τ} (ht : t ∈ D) : s.todo t ≠ [] := by
  obtain ⟨t', -, ⟨r, p, htodo, -⟩ | ⟨c, b, p, htodo, -⟩⟩ := h t ht <;> simp [htodo]

/-- Where what they wait for stays as it is, so do they. -/
theorem State.Stuck.congr (h : s.Stuck sys D) (htodo : ∀ t ∈ D, s'.todo t = s.todo t)
    (hholder : ∀ r, ∀ t ∈ D, s.holder r = some t → s'.holder r = some t)
    (hcount : ∀ c, sys.reader c ∈ D → s.count c ≤ s'.count c) : s'.Stuck sys D := by
  intro t ht
  obtain ⟨t', ht', ⟨r, p, hp, hr⟩ | ⟨c, b, p, hp, hfull, rfl⟩⟩ := h t ht
  · exact ⟨t', ht', .inl ⟨r, p, (htodo t ht).trans hp, hholder r t' ht' hr⟩⟩
  · exact ⟨_, ht', .inr ⟨c, b, p, (htodo t ht).trans hp, hfull.trans (hcount c ht'), rfl⟩⟩

variable [DecidableEq τ] [DecidableEq ρ] [DecidableEq χ] {e : Event τ ρ χ β}

/-- A thread that can take its next step is none of them. -/
theorem State.Stuck.not_mem (h : s.Stuck sys D) (hm : Moves sys s (.run t) s') : t ∉ D := by
  intro ht
  obtain ⟨t', -, ⟨r, p, htodo, hr⟩ | ⟨c, b, p, htodo, hfull, -⟩⟩ := h t ht
  · cases hm with
    | lock t r' p' htodo' hfree =>
      simp only [htodo, List.cons.injEq, Act.lock.injEq] at htodo'
      rw [htodo'.1, hfree] at hr
      cases hr
    | unlock t r' p' htodo' => simp [htodo] at htodo'
    | put t c b p' htodo' => simp [htodo] at htodo'
  · cases hm with
    | lock t r' p' htodo' hfree => simp [htodo] at htodo'
    | unlock t r' p' htodo' => simp [htodo] at htodo'
    | put t c' b' p' htodo' hroom =>
      simp only [htodo, List.cons.injEq, Act.put.injEq] at htodo'
      rw [htodo'.1.1] at hfull
      omega

theorem State.Stuck.step (hk : s.Kept guard) (h : s.Stuck sys D) (hm : Moves sys s e s') :
    s'.Stuck sys D ∧ ∀ t ∈ D, s'.todo t = s.todo t := by
  -- the thread at work is none of them
  have hne : ∀ {t : τ}, t ∉ D → ∀ p : List (Act ρ χ β), ∀ t' ∈ D,
      Function.update s.todo t p t' = s.todo t' := by
    intro t ht p t' ht'
    rw [Function.update_of_ne (fun he : t' = t => ht (he ▸ ht'))]
  cases hm with
  | call t p hidle =>
    have htodo := hne (fun ht => h.todo_ne ht hidle) p
    exact ⟨h.congr htodo (fun _ _ _ hr => hr) fun _ _ => le_rfl, htodo⟩
  | read c k p hidle hk hle =>
    have hc : sys.reader c ∉ D := fun ht => h.todo_ne ht hidle
    refine ⟨h.congr (hne hc p) (fun _ _ _ hr => hr) fun c' hc' => ?_, hne hc p⟩
    have hcc : c' ≠ c := fun he => hc (he ▸ hc')
    show s.count c' ≤ Function.update s.count c _ c'
    rw [Function.update_of_ne hcc]
  | lock t r p htodo hfree =>
    have htodo' := hne (h.not_mem (.lock t r p htodo hfree)) p
    refine ⟨h.congr htodo' (fun r' t' _ hr => ?_) fun _ _ => le_rfl, htodo'⟩
    have hrr : r' ≠ r := fun he => by simp [he ▸ hr] at hfree
    show Function.update s.holder r _ r' = some t'
    rw [Function.update_of_ne hrr, hr]
  | unlock t r p htodo =>
    have ht := h.not_mem (.unlock t r p htodo)
    have hown : s.holder r = some t := (hk.of_todo htodo).1
    refine ⟨h.congr (hne ht p) (fun r' t' ht' hr => ?_) fun _ _ => le_rfl, hne ht p⟩
    have hrr : r' ≠ r := by
      rintro rfl
      exact ht (Option.some.inj (hown.symm.trans hr) ▸ ht')
    show Function.update s.holder r _ r' = some t'
    rw [Function.update_of_ne hrr, hr]
  | put t c b p htodo hroom =>
    have htodo' := hne (h.not_mem (.put t c b p htodo hroom)) p
    refine ⟨h.congr htodo' (fun _ _ _ hr => hr) fun c' _ => ?_, htodo'⟩
    show s.count c' ≤ Function.update s.count c _ c'
    rcases eq_or_ne c' c with rfl | hc
    · rw [Function.update_self]
      omega
    · rw [Function.update_of_ne hc]

/-- They wait for ever. -/
theorem State.Stuck.path (hg : Guarded guard sys) {es : List (Event τ ρ χ β)}
    (hp : Path sys.step s es s') (hk : s.Kept guard) (h : s.Stuck sys D)
    (hes : ∀ e ∈ es, sys.Allowed e) : s'.Stuck sys D ∧ ∀ t ∈ D, s'.todo t = s.todo t := by
  induction hp with
  | nil s => exact ⟨h, fun _ _ => rfl⟩
  | cons hstep _ ih =>
    have hm := (step_iff sys).1 hstep
    obtain ⟨h', htodo⟩ := h.step hk hm
    obtain ⟨h'', htodo'⟩ := ih (hk.step hg (hes _ (.head _)) hm) h' fun e he => hes e (.tail _ he)
    exact ⟨h'', fun t ht => (htodo' t ht).trans (htodo t ht)⟩

/-- Nobody writes under the mutex of a connection that one of them is writing to. -/
theorem State.Stuck.unsent (hg : Guarded guard sys) {es : List (Event τ ρ χ β)}
    (hp : Path sys.step s es s') (hk : s.Kept guard) (h : s.Stuck sys D)
    (hes : ∀ e ∈ es, sys.Allowed e) {c : χ} {b : β} {p : List (Act ρ χ β)} (ht : t ∈ D)
    (htodo : s.todo t = .put c b :: p) {c' : χ} (hc : guard c' = guard c) :
    s'.sent c' = s.sent c' := by
  induction hp with
  | nil s => rfl
  | cons hstep _ ih =>
    have hm := (step_iff sys).1 hstep
    obtain ⟨h', htodo'⟩ := h.step hk hm
    refine (ih (hk.step hg (hes _ (.head _)) hm) h' (fun e he => hes e (.tail _ he))
      ((htodo' t ht).trans htodo)).trans ?_
    cases hm with
    | call t p hidle => rfl
    | read c k p hidle hk hle => rfl
    | lock t r p htodo hfree => rfl
    | unlock t r p htodo => rfl
    | put t' c'' b' p' htodo'' hroom =>
      refine Function.update_of_ne ?_ _ _
      rintro rfl
      have hother := hk.writer htodo''
      rw [hc, hk.writer htodo] at hother
      obtain rfl := Option.some.inj hother
      exact h.not_mem (.put t c' b' p' htodo'' hroom) ht

end Circle

/-! ## A mutex that is kept -/

section Leak

variable {guard : χ → ρ} {sys : System τ ρ χ β} {s s' : State τ ρ χ β} {r : ρ} {t : τ}

/-- The thread holds the mutex and is not going to release it. -/
structure State.Leaked (guard : χ → ρ) (r : ρ) (t : τ) (s : State τ ρ χ β) : Prop where
  holder : s.holder r = some t
  keeps : Keeps guard ({x | s.holder x = some t} \ {r}) (s.todo t)

variable [DecidableEq τ]

theorem State.Leaked.begins (h : s.Leaked guard r t) {t' : τ} {p : List (Act ρ χ β)}
    (hp : Keeps guard ∅ p) :
    Keeps guard ({x | s.holder x = some t} \ {r}) (Function.update s.todo t' p t) := by
  rcases eq_or_ne t t' with rfl | ht
  · rw [Function.update_self]
    exact hp.mono (Set.empty_subset _)
  · rw [Function.update_of_ne ht]
    exact h.keeps

variable [DecidableEq ρ] [DecidableEq χ] {e : Event τ ρ χ β}

theorem State.Leaked.step (hg : Guarded guard sys) (hk : s.Kept guard) (h : s.Leaked guard r t)
    (he : sys.Allowed e) (hm : Moves sys s e s') : s'.Leaked guard r t := by
  cases hm with
  | call t' p hidle => exact ⟨h.holder, h.begins (hg.calls t' p he)⟩
  | read c k p hidle hk hle => exact ⟨h.holder, h.begins (hg.handles c p he)⟩
  | lock t' r' p htodo hfree =>
    have hrr : r ≠ r' := fun heq => by simp [heq ▸ h.holder] at hfree
    refine ⟨(Function.update_of_ne hrr _ _).trans h.holder, ?_⟩
    show Keeps guard ({x | Function.update s.holder r' (some t') x = some t} \ {r})
      (Function.update s.todo t' p t)
    rcases eq_or_ne t t' with rfl | ht
    · have hkeeps := h.keeps
      rw [htodo] at hkeeps
      rw [held_lock, Function.update_self, Set.insert_sdiff_of_notMem _ (by simpa using hrr.symm)]
      exact hkeeps
    · rw [held_update (fun h => ht (Option.some.inj h).symm) (by simp [hfree]),
        Function.update_of_ne ht]
      exact h.keeps
  | unlock t' r' p htodo =>
    have hown : s.holder r' = some t' := (hk.of_todo htodo).1
    rcases eq_or_ne t t' with rfl | ht
    · have hkeeps := h.keeps
      rw [htodo] at hkeeps
      obtain ⟨⟨-, hrr⟩, hkeeps⟩ := hkeeps
      refine ⟨(Function.update_of_ne (fun he => hrr he.symm) _ _).trans h.holder, ?_⟩
      show Keeps guard ({x | Function.update s.holder r' none x = some t} \ {r})
        (Function.update s.todo t p t)
      rw [held_unlock, Function.update_self, Set.sdiff_sdiff_comm]
      exact hkeeps
    · have hrr : r ≠ r' := by
        rintro rfl
        exact ht (Option.some.inj (h.holder.symm.trans hown))
      refine ⟨(Function.update_of_ne hrr _ _).trans h.holder, ?_⟩
      show Keeps guard ({x | Function.update s.holder r' none x = some t} \ {r})
        (Function.update s.todo t' p t)
      rw [held_update (by simp) fun h => ht (Option.some.inj (hown.symm.trans h)).symm,
        Function.update_of_ne ht]
      exact h.keeps
  | put t' c b p htodo hroom =>
    refine ⟨h.holder, ?_⟩
    show Keeps guard ({x | s.holder x = some t} \ {r}) (Function.update s.todo t' p t)
    rcases eq_or_ne t t' with rfl | ht
    · have hkeeps := h.keeps
      rw [htodo] at hkeeps
      rw [Function.update_self]
      exact hkeeps.2
    · rw [Function.update_of_ne ht]
      exact h.keeps

theorem State.Leaked.path (hg : Guarded guard sys) {es : List (Event τ ρ χ β)}
    (hp : Path sys.step s es s') (hk : s.Kept guard) (h : s.Leaked guard r t)
    (hes : ∀ e ∈ es, sys.Allowed e) : s'.Leaked guard r t := by
  induction hp with
  | nil s => exact h
  | cons hstep _ ih =>
    have hm := (step_iff sys).1 hstep
    have he := hes _ (.head _)
    exact ih (hk.step hg he hm) (h.step hg hk he hm) fun e he => hes e (.tail _ he)

end Leak

/-! ## What is written in one piece -/

section Serial

variable [DecidableEq ρ] [DecidableEq χ] (guard : χ → ρ) (c : χ)

/-- What the acts write to the connection before they next lock its mutex, and then in each section
that begins so. -/
def cut : List (Act ρ χ β) → List β × List (List β)
  | [] => ([], [])
  | .lock r :: p => if r = guard c then ([], (cut p).1 :: (cut p).2) else cut p
  | .unlock _ :: p => cut p
  | .put c' b :: p => if c' = c then (b :: (cut p).1, (cut p).2) else cut p

variable {guard c}

/-- Without the mutex nothing is written. -/
theorem Keeps.cut_fst : ∀ {p : List (Act ρ χ β)} {held : Set ρ}, Keeps guard held p →
    guard c ∉ held → (cut guard c p).1 = []
  | [], _, _, _ => rfl
  | .lock r :: p, held, h, hc => by
    unfold cut
    split_ifs with hr
    · rfl
    · refine Keeps.cut_fst (p := p) h ?_
      rw [Set.mem_insert_iff, not_or]
      exact ⟨Ne.symm hr, hc⟩
  | .unlock r :: p, held, h, hc => by
    unfold cut
    exact Keeps.cut_fst (p := p) h.2 fun hm => hc hm.1
  | .put c' b :: p, held, h, hc => by
    unfold cut
    split_ifs with hcc
    · exact absurd (hcc ▸ h.1) hc
    · exact Keeps.cut_fst (p := p) h.2 hc

/-- The acts begin outside of a section, and every section writes what the property says. -/
structure Cuts (guard : χ → ρ) (c : χ) (P : List β → Prop) (p : List (Act ρ χ β)) : Prop where
  fst : (cut guard c p).1 = []
  snd : ∀ w ∈ (cut guard c p).2, P w

theorem cut_append {q : List (Act ρ χ β)} (hq : (cut guard c q).1 = []) :
    ∀ p : List (Act ρ χ β),
      cut guard c (p ++ q) = ((cut guard c p).1, (cut guard c p).2 ++ (cut guard c q).2)
  | [] => Prod.ext hq rfl
  | .lock r :: p => by
    rw [List.cons_append, cut, cut, cut_append hq p]
    split_ifs <;> rfl
  | .unlock r :: p => by
    rw [List.cons_append, cut, cut, cut_append hq p]
  | .put c' b :: p => by
    rw [List.cons_append, cut, cut, cut_append hq p]
    split_ifs <;> rfl

theorem cut_writes (c' : χ) (q : List (Act ρ χ β)) : ∀ bs : List β,
    cut guard c (bs.map (.put c') ++ q)
      = ((if c' = c then bs else []) ++ (cut guard c q).1, (cut guard c q).2)
  | [] => by simp
  | b :: bs => by
    rw [List.map_cons, List.cons_append, cut, cut_writes c' q bs]
    split_ifs <;> rfl

namespace Cuts

variable {P : List β → Prop} {p q : List (Act ρ χ β)}

theorem nil : Cuts guard c P ([] : List (Act ρ χ β)) :=
  ⟨rfl, fun _ hw => absurd hw List.not_mem_nil⟩

theorem append (h : Cuts guard c P p) (h' : Cuts guard c P q) : Cuts guard c P (p ++ q) := by
  have heq := cut_append h'.fst p
  refine ⟨by rw [heq, h.fst], fun w hw => ?_⟩
  rw [heq, List.mem_append] at hw
  exact hw.elim (h.snd w) (h'.snd w)

theorem flatMap {ι : Type*} {f : ι → List (Act ρ χ β)} : ∀ {xs : List ι},
    (∀ x ∈ xs, Cuts guard c P (f x)) → Cuts guard c P (xs.flatMap f)
  | [], _ => nil
  | x :: xs, h => by
    rw [List.flatMap_cons]
    exact (h x (.head _)).append (Cuts.flatMap fun y hy => h y (.tail _ hy))

/-- Another mutex around the acts. -/
theorem around {r r' : ρ} (hr : r ≠ guard c) (h : Cuts guard c P p) :
    Cuts guard c P (.lock r :: (p ++ [.unlock r'])) := by
  have hlast : Cuts guard c P [.unlock r'] := ⟨rfl, fun _ hw => absurd hw List.not_mem_nil⟩
  have heq : cut guard c (.lock r :: (p ++ [.unlock r'])) = cut guard c (p ++ [.unlock r']) := by
    rw [cut, if_neg hr]
  obtain ⟨hfst, hsnd⟩ := h.append hlast
  exact ⟨heq ▸ hfst, heq ▸ hsnd⟩

/-- A section. -/
theorem lock (hfst : P (cut guard c p).1) (hsnd : ∀ w ∈ (cut guard c p).2, P w) :
    Cuts guard c P (.lock (guard c) :: p) := by
  have heq : cut guard c (.lock (guard c) :: p)
      = ([], (cut guard c p).1 :: (cut guard c p).2) := by
    rw [cut, if_pos rfl]
  refine ⟨by rw [heq], fun w hw => ?_⟩
  rw [heq] at hw
  rcases List.mem_cons.1 hw with rfl | hw
  · exact hfst
  · exact hsnd w hw

end Cuts

variable (guard c) [DecidableEq τ] (sys : System τ ρ χ β)

/-- The sections of the calls the thread has begun. -/
def begun (t : τ) (es : List (Event τ ρ χ β)) : List (List β) :=
  es.flatMap fun
    | .call t' p => if t' = t then (cut guard c p).2 else []
    | .read c' _ p => if sys.reader c' = t then (cut guard c p).2 else []
    | .run _ => []

/-- The thread's own blocks. -/
def ofThread (t : τ) (blocks : List (τ × List β)) : List (List β) :=
  (blocks.filter fun x => x.1 = t).map Prod.snd

/-- The blocks a connection consists of, each with the thread that has written it: with those still
to come, each thread's are the sections of its calls, and the thread that holds the mutex is in the
middle of the last one. -/
structure Serial (es : List (Event τ ρ χ β)) (blocks : List (τ × List β)) (s : State τ ρ χ β) :
    Prop where
  sent : s.sent c = (blocks.map Prod.snd).flatten
  free : ∀ t, s.holder (guard c) ≠ some t →
    ofThread t blocks ++ (cut guard c (s.todo t)).2 = begun guard c sys t es
  held : ∀ t, s.holder (guard c) = some t → ∃ bs w, blocks = bs ++ [(t, w)]
    ∧ ofThread t bs ++ (w ++ (cut guard c (s.todo t)).1) :: (cut guard c (s.todo t)).2
      = begun guard c sys t es

variable {guard c sys} {s s' : State τ ρ χ β} {e : Event τ ρ χ β} {t : τ}
  {es : List (Event τ ρ χ β)} {blocks : List (τ × List β)}

theorem ofThread_concat (t t' : τ) (w : List β) :
    ofThread t (blocks ++ [(t', w)])
      = ofThread t blocks ++ if t' = t then [w] else [] := by
  unfold ofThread
  rw [List.filter_append, List.map_append]
  split_ifs with h <;> simp [h]

theorem begun_concat (t : τ) (e : Event τ ρ χ β) :
    begun guard c sys t (es ++ [e]) = begun guard c sys t es ++ begun guard c sys t [e] := by
  simp [begun]

theorem begun_run (t t' : τ) :
    begun guard c sys t (es ++ [.run t']) = begun guard c sys t es := by
  simp [begun]

theorem serial_idle : Serial guard c sys [] [] (State.idle : State τ ρ χ β) where
  sent := rfl
  free _ _ := rfl
  held t h := by cases h

/-- A step that begins a call, and writes nothing. -/
theorem Serial.begins (h : Serial guard c sys es blocks s) {p : List (Act ρ χ β)}
    (hidle : s.todo t = []) (hp : Keeps guard ∅ p) (hsent : s'.sent c = s.sent c)
    (hholder : s'.holder = s.holder) (htodo : s'.todo = Function.update s.todo t p)
    (he : ∀ t', begun guard c sys t' [e] = if t' = t then (cut guard c p).2 else []) :
    Serial guard c sys (es ++ [e]) blocks s' where
  sent := hsent.trans h.sent
  free t' ht' := by
    rw [hholder] at ht'
    have := h.free t' ht'
    rw [begun_concat, he, htodo, ← this]
    rcases eq_or_ne t' t with rfl | ht
    · simp [hidle, cut]
    · simp [ht]
  held t' ht' := by
    rw [hholder] at ht'
    obtain ⟨bs, w, hb, hlast⟩ := h.held t' ht'
    refine ⟨bs, w, hb, ?_⟩
    rw [begun_concat, he, htodo, ← hlast]
    rcases eq_or_ne t' t with rfl | ht
    · simp [hidle, cut, hp.cut_fst (Set.notMem_empty _)]
    · simp [ht]

/-- A step of a thread at work that leaves the connection and its mutex alone. -/
theorem Serial.other (h : Serial guard c sys es blocks s) {a : Act ρ χ β} {p : List (Act ρ χ β)}
    (htodo : s.todo t = a :: p) (ha : cut guard c (a :: p) = cut guard c p)
    (hsent : s'.sent c = s.sent c) (hholder : s'.holder (guard c) = s.holder (guard c))
    (htodo' : s'.todo = Function.update s.todo t p) :
    Serial guard c sys (es ++ [.run t]) blocks s' := by
  have hcut : ∀ t', cut guard c (s'.todo t') = cut guard c (s.todo t') := by
    intro t'
    rw [htodo']
    rcases eq_or_ne t' t with rfl | ht
    · rw [Function.update_self, htodo, ha]
    · rw [Function.update_of_ne ht]
  refine ⟨hsent.trans h.sent, fun t' ht' => ?_, fun t' ht' => ?_⟩
  · rw [hcut, begun_run]
    exact h.free t' (hholder ▸ ht')
  · rw [hcut, begun_run]
    exact h.held t' (hholder ▸ ht')

/-- A thread takes the mutex: a block begins. -/
theorem Serial.lock (h : Serial guard c sys es blocks s) {p : List (Act ρ χ β)}
    (htodo : s.todo t = .lock (guard c) :: p) (hfree : s.holder (guard c) = none) :
    Serial guard c sys (es ++ [.run t]) (blocks ++ [(t, [])]) { s with
      todo := Function.update s.todo t p
      holder := Function.update s.holder (guard c) (some t) } := by
  have hall : ∀ t', s.holder (guard c) ≠ some t' := by simp [hfree]
  refine ⟨?_, fun t' ht' => ?_, fun t' ht' => ?_⟩
  · simp [h.sent]
  · have ht : t ≠ t' := fun he => ht' (by simp [he])
    show ofThread t' (blocks ++ [(t, [])]) ++ (cut guard c (Function.update s.todo t p t')).2 = _
    rw [ofThread_concat, if_neg ht, Function.update_of_ne ht.symm, List.append_nil, begun_run]
    exact h.free t' (hall t')
  · obtain rfl : t = t' := by simpa using ht'
    refine ⟨blocks, [], rfl, ?_⟩
    have := h.free t (hall t)
    rw [htodo] at this
    simp only [cut, if_pos] at this
    rw [begun_run, ← this]
    simp

/-- A thread releases the mutex: its block is whole. -/
theorem Serial.unlock (hk : s.Kept guard) (h : Serial guard c sys es blocks s)
    {p : List (Act ρ χ β)} (htodo : s.todo t = .unlock (guard c) :: p) :
    Serial guard c sys (es ++ [.run t]) blocks { s with
      todo := Function.update s.todo t p
      holder := Function.update s.holder (guard c) none } := by
  obtain ⟨hown, hkeep⟩ := hk.of_todo htodo
  have hown : s.holder (guard c) = some t := hown
  refine ⟨h.sent, fun t' _ => ?_, fun t' ht' => by simp at ht'⟩
  show ofThread t' blocks ++ (cut guard c (Function.update s.todo t p t')).2 = _
  rw [begun_run]
  rcases eq_or_ne t' t with rfl | ht
  · obtain ⟨bs, w, rfl, hlast⟩ := h.held t' hown
    -- nothing is written any more before the next section
    have hnone : (cut guard c p).1 = [] := hkeep.cut_fst (by simp)
    rw [htodo] at hlast
    simp only [cut, hnone, List.append_nil] at hlast
    rw [Function.update_self, ofThread_concat, if_pos rfl, ← hlast]
    simp
  · rw [Function.update_of_ne ht]
    exact h.free t' fun he => ht (Option.some.inj (hown.symm.trans he)).symm

/-- A thread writes to the connection: its block grows. -/
theorem Serial.put (hk : s.Kept guard) (h : Serial guard c sys es blocks s) {b : β}
    {p : List (Act ρ χ β)} (htodo : s.todo t = .put c b :: p) :
    ∃ blocks', Serial guard c sys (es ++ [.run t]) blocks' { s with
      todo := Function.update s.todo t p
      sent := Function.update s.sent c (s.sent c ++ [b])
      count := Function.update s.count c (s.count c + 1) } := by
  have hown := hk.writer htodo
  obtain ⟨bs, w, rfl, hlast⟩ := h.held t hown
  refine ⟨bs ++ [(t, w ++ [b])], ?_, fun t' ht' => ?_, fun t' ht' => ?_⟩
  · simp [h.sent]
  · have ht : t ≠ t' := fun he => ht' (he ▸ hown)
    show ofThread t' (bs ++ [(t, w ++ [b])]) ++ (cut guard c (Function.update s.todo t p t')).2 = _
    rw [Function.update_of_ne ht.symm, begun_run, ← h.free t' ht', ofThread_concat, ofThread_concat,
      if_neg ht, if_neg ht]
  · obtain rfl : t = t' := Option.some.inj (hown.symm.trans ht')
    refine ⟨bs, w ++ [b], rfl, ?_⟩
    rw [htodo] at hlast
    simp only [cut, if_pos] at hlast
    rw [begun_run, ← hlast]
    simp

theorem Serial.step (hg : Guarded guard sys) (hk : s.Kept guard)
    (h : Serial guard c sys es blocks s) (he : sys.Allowed e) (hm : Moves sys s e s') :
    ∃ blocks', Serial guard c sys (es ++ [e]) blocks' s' := by
  cases hm with
  | call t p hidle =>
    refine ⟨blocks, h.begins hidle (hg.calls t p he) rfl rfl rfl fun t' => ?_⟩
    simp [begun, eq_comm]
  | read c' k p hidle hk hle =>
    refine ⟨blocks, h.begins hidle (hg.handles c' p he) rfl rfl rfl fun t' => ?_⟩
    simp [begun, eq_comm]
  | lock t r p htodo hfree =>
    rcases eq_or_ne r (guard c) with rfl | hr
    · exact ⟨_, h.lock htodo hfree⟩
    · refine ⟨blocks, h.other htodo (by simp [cut, hr]) rfl ?_ rfl⟩
      exact Function.update_of_ne hr.symm _ _
  | unlock t r p htodo =>
    rcases eq_or_ne r (guard c) with rfl | hr
    · exact ⟨_, h.unlock hk htodo⟩
    · refine ⟨blocks, h.other htodo rfl rfl ?_ rfl⟩
      exact Function.update_of_ne hr.symm _ _
  | put t c' b p htodo hroom =>
    rcases eq_or_ne c' c with rfl | hc
    · exact h.put hk htodo
    · refine ⟨blocks, h.other htodo (by simp [cut, hc]) ?_ rfl rfl⟩
      exact Function.update_of_ne hc.symm _ _

/-- What has been written to a connection is, while its mutex is free, a row of whole sections. -/
theorem Guarded.serial (hg : Guarded guard sys) (hp : Path sys.step .idle es s)
    (hes : ∀ e ∈ es, sys.Allowed e) : ∃ blocks, Serial guard c sys es blocks s := by
  refine (hp.history (I := fun pre s => (∀ e ∈ pre, sys.Allowed e) →
    s.Kept guard ∧ ∃ blocks, Serial guard c sys pre blocks s) ?_ []
    (fun _ => ⟨kept_idle, [], serial_idle⟩) hes).2
  intro pre s e s' ih hstep hes
  obtain ⟨hk, blocks, h⟩ := ih fun e he => hes e (List.mem_append_left _ he)
  have he : sys.Allowed e := hes e (by simp)
  have hm := (step_iff sys).1 hstep
  exact ⟨hk.step hg he hm, h.step hg hk he hm⟩

/-- While the mutex is free, what the sections of all calls write is what the blocks are. -/
theorem Serial.all (h : Serial guard c sys es blocks s) {P : List β → Prop}
    (hfree : s.holder (guard c) = none)
    (hes : ∀ t, ∀ w ∈ begun guard c sys t es, P w) : ∀ x ∈ blocks, P x.2 := by
  intro x hx
  have hmem : x.2 ∈ ofThread x.1 blocks :=
    List.mem_map.2 ⟨x, List.mem_filter.2 ⟨hx, by simp⟩, rfl⟩
  have heq := h.free x.1 (by simp [hfree])
  exact hes x.1 _ (heq ▸ List.mem_append_left _ hmem)

end Serial

end WaitOrder
