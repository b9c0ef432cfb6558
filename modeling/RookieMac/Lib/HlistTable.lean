import RookieMac.Lib.Hlist
import RookieMac.Lib.Chained

/-!
# Chained tables on lists of nodes

A table whose chains are lists in memory: what the loops that look for an element, overwrite it, take
it out or take out every element of a kind do to the table. A body that frees the node at hand is
safe, for the loop has read the next one before.
-/

namespace Hlist

universe u

variable {ι α β : Type u}

/-- A new node goes before the first one, if there is one. -/
def push [DecidableEq ι] [DecidableEq α] (n : α) (h : ι) (m : Mem ι α β) :
    Except Fault (Mem ι α β) := do
  let first ← m.load (.first h)
  match first with
  | none => addHead n h m
  | some x => addBefore n x m

/-- The loop, if the list has a first node. -/
def checkWalk {σ : Type u} [DecidableEq ι] [DecidableEq α] (h : ι)
    (body : α → Mem ι α β × σ → Except Fault ((Mem ι α β × σ) × Bool)) (s : Mem ι α β × σ) :
    Except Fault (Mem ι α β × σ) := do
  let first ← s.1.load (.first h)
  match first with
  | none => .ok s
  | some _ => walk h body s

/-- `hlist_for_each` with a body that only reads, from the node at hand. -/
def forEach {σ : Type u} [DecidableEq α] (m : Mem ι α β) (body : σ → β → σ) :
    ℕ → Option α → σ → Except Fault σ
  | _, none, s => .ok s
  | 0, some _, _ => .error .endless
  | fuel + 1, some pos, s => do
    let v ← m.entry pos
    let n ← m.load (.next pos)
    forEach m body fuel n (body s v)

/-! ## The loops -/

section Loops

variable [DecidableEq α] {σ : Type u} {m : Mem ι α β} {held : Finset α} {t : ι → List α}

/-- A loop over the nodes `todo`: the invariant speaks of what is still to do. -/
theorem forEachSafe_spec {body : α → Mem ι α β × σ → Except Fault ((Mem ι α β × σ) × Bool)}
    {I : List α → Mem ι α β × σ → Prop} {Q : Mem ι α β × σ → Prop}
    (hnext : ∀ a todo s, I (a :: todo) s → s.1.load (.next a) = .ok todo.head?)
    (hbody : ∀ a todo s, I (a :: todo) s →
      ∃ s' leave, body a s = .ok (s', leave) ∧ if leave then Q s' else I todo s')
    (hend : ∀ s, I [] s → Q s) :
    ∀ (todo : List α) (fuel : ℕ) (s : Mem ι α β × σ), todo.length ≤ fuel → I todo s →
      ∃ s', forEachSafe body fuel todo.head? s = .ok s' ∧ Q s'
  | [], fuel, s, _, hI => by
    refine ⟨s, ?_, hend s hI⟩
    cases fuel <;> rfl
  | a :: todo, fuel + 1, s, hf, hI => by
    obtain ⟨s', leave, hs', hl⟩ := hbody a todo s hI
    have hf' : todo.length ≤ fuel := by simpa using hf
    cases leave with
    | true =>
      refine ⟨s', ?_, hl⟩
      simp [forEachSafe, hnext a todo s hI, hs', bind, Except.bind, pure, Except.pure]
    | false =>
      obtain ⟨s'', hr, hQ⟩ := forEachSafe_spec hnext hbody hend todo fuel s' hf' hl
      refine ⟨s'', ?_, hQ⟩
      simpa [forEachSafe, hnext a todo s hI, hs', bind, Except.bind] using hr

theorem Holds.load_first (h : Holds m held t) (i : ι) : m.load (.first i) = .ok (t i).head? := by
  have hv : Valid m.live (.first i : Loc ι α) := trivial
  rw [Mem.load, if_pos hv, (h.chain i).head]

theorem Holds.load_next (h : Holds m held t) {i : ι} {x : α} {pre suf : List α}
    (ht : t i = pre ++ x :: suf) : m.load (.next x) = .ok suf.head? := by
  have hv : Valid m.live (.next x : Loc ι α) := h.live_of_mem (i := i) (by simp [ht])
  have hc := h.chain i
  rw [ht] at hc
  rw [Mem.load, if_pos hv, hc.at_node.2]

theorem Holds.checkWalk [DecidableEq ι] (h : Holds m held t) (i : ι)
    (body : α → Mem ι α β × σ → Except Fault ((Mem ι α β × σ) × Bool)) (s : σ) :
    checkWalk i body (m, s) = walk i body (m, s) := by
  rw [Hlist.checkWalk, walk, h.load_first]
  rcases t i with _ | ⟨a, as⟩
  · simp [forEachSafe, bind, Except.bind]
  · simp [bind, Except.bind]

/-- The loop over a list goes through its nodes. -/
theorem walk_spec {body : α → Mem ι α β × σ → Except Fault ((Mem ι α β × σ) × Bool)}
    {I : List α → Mem ι α β × σ → Prop} {Q : Mem ι α β × σ → Prop} {i : ι} {s : σ}
    (h : Holds m held t)
    (hnext : ∀ a todo s, I (a :: todo) s → s.1.load (.next a) = .ok todo.head?)
    (hbody : ∀ a todo s, I (a :: todo) s →
      ∃ s' leave, body a s = .ok (s', leave) ∧ if leave then Q s' else I todo s')
    (hend : ∀ s, I [] s → Q s) (hI : I (t i) (m, s)) : ∃ s', walk i body (m, s) = .ok s' ∧ Q s' := by
  rw [walk, h.load_first]
  exact forEachSafe_spec hnext hbody hend (t i) _ _ (h.length_le i) hI

end Loops

/-! ## Tables of lists -/

/-- The lists hold the chains of the table, and nothing else but `held` is allocated. -/
def Represents (m : Mem ι α β) (held : Finset α) (tbl : ι → List β) : Prop :=
  ∃ t : ι → List α, Holds m held t ∧ ∀ i, (t i).map m.val = tbl i

section Tables

variable [DecidableEq ι] [DecidableEq α] {σ : Type u} {m : Mem ι α β} {held : Finset α}
  {tbl : ι → List β} {i : ι} {n x : α}

omit [DecidableEq ι] [DecidableEq α] in
theorem Represents.init (m : Mem ι α β) : Represents (init { m with live := ∅ }) ∅ fun _ => [] :=
  ⟨_, .init m, fun _ => rfl⟩

omit [DecidableEq ι] [DecidableEq α] in
theorem Represents.live_of_held (h : Represents m held tbl) (hx : x ∈ held) : x ∈ m.live := by
  obtain ⟨t, ht, -⟩ := h
  exact ht.live_of_held hx

omit [DecidableEq ι] in
theorem Represents.malloc (h : Represents m held tbl) (hx : x ∉ m.live) (v : β) :
    Represents (m.malloc x v) (insert x held) tbl := by
  obtain ⟨t, ht, hval⟩ := h
  refine ⟨t, ht.malloc hx v, fun i => ?_⟩
  rw [← hval i]
  refine List.map_congr_left fun y hy => Function.update_of_ne ?_ _ _
  rintro rfl
  exact hx (ht.live_of_mem hy)

omit [DecidableEq ι] in
theorem Represents.free (h : Represents m held tbl) (hx : x ∈ held) :
    ∃ m', m.free x = .ok m' ∧ Represents m' (held.erase x) tbl := by
  obtain ⟨t, ht, hval⟩ := h
  obtain ⟨m', hm', hv, -, ht'⟩ := ht.free hx
  exact ⟨m', hm', t, ht', fun i => by rw [hv, hval i]⟩

omit [DecidableEq α] in
theorem Represents.update_cons {t : ι → List α} {m' : Mem ι α β} (hval : ∀ i, (t i).map m.val = tbl i)
    (hv : m'.val = m.val) (ht : Holds m' held (Function.update t i (n :: t i))) :
    Represents m' held (Function.update tbl i (m.val n :: tbl i)) := by
  refine ⟨_, ht, fun j => ?_⟩
  rw [hv]
  rcases eq_or_ne j i with rfl | hj
  · rw [Function.update_self, Function.update_self, List.map_cons, hval j]
  · rw [Function.update_of_ne hj, Function.update_of_ne hj, hval j]

theorem Represents.addHead (h : Represents m held tbl) (i : ι) (hn : n ∈ held) :
    ∃ m', addHead n i m = .ok m'
      ∧ Represents m' (held.erase n) (Function.update tbl i (m.val n :: tbl i)) := by
  obtain ⟨t, ht, hval⟩ := h
  obtain ⟨m', hm', hv, -, ht'⟩ := ht.addHead i hn
  exact ⟨m', hm', .update_cons hval hv ht'⟩

/-- Before the first node. -/
theorem Represents.addBefore (h : Represents m held tbl) (hx : m.ptr (.first i) = some x)
    (hn : n ∈ held) :
    ∃ m', addBefore n x m = .ok m'
      ∧ Represents m' (held.erase n) (Function.update tbl i (m.val n :: tbl i)) := by
  obtain ⟨t, ht, hval⟩ := h
  rw [(ht.chain i).head] at hx
  obtain ⟨suf, hsuf⟩ := List.head?_eq_some_iff.1 hx
  have hfirst : t i = [] ++ x :: suf := hsuf
  obtain ⟨m', hm', hv, -, ht'⟩ := ht.addBefore hfirst hn
  rw [List.nil_append, ← hsuf] at ht'
  exact ⟨m', hm', .update_cons hval hv ht'⟩

theorem Represents.push (h : Represents m held tbl) (i : ι) (hn : n ∈ held) :
    ∃ m', push n i m = .ok m'
      ∧ Represents m' (held.erase n) (Function.update tbl i (m.val n :: tbl i)) := by
  have hv : Valid m.live (.first i : Loc ι α) := trivial
  rw [Hlist.push, Mem.load, if_pos hv]
  rcases hx : m.ptr (.first i) with _ | x
  · exact h.addHead i hn
  · exact h.addBefore hx hn

omit [DecidableEq ι] in
theorem forEach_chain {b : σ → β → σ} : ∀ (xs : List α) (p : Loc ι α) (fuel : ℕ) (s : σ),
    Chain m p xs → (∀ a ∈ xs, a ∈ m.live) → xs.length ≤ fuel →
      forEach m b fuel xs.head? s = .ok ((xs.map m.val).foldl b s)
  | [], _, fuel, _, _, _, _ => by cases fuel <;> rfl
  | a :: xs, p, fuel + 1, s, hc, hl, hf => by
    have hv : Valid m.live (.next a : Loc ι α) := hl a (.head _)
    have hload : m.load (.next a) = .ok xs.head? := by rw [Mem.load, if_pos hv, hc.2.2.head]
    have hentry : m.entry a = .ok (m.val a) := if_pos (hl a (.head _))
    have ih := forEach_chain (b := b) xs (.next a) fuel (b s (m.val a)) hc.2.2
      (fun b hb => hl b (.tail _ hb)) (by simpa using hf)
    rw [List.map_cons, List.foldl_cons, ← ih]
    simp [forEach, hentry, hload, bind, Except.bind]

omit [DecidableEq ι] in
theorem Represents.forEach (h : Represents m held tbl) (i : ι) (b : σ → β → σ) (s : σ) :
    Hlist.forEach m b m.live.card (m.ptr (.first i)) s = .ok ((tbl i).foldl b s) := by
  obtain ⟨t, ht, hval⟩ := h
  rw [← hval i, (ht.chain i).head]
  exact forEach_chain (t i) _ _ s (ht.chain i) (fun a ha => ht.live_of_mem ha) (ht.length_le i)

theorem Represents.checkWalk (h : Represents m held tbl) (i : ι)
    (body : α → Mem ι α β × σ → Except Fault ((Mem ι α β × σ) × Bool)) (s : σ) :
    Hlist.checkWalk i body (m, s) = walk i body (m, s) := by
  obtain ⟨t, ht, -⟩ := h
  exact ht.checkWalk i body s

omit [DecidableEq ι] in
/-- A loop that leaves at the first node `q` picks. -/
theorem forEachSafe_first {body : α → Mem ι α β × σ → Except Fault ((Mem ι α β × σ) × Bool)}
    {act : α → Except Fault (Mem ι α β × σ)} {q : α → Bool} {s : σ} :
    ∀ (xs : List α) (p : Loc ι α) (fuel : ℕ), Chain m p xs → (∀ a ∈ xs, a ∈ m.live) →
      (∀ a ∈ xs, q a = true → body a (m, s) = (act a).map (·, true)) →
      (∀ a ∈ xs, q a = false → body a (m, s) = .ok ((m, s), false)) → xs.length ≤ fuel →
      forEachSafe body fuel xs.head? (m, s) = (xs.find? q).elim (.ok (m, s)) act
  | [], _, fuel, _, _, _, _, _ => by cases fuel <;> rfl
  | a :: xs, p, fuel + 1, hc, hl, hyes, hno, hf => by
    have hv : Valid m.live (.next a : Loc ι α) := hl a (.head _)
    have hload : m.load (.next a) = .ok xs.head? := by rw [Mem.load, if_pos hv, hc.2.2.head]
    rcases hq : q a with _ | _
    · have ih := forEachSafe_first xs (.next a) fuel hc.2.2 (fun b hb => hl b (.tail _ hb))
        (fun b hb => hyes b (.tail _ hb)) (fun b hb => hno b (.tail _ hb)) (by simpa using hf)
      rw [List.find?_cons_of_neg (by simp [hq]), ← ih]
      simp [forEachSafe, hload, hno a (.head _) hq, bind, Except.bind]
    · rw [List.find?_cons_of_pos hq]
      rcases hact : act a with f | s' <;>
        simp [forEachSafe, hload, hyes a (.head _) hq, hact, bind, Except.bind, Except.map, pure,
          Except.pure]

omit [DecidableEq ι] in
theorem Holds.walk_first {t : ι → List α} (h : Holds m held t)
    (body : α → Mem ι α β × σ → Except Fault ((Mem ι α β × σ) × Bool)) (q : α → Bool)
    (act : α → Except Fault (Mem ι α β × σ)) (s : σ) (i : ι)
    (hyes : ∀ a ∈ t i, q a = true → body a (m, s) = (act a).map (·, true))
    (hno : ∀ a ∈ t i, q a = false → body a (m, s) = .ok ((m, s), false)) :
    walk i body (m, s) = ((t i).find? q).elim (.ok (m, s)) act := by
  rw [walk, h.load_first]
  exact forEachSafe_first _ _ _ (h.chain i) (fun a ha => h.live_of_mem ha) hyes hno (h.length_le i)

variable {p : β → Bool} {s : σ} {g : σ → σ}
  {body : α → Mem ι α β × σ → Except Fault ((Mem ι α β × σ) × Bool)}

/-- The body of a loop that overwrites the first element `p` picks, on this memory. -/
def Overwrites (m : Mem ι α β) (p : β → Bool) (f : β → β) (g : σ → σ)
    (body : α → Mem ι α β × σ → Except Fault ((Mem ι α β × σ) × Bool)) : Prop :=
  ∀ a s, a ∈ m.live → body a (m, s) = if p (m.val a) then
    (do let m ← m.setEntry a (f (m.val a)); .ok ((m, g s), true)) else .ok ((m, s), false)

/-- The body of a loop that takes out the elements `p` picks, or the first of them only. -/
def Unlinks (p : β → Bool) (leave : Bool) (poison₁ : α) (poison₂ : Loc ι α) (g : σ → σ)
    (body : α → Mem ι α β × σ → Except Fault ((Mem ι α β × σ) × Bool)) : Prop :=
  ∀ a m s, a ∈ m.live → body a (m, s) = if p (m.val a) then
    (do let m ← del poison₁ poison₂ a m; let m ← m.free a; .ok ((m, g s), leave))
    else .ok ((m, s), false)

omit [DecidableEq ι] [DecidableEq α] in
/-- What is found in a list of nodes is found in what they hold. -/
theorem find?_split {xs : List α} {q : α → Bool} {a : α} (h : xs.find? q = some a) :
    ∃ pre suf, xs = pre ++ a :: suf ∧ q a = true ∧ ∀ b ∈ pre, q b = false := by
  obtain ⟨hq, pre, suf, hxs, hpre⟩ := List.find?_eq_some_iff_append.1 h
  exact ⟨pre, suf, hxs, hq, fun b hb => by simpa using hpre b hb⟩

omit [DecidableEq ι] [DecidableEq α] in
theorem modifyFirst_append {b : β} (hb : p b = true) (f : β → β) (l₂ : List β) :
    ∀ l₁ : List β, (∀ v ∈ l₁, p v = false) →
      Chained.modifyFirst p f (l₁ ++ b :: l₂) = some (l₁ ++ f b :: l₂)
  | [], _ => by simp [Chained.modifyFirst, hb]
  | v :: l₁, h => by
    have ih := modifyFirst_append hb f l₂ l₁ fun w hw => h w (.tail _ hw)
    simp [Chained.modifyFirst, h v (.head _), ih]

omit [DecidableEq ι] [DecidableEq α] in
theorem Represents.split {t : ι → List α} (hval : ∀ i, (t i).map m.val = tbl i) {a : α}
    (ha : (t i).find? (fun a => p (m.val a)) = some a) :
    ∃ pre suf, t i = pre ++ a :: suf ∧ p (m.val a) = true
      ∧ tbl i = pre.map m.val ++ m.val a :: suf.map m.val ∧ ∀ v ∈ pre.map m.val, p v = false := by
  obtain ⟨pre, suf, ht, hp, hpre⟩ := find?_split ha
  refine ⟨pre, suf, ht, hp, by rw [← hval i, ht, List.map_append, List.map_cons], fun v hv => ?_⟩
  obtain ⟨b, hb, rfl⟩ := List.mem_map.1 hv
  exact hpre b hb

omit [DecidableEq ι] [DecidableEq α] in
theorem Represents.notFound {t : ι → List α} (hval : ∀ i, (t i).map m.val = tbl i)
    (hn : (t i).find? (fun a => p (m.val a)) = none) : ∀ v ∈ tbl i, p v = false := by
  intro v hv
  rw [← hval i] at hv
  obtain ⟨b, hb, rfl⟩ := List.mem_map.1 hv
  simpa using List.find?_eq_none.1 hn b hb

theorem Represents.walk_overwrite {f : β → β} (h : Represents m held tbl)
    (hb : Overwrites m p f g body) (i : ι) (s : σ) :
    (Chained.modifyFirst p f (tbl i) = none ∧ walk i body (m, s) = .ok (m, s))
      ∨ ∃ chain m', Chained.modifyFirst p f (tbl i) = some chain
        ∧ walk i body (m, s) = .ok (m', g s) ∧ m'.live = m.live
        ∧ (∀ x ∈ held, m'.val x = m.val x) ∧ Represents m' held (Function.update tbl i chain) := by
  obtain ⟨t, ht, hval⟩ := h
  have hwalk := ht.walk_first body (fun a => p (m.val a))
    (fun a => do let m ← m.setEntry a (f (m.val a)); .ok (m, g s)) s i
    (fun a ha hp => by simp [hb a s (ht.live_of_mem ha), hp, Mem.setEntry, ht.live_of_mem ha, bind,
      Except.bind, Except.map])
    (fun a ha hp => by simp [hb a s (ht.live_of_mem ha), hp])
  rcases hfind : (t i).find? (fun a => p (m.val a)) with _ | a
  · rw [hfind] at hwalk
    exact .inl ⟨Chained.modifyFirst_eq_none.2 (Represents.notFound hval hfind), hwalk⟩
  · obtain ⟨pre, suf, hti, hp, htbl, hpre⟩ := Represents.split hval hfind
    have hai : a ∈ t i := by simp [hti]
    have hlive := ht.live_of_mem hai
    set m' : Mem ι α β := { m with val := Function.update m.val a (f (m.val a)) }
    have hact : walk i body (m, s) = .ok (m', g s) := by
      rw [hwalk, hfind]
      simp [Mem.setEntry, hlive, bind, Except.bind, m']
    have hm' : Holds m' held t := ht.of_val rfl rfl rfl
    have hoff : ∀ y, y ≠ a → m'.val y = m.val y := fun y hy => Function.update_of_ne hy _ _
    refine .inr ⟨_, m', by rw [htbl, modifyFirst_append hp f _ _ hpre], hact, rfl, fun x hx => ?_, t, hm',
      fun j => ?_⟩
    · exact hoff x fun e => ht.unlinked x hx i (e ▸ hai)
    · rcases eq_or_ne j i with rfl | hj
      · have hnd := ht.nodup j
        rw [hti, List.nodup_middle, List.nodup_cons, List.mem_append, not_or] at hnd
        rw [Function.update_self, hti, List.map_append, List.map_cons]
        congr 1
        · exact List.map_congr_left fun y hy => hoff y fun e => hnd.1.1 (e ▸ hy)
        · rw [show m'.val a = f (m.val a) from Function.update_self _ _ _]
          congr 1
          exact List.map_congr_left fun y hy => hoff y fun e => hnd.1.2 (e ▸ hy)
      · rw [Function.update_of_ne hj, ← hval j]
        exact List.map_congr_left fun y hy => hoff y fun e => hj (ht.inj j i y hy (e ▸ hai))

/-- A node of a table is taken out and freed. -/
theorem Holds.del_free {t : ι → List α} {pre suf : List α} (h : Holds m held t)
    (ht : t i = pre ++ x :: suf) (poison₁ : α) (poison₂ : Loc ι α) :
    ∃ m₁ m₂, Hlist.del poison₁ poison₂ x m = .ok m₁ ∧ m₁.free x = .ok m₂ ∧ m₂.val = m.val
      ∧ Holds m₂ held (Function.update t i (pre ++ suf)) := by
  have hx : x ∉ held := fun hx => h.unlinked x hx i (by simp [ht])
  obtain ⟨m₁, hdel, hv₁, -, h₁⟩ := h.del ht poison₁ poison₂
  obtain ⟨m₂, hfree, hv₂, -, h₂⟩ := h₁.free (Finset.mem_insert_self x held)
  rw [Finset.erase_insert hx] at h₂
  exact ⟨m₁, m₂, hdel, hfree, hv₂.trans hv₁, h₂⟩

omit [DecidableEq α] in
theorem Represents.update_chain {t : ι → List α} {m' : Mem ι α β} {xs : List α} {l : List β}
    (hval : ∀ i, (t i).map m.val = tbl i) (hv : m'.val = m.val) (hl : xs.map m.val = l)
    (ht : Holds m' held (Function.update t i xs)) :
    Represents m' held (Function.update tbl i l) := by
  refine ⟨_, ht, fun j => ?_⟩
  rw [hv]
  rcases eq_or_ne j i with rfl | hj
  · rw [Function.update_self, Function.update_self, hl]
  · rw [Function.update_of_ne hj, Function.update_of_ne hj, hval j]

theorem Represents.walk_erase {poison₁ : α} {poison₂ : Loc ι α} (h : Represents m held tbl)
    (hb : Unlinks p true poison₁ poison₂ g body) (i : ι) (s : σ) :
    ((∀ v ∈ tbl i, p v = false) ∧ walk i body (m, s) = .ok (m, s))
      ∨ ∃ m', (∃ v ∈ tbl i, p v = true) ∧ walk i body (m, s) = .ok (m', g s)
        ∧ Represents m' held (Function.update tbl i ((tbl i).eraseP p)) := by
  obtain ⟨t, ht, hval⟩ := h
  have hwalk := ht.walk_first body (fun a => p (m.val a)) (fun a => do
      let m ← Hlist.del poison₁ poison₂ a m; let m ← m.free a; .ok (m, g s)) s i
    (fun a ha hp => by
      obtain ⟨pre, suf, hti⟩ := List.append_of_mem ha
      obtain ⟨m₁, m₂, hdel, hfree, -, -⟩ := ht.del_free hti poison₁ poison₂
      simp [hb a m s (ht.live_of_mem ha), hp, hdel, hfree, bind, Except.bind, Except.map])
    (fun a ha hp => by simp [hb a m s (ht.live_of_mem ha), hp])
  rcases hfind : (t i).find? (fun a => p (m.val a)) with _ | a
  · rw [hfind] at hwalk
    exact .inl ⟨Represents.notFound hval hfind, hwalk⟩
  · obtain ⟨pre, suf, hti, hp, htbl, hpre⟩ := Represents.split hval hfind
    obtain ⟨m₁, m₂, hdel, hfree, hv, h₂⟩ := ht.del_free hti poison₁ poison₂
    refine .inr ⟨m₂, ⟨m.val a, by simp [htbl], hp⟩, ?_, .update_chain hval hv ?_ h₂⟩
    · rw [hwalk, hfind]
      simp [hdel, hfree, bind, Except.bind]
    · rw [htbl, List.eraseP_append_right _ fun v hv => by simp [hpre v hv],
        List.eraseP_cons_of_pos hp, List.map_append]

/-- What a loop that takes out every element of a kind has done, and has still to do. -/
structure Sweeping (m : Mem ι α β) (held : Finset α) (t : ι → List α) (p : β → Bool) (g : σ → σ)
    (i : ι) (s : σ) (todo : List α) (r : Mem ι α β × σ) : Prop where
  split : ∃ seen, t i = seen ++ todo
    ∧ Holds r.1 held (Function.update t i (seen.filter (fun a => !p (m.val a)) ++ todo))
    ∧ r.2 = g^[seen.countP fun a => p (m.val a)] s
  val_eq : r.1.val = m.val

theorem Sweeping.step {poison₁ : α} {poison₂ : Loc ι α} {t : ι → List α}
    (hb : Unlinks p false poison₁ poison₂ g body) {a : α} {todo : List α} {r : Mem ι α β × σ}
    (h : Sweeping m held t p g i s (a :: todo) r) :
    ∃ r' leave, body a r = .ok (r', leave)
      ∧ if leave then False else Sweeping m held t p g i s todo r' := by
  obtain ⟨⟨seen, hti, hr, hs⟩, hval⟩ := h
  obtain ⟨m₁, s₁⟩ := r
  have hval₁ : m₁.val = m.val := hval
  have hself : Function.update t i (seen.filter (fun a => !p (m.val a)) ++ a :: todo) i
      = seen.filter (fun a => !p (m.val a)) ++ a :: todo := Function.update_self _ _ _
  have hlive : a ∈ m₁.live := hr.live_of_mem (i := i) (by rw [hself]; simp)
  have hti' : t i = (seen ++ [a]) ++ todo := by rw [hti, List.append_assoc, List.singleton_append]
  rcases hp : p (m.val a) with _ | _
  · refine ⟨(m₁, s₁), false, ?_, ⟨seen ++ [a], hti', ?_, ?_⟩, hval⟩
    · simp [hb a m₁ s₁ hlive, hval₁, hp]
    · rw [List.filter_append, List.append_assoc]
      simpa [hp] using hr
    · simpa [hp] using hs
  · obtain ⟨m₂, m₃, hdel, hfree, hv, h₃⟩ := hr.del_free hself poison₁ poison₂
    rw [Function.update_idem] at h₃
    refine ⟨(m₃, g s₁), false, ?_, ⟨seen ++ [a], hti', ?_, ?_⟩, hv.trans hval⟩
    · simp [hb a m₁ s₁ hlive, hval₁, hp, hdel, hfree, bind, Except.bind]
    · rw [List.filter_append]
      simpa [hp] using h₃
    · have hc : (seen ++ [a]).countP (fun a => p (m.val a))
          = seen.countP (fun a => p (m.val a)) + 1 := by simp [hp]
      rw [hc, Function.iterate_succ_apply', ← hs]

theorem Represents.walk_filter {poison₁ : α} {poison₂ : Loc ι α} (h : Represents m held tbl)
    (hb : Unlinks p false poison₁ poison₂ g body) (i : ι) (s : σ) :
    ∃ m', walk i body (m, s) = .ok (m', g^[(tbl i).countP p] s)
      ∧ Represents m' held (Function.update tbl i ((tbl i).filter fun v => !p v)) := by
  obtain ⟨t, ht, hval⟩ := h
  have hstart : Sweeping m held t p g i s (t i) (m, s) := by
    refine ⟨⟨[], rfl, ?_, rfl⟩, rfl⟩
    rw [List.filter_nil, List.nil_append, Function.update_eq_self]
    exact ht
  obtain ⟨r, hr, ⟨seen, hti, hhold, hs⟩, hv⟩ := walk_spec (Q := Sweeping m held t p g i s []) ht
    (fun a todo r h => by
      obtain ⟨⟨seen, -, hr, -⟩, -⟩ := h
      exact hr.load_next (i := i) (Function.update_self _ _ _))
    (fun a todo r h => by
      obtain ⟨r', leave, hbody, hnext⟩ := h.step hb
      refine ⟨r', leave, hbody, ?_⟩
      cases leave with
      | true => exact hnext.elim
      | false => exact hnext)
    (fun _ h => h) hstart
  rw [List.append_nil] at hti hhold
  refine ⟨r.1, ?_, .update_chain hval hv ?_ hhold⟩
  · rw [hr, ← hval i, List.countP_map, hti]
    exact congrArg Except.ok (Prod.ext rfl hs)
  · rw [← hval i, hti, List.filter_map]
    rfl

end Tables

end Hlist
