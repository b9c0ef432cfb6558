import Mathlib

/-!
# Lists with a pointer to the pointer before

The `hlist` of the Linux kernel, on a memory of allocated nodes: a list is a pointer to its first
node, and a node has a pointer to the next node and the address of the pointer that points to
itself. Touching a field of a node that is not allocated is a fault, and so is a walk over more
nodes than there are. `Holds m held t` says that the lists are `t` and that every allocated node is
in one of them, once, or in `held`: nothing has leaked and no list leads to a freed node.
-/

namespace Hlist

universe u

variable {ι α β : Type u}

/-- Where a pointer to a node is kept. -/
inductive Loc (ι α : Type u)
  | first (i : ι)
  | next (a : α)
  deriving DecidableEq

inductive Fault
  | dangling | endless
  deriving DecidableEq

structure Mem (ι α β : Type u) where
  ptr : Loc ι α → Option α
  pprev : α → Loc ι α
  live : Finset α
  val : α → β

/-- A pointer that can be touched, for the nodes allocated. -/
def Valid (live : Finset α) : Loc ι α → Prop
  | .first _ => True
  | .next a => a ∈ live

instance [DecidableEq α] (live : Finset α) : (p : Loc ι α) → Decidable (Valid live p)
  | .first _ => isTrue trivial
  | .next a => inferInstanceAs (Decidable (a ∈ live))

namespace Mem

variable [DecidableEq ι] [DecidableEq α] (m : Mem ι α β)

def load (p : Loc ι α) : Except Fault (Option α) :=
  if Valid m.live p then .ok (m.ptr p) else .error .dangling

def store (p : Loc ι α) (v : Option α) : Except Fault (Mem ι α β) :=
  if Valid m.live p then .ok { m with ptr := Function.update m.ptr p v } else .error .dangling

def loadPprev (a : α) : Except Fault (Loc ι α) :=
  if a ∈ m.live then .ok (m.pprev a) else .error .dangling

def storePprev (a : α) (p : Loc ι α) : Except Fault (Mem ι α β) :=
  if a ∈ m.live then .ok { m with pprev := Function.update m.pprev a p } else .error .dangling

/-- The structure a node is in. -/
def entry (a : α) : Except Fault β :=
  if a ∈ m.live then .ok (m.val a) else .error .dangling

def setEntry (a : α) (v : β) : Except Fault (Mem ι α β) :=
  if a ∈ m.live then .ok { m with val := Function.update m.val a v } else .error .dangling

/-- The pointers of a new node are whatever is there. -/
def malloc (a : α) (v : β) : Mem ι α β :=
  { m with live := insert a m.live, val := Function.update m.val a v }

def free (a : α) : Except Fault (Mem ι α β) :=
  if a ∈ m.live then .ok { m with live := m.live.erase a } else .error .dangling

end Mem

/-! ## The operations -/

section Operations

variable [DecidableEq ι] [DecidableEq α]

/-- `INIT_HLIST_HEAD` on every list. -/
def init (m : Mem ι α β) : Mem ι α β :=
  { m with ptr := fun p => match p with
      | .first _ => none
      | .next a => m.ptr (.next a) }

def addHead (n : α) (h : ι) (m : Mem ι α β) : Except Fault (Mem ι α β) := do
  let first ← m.load (.first h)
  let m ← m.store (.next n) first
  let m ← match first with
    | some x => m.storePprev x (.next n)
    | none => .ok m
  let m ← m.store (.first h) (some n)
  m.storePprev n (.first h)

def addBefore (n next : α) (m : Mem ι α β) : Except Fault (Mem ι α β) := do
  let pprev ← m.loadPprev next
  let m ← m.storePprev n pprev
  let m ← m.store (.next n) (some next)
  let m ← m.storePprev next (.next n)
  let pprev ← m.loadPprev n
  m.store pprev (some n)

/-- The two poison values are left in the node. -/
def del (poison₁ : α) (poison₂ : Loc ι α) (n : α) (m : Mem ι α β) : Except Fault (Mem ι α β) := do
  let next ← m.load (.next n)
  let pprev ← m.loadPprev n
  let m ← m.store pprev next
  let m ← match next with
    | some x => m.storePprev x pprev
    | none => .ok m
  let m ← m.store (.next n) (some poison₁)
  m.storePprev n poison₂

/-- `hlist_for_each_safe`, from the node at hand: the next one is read before the body runs, which
says whether the loop is left. -/
def forEachSafe {σ : Type u} (body : α → Mem ι α β × σ → Except Fault ((Mem ι α β × σ) × Bool)) :
    ℕ → Option α → Mem ι α β × σ → Except Fault (Mem ι α β × σ)
  | _, none, s => .ok s
  | 0, some _, _ => .error .endless
  | fuel + 1, some pos, s => do
    let n ← s.1.load (.next pos)
    let (s, leave) ← body pos s
    if leave then return s else forEachSafe body fuel n s

/-- The whole loop over a list. -/
def walk {σ : Type u} (h : ι) (body : α → Mem ι α β × σ → Except Fault ((Mem ι α β × σ) × Bool))
    (s : Mem ι α β × σ) : Except Fault (Mem ι α β × σ) := do
  let first ← s.1.load (.first h)
  forEachSafe body s.1.live.card first s

end Operations

/-! ## What a memory holds -/

/-- From the pointer at `p` on, the nodes are `xs`. -/
def Chain (m : Mem ι α β) : Loc ι α → List α → Prop
  | p, [] => m.ptr p = none
  | p, x :: xs => m.ptr p = some x ∧ m.pprev x = p ∧ Chain m (.next x) xs

structure Holds (m : Mem ι α β) (held : Finset α) (t : ι → List α) : Prop where
  chain : ∀ i, Chain m (.first i) (t i)
  nodup : ∀ i, (t i).Nodup
  inj : ∀ i j x, x ∈ t i → x ∈ t j → i = j
  live_iff : ∀ x, x ∈ m.live ↔ x ∈ held ∨ ∃ i, x ∈ t i
  unlinked : ∀ x ∈ held, ∀ i, x ∉ t i

section Chains

variable {m m' : Mem ι α β} {p : Loc ι α} {x : α}

/-- A chain is only as much of the memory as it goes over. -/
theorem Chain.congr : ∀ {xs : List α} {p : Loc ι α}, Chain m p xs → m'.ptr p = m.ptr p →
    (∀ y ∈ xs, m'.ptr (.next y) = m.ptr (.next y) ∧ m'.pprev y = m.pprev y) → Chain m' p xs
  | [], p, h, hp, _ => by
    rw [Chain, hp]
    exact h
  | x :: xs, p, h, hp, hn => by
    obtain ⟨h1, h2, h3⟩ := h
    refine ⟨hp.trans h1, (hn x (.head _)).2.trans h2, ?_⟩
    exact h3.congr (hn x (.head _)).1 fun y hy => hn y (.tail _ hy)

theorem Chain.head : ∀ {xs : List α} {p : Loc ι α}, Chain m p xs → m.ptr p = xs.head?
  | [], _, h => h
  | _ :: _, _, h => h.1

/-- After a stretch of a chain comes another, at the pointer of the last node before it. -/
theorem Chain.drop : ∀ {pre suf : List α} {p : Loc ι α}, Chain m p (pre ++ suf) →
    ∃ q, Chain m q suf ∧ (pre = [] ∧ q = p ∨ ∃ b ∈ pre, q = .next b)
  | [], suf, p, h => ⟨p, h, .inl ⟨rfl, rfl⟩⟩
  | a :: pre, suf, p, h => by
    obtain ⟨q, hq, ⟨-, rfl⟩ | ⟨b, hb, rfl⟩⟩ := h.2.2.drop
    · exact ⟨_, hq, .inr ⟨a, .head _, rfl⟩⟩
    · exact ⟨_, hq, .inr ⟨b, .tail _ hb, rfl⟩⟩

/-- The two pointers of a node in a chain. -/
theorem Chain.at_node {pre suf : List α} (h : Chain m p (pre ++ x :: suf)) :
    (pre = [] ∧ m.pprev x = p ∨ ∃ b ∈ pre, m.pprev x = .next b) ∧ m.ptr (.next x) = suf.head? := by
  obtain ⟨q, hq, hpos⟩ := h.drop
  obtain ⟨-, h2, h3⟩ := hq
  rw [h2]
  exact ⟨hpos, h3.head⟩

variable [DecidableEq ι] [DecidableEq α]

/-- What `del` leaves of the chain the node is in. -/
theorem Chain.del {suf : List α} {poison₁ : α} {poison₂ : Loc ι α}
    (hptr : m'.ptr = Function.update (Function.update m.ptr (m.pprev x) (m.ptr (.next x))) (.next x)
      (some poison₁))
    (hpprev : m'.pprev = Function.update ((m.ptr (.next x)).elim m.pprev fun y =>
      Function.update m.pprev y (m.pprev x)) x poison₂) :
    ∀ (pre : List α) (p : Loc ι α), Chain m p (pre ++ x :: suf) → (pre ++ x :: suf).Nodup →
      (∀ b ∈ pre ++ x :: suf, p ≠ .next b) → Chain m' p (pre ++ suf)
  | [], p, h, hnd, hp => by
    obtain ⟨h1, h2, h3⟩ := h
    obtain ⟨hx, hnd⟩ := List.nodup_cons.1 hnd
    have hpx : p ≠ .next x := hp x (.head _)
    have hp' : m'.ptr p = m.ptr (.next x) := by
      rw [hptr, Function.update_of_ne hpx, h2, Function.update_self]
    rcases suf with _ | ⟨y, ys⟩
    · exact hp'.trans h3
    · obtain ⟨h4, h5, h6⟩ := h3
      have hyx : y ≠ x := fun e => hx (e ▸ .head _)
      have hkeep : ∀ z ∈ y :: ys, m'.ptr (.next z) = m.ptr (.next z) := fun z hz => by
        have hzx : z ≠ x := fun e => hx (e ▸ hz)
        have hzp : Loc.next z ≠ p := fun e => hp z (.tail _ hz) e.symm
        rw [hptr, Function.update_of_ne (by simpa using hzx), h2, Function.update_of_ne hzp]
      refine ⟨hp'.trans h4, ?_, h6.congr (hkeep y (.head _)) fun z hz => ⟨hkeep z (.tail _ hz), ?_⟩⟩
      · rw [hpprev, Function.update_of_ne hyx, h4, Option.elim, Function.update_self, h2]
      · have hzx : z ≠ x := fun e => hx (e ▸ .tail _ hz)
        have hzy : z ≠ y := fun e => (List.nodup_cons.1 hnd).1 (e ▸ hz)
        rw [hpprev, Function.update_of_ne hzx, h4, Option.elim, Function.update_of_ne hzy]
  | a :: pre, p, h, hnd, hp => by
    obtain ⟨hpos, hnext⟩ := h.at_node
    obtain ⟨h1, h2, h3⟩ := h
    obtain ⟨ha, hnd⟩ := List.nodup_cons.1 hnd
    have ih := Chain.del hptr hpprev pre (.next a) h3 hnd fun b hb e => ha (by cases e; exact hb)
    have hpx : p ≠ .next x := hp x (by simp)
    have hpq : p ≠ m.pprev x := by
      rcases hpos with ⟨hnil, -⟩ | ⟨b, hb, hq⟩
      · cases hnil
      · rw [hq]
        exact hp b (List.mem_append_left _ hb)
    have hax : a ≠ x := fun e => ha (by simp [e])
    refine ⟨?_, ?_, ih⟩
    · rw [hptr, Function.update_of_ne hpx, Function.update_of_ne hpq, h1]
    · rw [hpprev, Function.update_of_ne hax, hnext]
      rcases suf with _ | ⟨y, ys⟩
      · exact h2
      · have hay : a ≠ y := fun e => ha (by simp [e])
        rw [List.head?_cons, Option.elim, Function.update_of_ne hay, h2]

/-- What `addBefore` makes of the chain the second node is in. -/
theorem Chain.addBefore {n : α} {suf : List α}
    (hptr : m'.ptr = Function.update (Function.update m.ptr (.next n) (some x)) (m.pprev x) (some n))
    (hpprev : m'.pprev = Function.update (Function.update m.pprev n (m.pprev x)) x (.next n)) :
    ∀ (pre : List α) (p : Loc ι α), Chain m p (pre ++ x :: suf) → (pre ++ x :: suf).Nodup →
      n ∉ pre ++ x :: suf → (∀ b ∈ n :: (pre ++ x :: suf), p ≠ .next b) →
      Chain m' p (pre ++ n :: x :: suf)
  | [], p, h, hnd, hn, hp => by
    obtain ⟨h1, h2, h3⟩ := h
    obtain ⟨hx, hnd⟩ := List.nodup_cons.1 hnd
    rw [List.nil_append] at hn
    have hnx : n ≠ x := fun e => hn (e ▸ .head _)
    have hkeep : ∀ z ∈ x :: suf, m'.ptr (.next z) = m.ptr (.next z) := fun z hz => by
      have hzn : z ≠ n := fun e => hn (e ▸ hz)
      have hzp : Loc.next z ≠ p := fun e => hp z (.tail _ hz) e.symm
      rw [hptr, h2, Function.update_of_ne hzp, Function.update_of_ne (by simpa using hzn)]
    have hnp : Loc.next n ≠ p := fun e => hp n (.head _) e.symm
    refine ⟨?_, ?_, ?_, ?_, h3.congr (hkeep x (.head _)) fun z hz => ⟨hkeep z (.tail _ hz), ?_⟩⟩
    · rw [hptr, h2, Function.update_self]
    · rw [hpprev, Function.update_of_ne hnx, Function.update_self, h2]
    · rw [hptr, h2, Function.update_of_ne hnp, Function.update_self]
    · rw [hpprev, Function.update_self]
    · have hzx : z ≠ x := fun e => hx (e ▸ hz)
      have hzn : z ≠ n := fun e => hn (e ▸ .tail _ hz)
      rw [hpprev, Function.update_of_ne hzx, Function.update_of_ne hzn]
  | a :: pre, p, h, hnd, hn, hp => by
    obtain ⟨hpos, -⟩ := h.at_node
    obtain ⟨h1, h2, h3⟩ := h
    obtain ⟨ha, hnd⟩ := List.nodup_cons.1 hnd
    rw [List.cons_append, List.mem_cons, not_or] at hn
    have ih := Chain.addBefore hptr hpprev pre (.next a) h3 hnd hn.2 fun b hb e => by
      cases e
      rcases List.mem_cons.1 hb with e | hb
      · exact hn.1 e.symm
      · exact ha hb
    have hpn : p ≠ .next n := hp n (.head _)
    have hpq : p ≠ m.pprev x := by
      rcases hpos with ⟨hnil, -⟩ | ⟨b, hb, hq⟩
      · cases hnil
      · rw [hq]
        exact hp b (.tail _ (List.mem_append_left _ hb))
    have hax : a ≠ x := fun e => ha (by simp [e])
    refine ⟨?_, ?_, ih⟩
    · rw [hptr, Function.update_of_ne hpq, Function.update_of_ne hpn, h1]
    · rw [hpprev, Function.update_of_ne hax, Function.update_of_ne (Ne.symm hn.1), h2]

/-- What `addHead` makes of the chain at the head. -/
theorem Chain.addHead {n : α} {xs : List α}
    (hptr : m'.ptr = Function.update (Function.update m.ptr (.next n) (m.ptr p)) p (some n))
    (hpprev : m'.pprev = Function.update ((m.ptr p).elim m.pprev fun x =>
      Function.update m.pprev x (.next n)) n p)
    (h : Chain m p xs) (hnd : xs.Nodup) (hn : n ∉ xs) (hp : ∀ b ∈ n :: xs, p ≠ .next b) :
    Chain m' p (n :: xs) := by
  have hnp : Loc.next n ≠ p := fun e => hp n (.head _) e.symm
  refine ⟨by rw [hptr, Function.update_self], by rw [hpprev, Function.update_self], ?_⟩
  rcases xs with _ | ⟨x, xs⟩
  · rw [Chain, hptr, Function.update_of_ne hnp, Function.update_self]
    exact h
  · obtain ⟨h1, h2, h3⟩ := h
    obtain ⟨hx, hnd⟩ := List.nodup_cons.1 hnd
    have hkeep : ∀ z ∈ x :: xs, m'.ptr (.next z) = m.ptr (.next z) := fun z hz => by
      have hzn : z ≠ n := fun e => hn (e ▸ hz)
      have hzp : Loc.next z ≠ p := fun e => hp z (.tail _ hz) e.symm
      rw [hptr, Function.update_of_ne hzp, Function.update_of_ne (by simpa using hzn)]
    have hxn : x ≠ n := fun e => hn (e ▸ .head _)
    refine ⟨?_, ?_, h3.congr (hkeep x (.head _)) fun z hz => ⟨hkeep z (.tail _ hz), ?_⟩⟩
    · rw [hptr, Function.update_of_ne hnp, Function.update_self, h1]
    · rw [hpprev, Function.update_of_ne hxn, h1, Option.elim, Function.update_self]
    · have hzx : z ≠ x := fun e => hx (e ▸ hz)
      have hzn : z ≠ n := fun e => hn (e ▸ .tail _ hz)
      rw [hpprev, Function.update_of_ne hzn, h1, Option.elim, Function.update_of_ne hzx]

end Chains

/-! ## What the operations do to the lists -/

section Specs

variable [DecidableEq ι] [DecidableEq α] {m : Mem ι α β} {held : Finset α} {t : ι → List α}
  {i : ι} {x n : α} {pre suf : List α}

theorem del_eq (poison₁ : α) (poison₂ : Loc ι α) (hx : x ∈ m.live) (hv : Valid m.live (m.pprev x))
    (hn : ∀ y, m.ptr (.next x) = some y → y ∈ m.live) :
    del poison₁ poison₂ x m = .ok { m with
      ptr := Function.update (Function.update m.ptr (m.pprev x) (m.ptr (.next x))) (.next x)
        (some poison₁)
      pprev := Function.update ((m.ptr (.next x)).elim m.pprev fun y =>
        Function.update m.pprev y (m.pprev x)) x poison₂ } := by
  have hvx : Valid m.live (.next x : Loc ι α) := hx
  rcases hnext : m.ptr (.next x) with _ | y
  · simp [del, Mem.load, Mem.store, Mem.loadPprev, Mem.storePprev, hx, hv, hvx, hnext, bind,
      Except.bind]
  · simp [del, Mem.load, Mem.store, Mem.loadPprev, Mem.storePprev, hx, hv, hvx, hn y hnext, hnext,
      bind, Except.bind]

theorem addHead_eq (h : ι) (hn : n ∈ m.live) (hf : ∀ x, m.ptr (.first h) = some x → x ∈ m.live) :
    addHead n h m = .ok { m with
      ptr := Function.update (Function.update m.ptr (.next n) (m.ptr (.first h))) (.first h)
        (some n)
      pprev := Function.update ((m.ptr (.first h)).elim m.pprev fun x =>
        Function.update m.pprev x (.next n)) n (.first h) } := by
  have hvn : Valid m.live (.next n : Loc ι α) := hn
  have hvh : Valid m.live (.first h : Loc ι α) := trivial
  rcases hfirst : m.ptr (.first h) with _ | x
  · simp [addHead, Mem.load, Mem.store, Mem.storePprev, hn, hvn, hvh, hfirst, bind, Except.bind]
  · simp [addHead, Mem.load, Mem.store, Mem.storePprev, hn, hvn, hvh, hf x hfirst, hfirst, bind,
      Except.bind]

theorem addBefore_eq (hn : n ∈ m.live) (hx : x ∈ m.live) (hv : Valid m.live (m.pprev x))
    (hne : n ≠ x) :
    addBefore n x m = .ok { m with
      ptr := Function.update (Function.update m.ptr (.next n) (some x)) (m.pprev x) (some n)
      pprev := Function.update (Function.update m.pprev n (m.pprev x)) x (.next n) } := by
  have hvn : Valid m.live (.next n : Loc ι α) := hn
  simp [addBefore, Mem.store, Mem.loadPprev, Mem.storePprev, hn, hx, hv, hvn, hne, bind,
    Except.bind]

omit [DecidableEq ι] [DecidableEq α] in
theorem Holds.init (m : Mem ι α β) : Holds (init { m with live := ∅ }) ∅ fun _ => [] where
  chain := fun _ => rfl
  nodup := fun _ => List.nodup_nil
  inj := fun _ _ _ h => absurd h List.not_mem_nil
  live_iff := fun x => by simp [Hlist.init]
  unlinked := fun _ h => absurd h (Finset.notMem_empty _)

/-- One list and the unlinked nodes exchange nodes; the other lists are not touched. -/
theorem Holds.relink {m' : Mem ι α β} {held' : Finset α} {ys : List α} (h : Holds m held t)
    (hlive : m'.live = m.live)
    (hptr : ∀ p, m'.ptr p ≠ m.ptr p → p = .first i ∨ ∃ y, p = .next y ∧ (y ∈ t i ∨ y ∈ held))
    (hpprev : ∀ y, m'.pprev y ≠ m.pprev y → y ∈ t i ∨ y ∈ held)
    (hc : Chain m' (.first i) ys) (hnd : ys.Nodup)
    (hmem : ∀ x, x ∈ ys ∨ x ∈ held' ↔ x ∈ t i ∨ x ∈ held) (hdisj : ∀ x ∈ held', x ∉ ys) :
    Holds m' held' (Function.update t i ys) := by
  have hapart : ∀ j, j ≠ i → ∀ y ∈ t j, ¬ (y ∈ t i ∨ y ∈ held) := by
    rintro j hj y hy (hi | hheld)
    · exact hj (h.inj j i y hy hi)
    · exact h.unlinked y hheld j hy
  refine ⟨fun j => ?_, fun j => ?_, fun j k x hj hk => ?_, fun x => ?_, fun x hx j => ?_⟩
  · rcases eq_or_ne j i with rfl | hj
    · rwa [Function.update_self]
    · rw [Function.update_of_ne hj]
      refine (h.chain j).congr ?_ fun y hy => ⟨?_, ?_⟩ <;> by_contra hne
      · rcases hptr _ hne with e | ⟨y, e, -⟩
        · exact hj (Loc.first.inj e)
        · cases e
      · rcases hptr _ hne with e | ⟨z, e, hz⟩
        · cases e
        · exact hapart j hj y hy (Loc.next.inj e ▸ hz)
      · exact hapart j hj y hy (hpprev y hne)
  · rcases eq_or_ne j i with rfl | hj
    · rwa [Function.update_self]
    · rw [Function.update_of_ne hj]
      exact h.nodup j
  · rcases eq_or_ne j i with rfl | hji <;> rcases eq_or_ne k j with rfl | hkj
    · rfl
    · rw [Function.update_self] at hj
      rw [Function.update_of_ne hkj] at hk
      exact absurd ((hmem x).1 (.inl hj)) (hapart k hkj x hk)
    · rfl
    · rw [Function.update_of_ne hji] at hj
      rcases eq_or_ne k i with rfl | hki
      · rw [Function.update_self] at hk
        exact absurd ((hmem x).1 (.inl hk)) (hapart j hji x hj)
      · rw [Function.update_of_ne hki] at hk
        exact h.inj j k x hj hk
  · rw [hlive, h.live_iff]
    constructor
    · rintro (hx | ⟨j, hx⟩)
      · rcases (hmem x).2 (.inr hx) with hx | hx
        · exact .inr ⟨i, by rwa [Function.update_self]⟩
        · exact .inl hx
      · rcases eq_or_ne j i with rfl | hj
        · rcases (hmem x).2 (.inl hx) with hx | hx
          · exact .inr ⟨j, by rwa [Function.update_self]⟩
          · exact .inl hx
        · exact .inr ⟨j, by rwa [Function.update_of_ne hj]⟩
    · rintro (hx | ⟨j, hx⟩)
      · rcases (hmem x).1 (.inr hx) with hx | hx
        · exact .inr ⟨i, hx⟩
        · exact .inl hx
      · rcases eq_or_ne j i with rfl | hj
        · rw [Function.update_self] at hx
          rcases (hmem x).1 (.inl hx) with hx | hx
          · exact .inr ⟨j, hx⟩
          · exact .inl hx
        · rw [Function.update_of_ne hj] at hx
          exact .inr ⟨j, hx⟩
  · rcases eq_or_ne j i with rfl | hj
    · rw [Function.update_self]
      exact hdisj x hx
    · rw [Function.update_of_ne hj]
      exact fun hxj => hapart j hj x hxj ((hmem x).1 (.inr hx))

omit [DecidableEq ι] [DecidableEq α] in
theorem Holds.live_of_mem (h : Holds m held t) (hx : x ∈ t i) : x ∈ m.live :=
  (h.live_iff x).2 (.inr ⟨i, hx⟩)

omit [DecidableEq ι] [DecidableEq α] in
theorem Holds.live_of_held (h : Holds m held t) (hx : x ∈ held) : x ∈ m.live :=
  (h.live_iff x).2 (.inl hx)

omit [DecidableEq ι] [DecidableEq α] in
theorem Holds.valid_pprev (h : Holds m held t) (ht : t i = pre ++ x :: suf) :
    Valid m.live (m.pprev x) := by
  have hc := h.chain i
  rw [ht] at hc
  rcases hc.at_node.1 with ⟨-, hq⟩ | ⟨b, hb, hq⟩
  · rw [hq]
    trivial
  · rw [hq]
    exact h.live_of_mem (i := i) (ht ▸ List.mem_append_left _ hb)

omit [DecidableEq ι] [DecidableEq α] in
theorem Holds.live_of_first (h : Holds m held t) (hx : m.ptr (.first i) = some x) : x ∈ m.live := by
  rw [(h.chain i).head] at hx
  exact h.live_of_mem (List.mem_of_head? hx)

/-- A node taken out is allocated still. -/
theorem Holds.del (h : Holds m held t) (ht : t i = pre ++ x :: suf) (poison₁ : α)
    (poison₂ : Loc ι α) :
    ∃ m', del poison₁ poison₂ x m = .ok m' ∧ m'.val = m.val ∧ m'.live = m.live
      ∧ Holds m' (insert x held) (Function.update t i (pre ++ suf)) := by
  have hc := h.chain i
  have hnd := h.nodup i
  rw [ht] at hc hnd
  have hmemx : x ∈ t i := by simp [ht]
  obtain ⟨hpos, hnext⟩ := hc.at_node
  have hy : ∀ y, m.ptr (.next x) = some y → y ∈ t i := fun y hy => by
    rw [hnext] at hy
    rw [ht]
    exact List.mem_append_right _ (.tail _ (List.mem_of_head? hy))
  have heq := del_eq poison₁ poison₂ (h.live_of_mem hmemx) (h.valid_pprev ht)
    fun y hyx => h.live_of_mem (hy y hyx)
  refine ⟨_, heq, rfl, rfl, h.relink rfl (fun p hp => ?_) (fun y hp => ?_) ?_ ?_ (fun z => ?_)
    fun z hz => ?_⟩
  · simp only [Function.update_apply] at hp
    split_ifs at hp with h1 h2
    · exact .inr ⟨x, h1, .inl hmemx⟩
    · rw [h2]
      rcases hpos with ⟨-, hq⟩ | ⟨b, hb, hq⟩
      · exact .inl hq
      · exact .inr ⟨b, hq, .inl (ht ▸ List.mem_append_left _ hb)⟩
    · exact absurd rfl hp
  · rcases eq_or_ne y x with rfl | hyx
    · exact .inl hmemx
    · simp only [Function.update_of_ne hyx] at hp
      rcases hn : m.ptr (.next x) with _ | w
      · simp [hn] at hp
      · rcases eq_or_ne y w with rfl | hyw
        · exact .inl (hy y hn)
        · simp [hn, hyw] at hp
  · exact Chain.del rfl rfl pre _ hc hnd fun b _ => by simp
  · rw [List.nodup_middle, List.nodup_cons] at hnd
    exact hnd.2
  · simp only [ht, List.mem_append, List.mem_cons, Finset.mem_insert]
    tauto
  · rw [List.nodup_middle, List.nodup_cons] at hnd
    rcases Finset.mem_insert.1 hz with rfl | hz
    · exact hnd.1
    · intro hmem
      refine h.unlinked z hz i ?_
      rw [ht]
      rcases List.mem_append.1 hmem with hm | hm
      · exact List.mem_append_left _ hm
      · exact List.mem_append_right _ (.tail _ hm)

theorem Holds.addHead (h : Holds m held t) (i : ι) (hn : n ∈ held) :
    ∃ m', addHead n i m = .ok m' ∧ m'.val = m.val ∧ m'.live = m.live
      ∧ Holds m' (held.erase n) (Function.update t i (n :: t i)) := by
  have hc := h.chain i
  have hni := h.unlinked n hn i
  have heq := addHead_eq i (h.live_of_held hn) fun x hx => h.live_of_first hx
  refine ⟨_, heq, rfl, rfl, h.relink rfl (fun p hp => ?_) (fun y hp => ?_) ?_ ?_ (fun z => ?_)
    fun z hz => ?_⟩
  · simp only [Function.update_apply] at hp
    split_ifs at hp with h1 h2
    · exact .inl h1
    · exact .inr ⟨n, h2, .inr hn⟩
    · exact absurd rfl hp
  · rcases eq_or_ne y n with rfl | hyn
    · exact .inr hn
    · rw [hc.head] at hp
      rcases hx : (t i).head? with _ | w
      · simp [hx, hyn] at hp
      · rcases eq_or_ne y w with rfl | hyw
        · exact .inl (List.mem_of_head? hx)
        · simp [hx, hyn, hyw] at hp
  · exact Chain.addHead rfl rfl hc (h.nodup i) hni fun b _ => by simp
  · exact List.nodup_cons.2 ⟨hni, h.nodup i⟩
  · rcases eq_or_ne z n with rfl | hzn <;> simp [*]
  · obtain ⟨hzn, hz⟩ := Finset.mem_erase.1 hz
    rw [List.mem_cons, not_or]
    exact ⟨hzn, h.unlinked z hz i⟩

theorem Holds.addBefore (h : Holds m held t) (ht : t i = pre ++ x :: suf) (hn : n ∈ held) :
    ∃ m', addBefore n x m = .ok m' ∧ m'.val = m.val ∧ m'.live = m.live
      ∧ Holds m' (held.erase n) (Function.update t i (pre ++ n :: x :: suf)) := by
  have hc := h.chain i
  have hnd := h.nodup i
  have hni := h.unlinked n hn i
  have hmemx : x ∈ t i := by simp [ht]
  have hnx : n ≠ x := fun e => hni (e ▸ hmemx)
  have heq := addBefore_eq (h.live_of_held hn) (h.live_of_mem hmemx) (h.valid_pprev ht) hnx
  rw [ht] at hc hnd hni
  refine ⟨_, heq, rfl, rfl, h.relink rfl (fun p hp => ?_) (fun y hp => ?_) ?_ ?_ (fun z => ?_)
    fun z hz => ?_⟩
  · simp only [Function.update_apply] at hp
    split_ifs at hp with h1 h2
    · rw [h1]
      rcases hc.at_node.1 with ⟨-, hq⟩ | ⟨b, hb, hq⟩
      · exact .inl hq
      · exact .inr ⟨b, hq, .inl (ht ▸ List.mem_append_left _ hb)⟩
    · exact .inr ⟨n, h2, .inr hn⟩
    · exact absurd rfl hp
  · simp only [Function.update_apply] at hp
    split_ifs at hp with h1 h2
    · exact .inl (h1 ▸ hmemx)
    · exact .inr (h2 ▸ hn)
    · exact absurd rfl hp
  · exact Chain.addBefore rfl rfl pre _ hc hnd hni fun b _ => by simp
  · rw [List.nodup_middle, List.nodup_cons]
    exact ⟨hni, hnd⟩
  · rw [ht]
    rcases eq_or_ne z n with rfl | hzn <;> simp [*]
  · obtain ⟨hzn, hz⟩ := Finset.mem_erase.1 hz
    have hzi := h.unlinked z hz i
    rw [ht] at hzi
    simp only [List.mem_append, List.mem_cons, not_or] at hzi ⊢
    exact ⟨hzi.1, hzn, hzi.2⟩

omit [DecidableEq ι] in
theorem Holds.free (h : Holds m held t) (hx : x ∈ held) :
    ∃ m', m.free x = .ok m' ∧ m'.val = m.val ∧ m'.live = m.live.erase x
      ∧ Holds m' (held.erase x) t := by
  refine ⟨_, if_pos (h.live_of_held hx), rfl, rfl, ?_⟩
  refine ⟨fun i => (h.chain i).congr rfl fun _ _ => ⟨rfl, rfl⟩, h.nodup, h.inj, fun y => ?_,
    fun y hy => h.unlinked y (Finset.mem_of_mem_erase hy)⟩
  simp only [Finset.mem_erase, h.live_iff]
  constructor
  · rintro ⟨hyx, hy | hy⟩
    · exact .inl ⟨hyx, hy⟩
    · exact .inr hy
  · rintro (⟨hyx, hy⟩ | ⟨i, hy⟩)
    · exact ⟨hyx, .inl hy⟩
    · refine ⟨?_, .inr ⟨i, hy⟩⟩
      rintro rfl
      exact h.unlinked y hx i hy

omit [DecidableEq ι] in
theorem Holds.malloc (h : Holds m held t) (hx : x ∉ m.live) (v : β) :
    Holds (m.malloc x v) (insert x held) t := by
  refine ⟨fun i => (h.chain i).congr rfl fun _ _ => ⟨rfl, rfl⟩, h.nodup, h.inj, fun y => ?_,
    fun y hy i hyi => ?_⟩
  · simp only [Mem.malloc, Finset.mem_insert, h.live_iff, or_assoc]
  · rcases Finset.mem_insert.1 hy with rfl | hy
    · exact hx (h.live_of_mem hyi)
    · exact h.unlinked y hy i hyi

omit [DecidableEq ι] [DecidableEq α] in
/-- What the nodes hold does not matter to the lists. -/
theorem Holds.of_val {m' : Mem ι α β} (h : Holds m held t) (hptr : m'.ptr = m.ptr)
    (hpprev : m'.pprev = m.pprev) (hlive : m'.live = m.live) : Holds m' held t :=
  ⟨fun i => (h.chain i).congr (by rw [hptr]) fun _ _ => ⟨by rw [hptr], by rw [hpprev]⟩, h.nodup,
    h.inj, fun x => by rw [hlive, h.live_iff], h.unlinked⟩

omit [DecidableEq ι] in
theorem Holds.length_le (h : Holds m held t) (i : ι) : (t i).length ≤ m.live.card := by
  rw [← List.toFinset_card_of_nodup (h.nodup i)]
  exact Finset.card_le_card fun x hx => h.live_of_mem (List.mem_toFinset.1 hx)

end Specs

end Hlist
