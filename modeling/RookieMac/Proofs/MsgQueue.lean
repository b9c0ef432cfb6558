import RookieMac.MsgQueue
import RookieMac.Lib.Runs
import RookieMac.System

/-!
# PI's message queue

The processing thread holds `msg_mutex` for a whole pass of its inner loop, so the queue it finds at
the start is what it dispatches; the flag follows the queue wherever the mutex is free.
-/

namespace RookieMac.Pi

open CMem Circular Runs

variable {α : Type} [DecidableEq α] {addrs : QueueAddrs α} {hash : HashFn}

/-! ## The queue and the threads -/

/-- What the steps keep. -/
structure QueueInv (addrs : QueueAddrs α) (es : List (DealEvent α)) (s : DealState α)
    (q : List (α × List U8)) : Prop where
  queue : s.Queue addrs q
  ne_null : ∀ x ∈ q, x.1 ≠ addrs.null
  flag : s.pc.Free ∨ s.pc = .check → (s.gData = 0 ↔ q = [])
  deal : s.pc = .deal → q ≠ []
  del : ∀ entry, s.pc = .del entry → ∃ receMsg rest, q = (entry, receMsg) :: rest
  reset : s.pc = .reset → q = []
  once : (arrivals es).Perm (dispatches es ++ s.pending q)
  awake : s.pc = .wait → q ≠ [] → 0 < s.signals

section Fields

variable {es : List (DealEvent α)} {s : DealState α} {q : List (α × List U8)} {entry : α}
  {m : List U8}

omit [DecidableEq α]

theorem arrivals_append (es es' : List (DealEvent α)) :
    arrivals (es ++ es') = arrivals es ++ arrivals es' :=
  List.filterMap_append

theorem dispatches_append (es es' : List (DealEvent α)) :
    dispatches (es ++ es') = dispatches es ++ dispatches es' :=
  List.filterMap_append

/-- An event that is no receipt and no dispatch. -/
def DealEvent.Silent : DealEvent α → Prop
  | .recv _ _ | .deal _ _ _ => False
  | _ => True

theorem DealEvent.Silent.arrivals {e : DealEvent α} (h : e.Silent) : arrivals [e] = [] := by
  cases e <;> first | rfl | exact h.elim

theorem DealEvent.Silent.dispatches {e : DealEvent α} (h : e.Silent) : dispatches [e] = [] := by
  cases e <;> first | rfl | exact h.elim

theorem once_silent {e : DealEvent α} {rest : List (α × List U8)} (he : e.Silent)
    (h : (arrivals es).Perm (dispatches es ++ rest)) :
    (arrivals (es ++ [e])).Perm (dispatches (es ++ [e]) ++ rest) := by
  rw [arrivals_append, dispatches_append, he.arrivals, he.dispatches, List.append_nil,
    List.append_nil]
  exact h

theorem DealState.pending_of_ne (h : ∀ entry, s.pc ≠ .del entry) : s.pending q = q := by
  unfold DealState.pending
  split
  · exact absurd ‹_› (h _)
  · rfl

theorem DealState.pending_del (h : s.pc = .del entry) : s.pending q = q.tail := by
  unfold DealState.pending
  rw [h]

theorem DealState.Queue.empty_iff (h : s.Queue addrs q) :
    s.mem.list.Empty addrs.msgHead ↔ q = [] := by
  rw [h.ring.empty_iff, List.map_eq_nil_iff]

theorem DealState.Queue.head (h : s.Queue addrs ((entry, m) :: q)) :
    s.mem.list.next addrs.msgHead = entry ∧ entry ≠ addrs.msgHead
      ∧ QueueMem.getMsgData addrs s.mem = some m := by
  have hnext : s.mem.list.next addrs.msgHead = entry := h.ring.next_head
  refine ⟨hnext, h.ring.ne_head, ?_⟩
  rw [QueueMem.getMsgData, hnext]
  exact h.entry_eq _ (.head _)

end Fields

section Steps

variable {es : List (DealEvent α)} {s s' : DealState α} {q : List (α × List U8)}

theorem QueueInv.start (addrs : QueueAddrs α) (list : Links α) (db : PiDbMacInfo) :
    QueueInv addrs [] (.start addrs list db) [] where
  queue := ⟨ring_init list addrs.msgHead, by simp⟩
  ne_null := by simp
  flag := fun _ => iff_of_true rfl rfl
  deal := fun h => by cases h
  del := fun _ h => by cases h
  reset := fun _ => rfl
  once := .refl _
  awake := fun h => by cases h

omit [DecidableEq α] in
/-- A step from one point of the code to another that leaves the memory. -/
theorem QueueInv.move (h : QueueInv addrs es s q) {e : DealEvent α} (he : e.Silent) {pc : DealPc α}
    (hold : ∀ entry, s.pc ≠ .del entry) (hnew : ∀ entry, pc ≠ .del entry)
    (hflag : pc.Free ∨ pc = .check → s.pc.Free ∨ s.pc = .check) (hdeal : pc = .deal → q ≠ [])
    (hreset : pc = .reset → q = []) (hwait : pc = .wait → q = []) :
    QueueInv addrs (es ++ [e]) { s with pc := pc } q where
  queue := ⟨h.queue.ring, h.queue.entry_eq⟩
  ne_null := h.ne_null
  flag := fun hpc => h.flag (hflag hpc)
  deal := hdeal
  del := fun entry hpc => absurd hpc (hnew entry)
  reset := hreset
  once := by
    have hpending : DealState.pending { s with pc := pc } q = s.pending q := by
      rw [DealState.pending_of_ne hold]
      exact DealState.pending_of_ne hnew
    rw [hpending]
    exact once_silent he h.once
  awake := fun hpc hq => absurd (hwait hpc) hq

omit [DecidableEq α] in
/-- The pending signals matter to a waiting thread only. -/
theorem QueueInv.signals (h : QueueInv addrs es s q) (hw : s.pc ≠ .wait) (signals : ℕ) :
    QueueInv addrs es { s with signals := signals } q :=
  ⟨⟨h.queue.ring, h.queue.entry_eq⟩, h.ne_null, h.flag, h.deal, h.del, h.reset, h.once,
    fun hpc => absurd hpc hw⟩

theorem QueueInv.signal (h : QueueInv addrs es s q) (hs : dealStep addrs hash s .signal = some s') :
    QueueInv addrs (es ++ [.signal]) s' q := by
  simp only [dealStep] at hs
  split at hs
  · cases hs
  · obtain rfl := Option.some.inj hs
    by_cases hpc : s.pc = .wait
    · have hmove : QueueInv addrs (es ++ [.signal]) { s with pc := .woken } q :=
        h.move (e := .signal) trivial (by simp [hpc]) (by simp) (fun _ => .inl (hpc ▸ trivial))
          (by simp) (by simp) (by simp)
      rw [if_pos hpc]
      exact hmove.signals (by simp) _
    · rw [if_neg hpc]
      have hsame : QueueInv addrs (es ++ [.signal]) s q :=
        { h with once := once_silent (e := .signal) trivial h.once }
      exact hsame.signals hpc _

theorem QueueInv.spurious (h : QueueInv addrs es s q)
    (hs : dealStep addrs hash s .spurious = some s') :
    QueueInv addrs (es ++ [.spurious]) s' q := by
  simp only [dealStep] at hs
  split_ifs at hs with hpc
  obtain rfl := Option.some.inj hs
  exact h.move (e := .spurious) trivial (by simp [hpc]) (by simp) (fun _ => .inl (hpc ▸ trivial))
    (by simp) (by simp) (by simp)

theorem QueueInv.lock (h : QueueInv addrs es s q) (hs : dealStep addrs hash s .lock = some s') :
    QueueInv addrs (es ++ [.lock]) s' q := by
  simp only [dealStep] at hs
  split_ifs at hs with hpc
  obtain rfl := Option.some.inj hs
  refine h.move (e := .lock) trivial ?_ (by simp) ?_ (by simp) (by simp) (by simp)
  · rcases hpc with hpc | hpc <;> simp [hpc]
  · rcases hpc with hpc | hpc <;> exact fun _ => .inl (hpc ▸ trivial)

theorem QueueInv.check (h : QueueInv addrs es s q) (hs : dealStep addrs hash s .check = some s') :
    QueueInv addrs (es ++ [.check]) s' q := by
  simp only [dealStep] at hs
  split_ifs at hs with hpc hg
  · obtain rfl := Option.some.inj hs
    exact h.move (e := .check) trivial (by simp [hpc]) (by simp) (fun _ => .inr hpc) (by simp)
      (by simp) fun _ => (h.flag (.inr hpc)).1 hg
  · obtain rfl := Option.some.inj hs
    exact h.move (e := .check) trivial (by simp [hpc]) (by simp) (fun _ => .inr hpc) (by simp)
      (by simp) (by simp)

theorem QueueInv.loop (h : QueueInv addrs es s q) (hs : dealStep addrs hash s .loop = some s') :
    QueueInv addrs (es ++ [.loop]) s' q := by
  simp only [dealStep, h.queue.empty_iff] at hs
  split_ifs at hs with hpc hq
  · obtain rfl := Option.some.inj hs
    exact h.move (e := .loop) trivial (by simp [hpc]) (by simp) (by simp [DealPc.Free]) (by simp)
      (fun _ => hq) (by simp)
  · obtain rfl := Option.some.inj hs
    exact h.move (e := .loop) trivial (by simp [hpc]) (by simp) (by simp [DealPc.Free])
      (fun _ => hq) (by simp) (by simp)

theorem QueueInv.next_reset (h : QueueInv addrs es s q)
    (hs : dealStep addrs hash s .reset = some s') : QueueInv addrs (es ++ [.reset]) s' q := by
  simp only [dealStep] at hs
  split_ifs at hs with hpc
  obtain rfl := Option.some.inj hs
  have hq := h.reset hpc
  have honce := h.once
  rw [DealState.pending_of_ne (by simp [hpc])] at honce
  exact {
    queue := ⟨h.queue.ring, h.queue.entry_eq⟩
    ne_null := h.ne_null
    flag := fun _ => iff_of_true rfl hq
    deal := fun hpc => by cases hpc
    del := fun _ hpc => by cases hpc
    reset := fun _ => hq
    once := once_silent trivial honce
    awake := fun hpc => by cases hpc }

theorem QueueInv.recv (h : QueueInv addrs es s q) {entry : α} {m : List U8}
    (hs : dealStep addrs hash s (.recv entry m) = some s') :
    QueueInv addrs (es ++ [.recv entry m]) s' ((entry, m) :: q) := by
  simp only [dealStep] at hs
  split_ifs at hs with hcond
  obtain ⟨hfree, hnull, hhead, hnew⟩ := hcond
  obtain rfl := Option.some.inj hs
  have hfresh : ∀ x ∈ q, x.1 ≠ entry := by
    rintro x hx rfl
    rw [h.queue.entry_eq x hx] at hnew
    cases hnew
  have hnot : entry ∉ addrs.msgHead :: q.map Prod.fst := by
    rw [List.mem_cons, not_or]
    refine ⟨hhead, fun hmem => ?_⟩
    obtain ⟨x, hx, he⟩ := List.mem_map.1 hmem
    exact hfresh x hx he
  have hpc : ∀ e, s.pc ≠ .del e := fun e he => by rw [he] at hfree; exact hfree
  have hold : s.pending q = q := DealState.pending_of_ne hpc
  exact {
    queue := {
      ring := h.queue.ring.add hnot
      entry_eq := by
        intro x hx
        rcases List.mem_cons.1 hx with rfl | hx
        · exact Function.update_self _ _ _
        · exact (Function.update_of_ne (hfresh x hx) _ _).trans (h.queue.entry_eq x hx) }
    ne_null := by
      intro x hx
      rcases List.mem_cons.1 hx with rfl | hx
      · exact hnull
      · exact h.ne_null x hx
    flag := fun _ => iff_of_false (by simp) (List.cons_ne_nil _ _)
    deal := fun _ => List.cons_ne_nil _ _
    del := fun e he => absurd he (hpc e)
    reset := fun hr => by
      rw [show s.pc = .reset from hr] at hfree
      exact hfree.elim
    once := by
      have honce := h.once
      rw [hold] at honce
      have hnow : ∀ mem g n, DealState.pending ⟨mem, g, s.pc, n, s.db, s.dsThreads⟩
          ((entry, m) :: q) = (entry, m) :: q := fun _ _ _ => DealState.pending_of_ne hpc
      have hlast : (q ++ [(entry, m)]).Perm ((entry, m) :: q) := List.perm_append_singleton _ _
      have hin : arrivals [DealEvent.recv entry m] = [(entry, m)] := rfl
      have hout : dispatches [DealEvent.recv entry m] = [] := rfl
      rw [hnow, arrivals_append, dispatches_append, hin, hout, List.append_nil]
      refine (honce.append_right _).trans ?_
      rw [List.append_assoc]
      exact hlast.append_left _
    awake := fun _ _ => Nat.succ_pos _ }

/-- `get_msg_data` reads the first entry, whose message the `switch` gets. -/
theorem QueueInv.deal_step (h : QueueInv addrs es s q) {mem : Bool} {entry : α} {m : List U8}
    (hs : dealStep addrs hash s (.deal mem entry m) = some s') :
    s.pc = .deal ∧ (∃ rest, q = (entry, m) :: rest) ∧ s' = { s with
      db := dealReceMsg hash mem m s.db
      dsThreads := if msgType m = SscMacMsgid.macFetch.val then s.dsThreads + 1 else s.dsThreads
      pc := .del entry } := by
  simp only [dealStep] at hs
  by_cases hcond : s.pc = .deal ∧ s.mem.list.next addrs.msgHead = entry
      ∧ QueueMem.getMsgData addrs s.mem = some m
  · rw [if_pos hcond] at hs
    obtain ⟨hpc, hnext, hget⟩ := hcond
    obtain ⟨x, rest, rfl⟩ := List.exists_cons_of_ne_nil (h.deal hpc)
    obtain ⟨hx, -, hm⟩ := h.queue.head
    obtain rfl : x = (entry, m) :=
      Prod.ext (hx.symm.trans hnext) (Option.some.inj (hm.symm.trans hget))
    exact ⟨hpc, ⟨rest, rfl⟩, (Option.some.inj hs).symm⟩
  · rw [if_neg hcond] at hs
    cases hs

theorem QueueInv.next_deal (h : QueueInv addrs es s q) {mem : Bool} {entry : α} {m : List U8}
    (hs : dealStep addrs hash s (.deal mem entry m) = some s') :
    QueueInv addrs (es ++ [.deal mem entry m]) s' q := by
  obtain ⟨hpc, ⟨rest, rfl⟩, rfl⟩ := h.deal_step hs
  have honce := h.once
  rw [DealState.pending_of_ne (by simp [hpc])] at honce
  exact {
    queue := ⟨h.queue.ring, h.queue.entry_eq⟩
    ne_null := h.ne_null
    flag := fun hf => by simp [DealPc.Free] at hf
    deal := fun hd => by cases hd
    del := fun e he => by
      obtain rfl := DealPc.del.inj he
      exact ⟨m, rest, rfl⟩
    reset := fun hr => by cases hr
    once := by
      have hin : arrivals [DealEvent.deal mem entry m] = [] := rfl
      have hout : dispatches [DealEvent.deal mem entry m] = [(entry, m)] := rfl
      rw [DealState.pending_del rfl, arrivals_append, dispatches_append, hin, hout, List.append_nil,
        List.append_assoc]
      exact honce
    awake := fun hw => by cases hw }

/-- `del_dealed_msg` takes out the first entry. -/
theorem QueueInv.delDealedMsg {x : α × List U8} {rest : List (α × List U8)}
    (h : QueueInv addrs es s (x :: rest)) : QueueMem.delDealedMsg addrs s.mem = some {
      list := s.mem.list.del addrs.poison₁ addrs.poison₂ x.1
      entry := Function.update s.mem.entry x.1 none } := by
  obtain ⟨hnext, -, -⟩ := h.queue.head
  have hentry := h.queue.entry_eq x (.head _)
  simp only [QueueMem.delDealedMsg, hnext, hentry]
  rw [if_pos (h.ne_null x (.head _))]

theorem QueueInv.del_step (h : QueueInv addrs es s q) {entry : α}
    (hs : dealStep addrs hash s (.del entry) = some s') :
    s.pc = .del entry ∧ (∃ m rest, q = (entry, m) :: rest) ∧ s' = { s with
      mem := {
        list := s.mem.list.del addrs.poison₁ addrs.poison₂ entry
        entry := Function.update s.mem.entry entry none }
      pc := .loop } := by
  simp only [dealStep] at hs
  split at hs
  · rename_i e mem hpc hmem
    split_ifs at hs with hnext
    obtain ⟨m, rest, rfl⟩ := h.del e hpc
    obtain ⟨he, -, -⟩ := h.queue.head
    obtain rfl : e = entry := he.symm.trans hnext
    rw [h.delDealedMsg] at hmem
    obtain rfl := Option.some.inj hmem
    exact ⟨hpc, ⟨m, rest, rfl⟩, (Option.some.inj hs).symm⟩
  · cases hs

theorem QueueInv.del_enabled {entry : α} {m : List U8} {rest : List (α × List U8)}
    (h : QueueInv addrs es s ((entry, m) :: rest)) (hpc : s.pc = .del entry) :
    dealStep addrs hash s (.del entry) = some { s with
      mem := {
        list := s.mem.list.del addrs.poison₁ addrs.poison₂ entry
        entry := Function.update s.mem.entry entry none }
      pc := .loop } := by
  obtain ⟨hnext, -, -⟩ := h.queue.head
  simp only [dealStep, hpc, h.delDealedMsg, if_pos hnext]

theorem QueueInv.next_del (h : QueueInv addrs es s q) {entry : α}
    (hs : dealStep addrs hash s (.del entry) = some s') :
    QueueInv addrs (es ++ [.del entry]) s' q.tail := by
  obtain ⟨hpc, ⟨m, rest, rfl⟩, rfl⟩ := h.del_step hs
  have honce := h.once
  rw [DealState.pending_del hpc] at honce
  have hother : ∀ x ∈ rest, x.1 ≠ entry := by
    rintro x hx rfl
    have hnd := (List.nodup_cons.1 (List.nodup_cons.1 h.queue.ring.nodup).2).1
    exact hnd (List.mem_map.2 ⟨x, hx, rfl⟩)
  exact {
    queue := {
      ring := h.queue.ring.del _ _
      entry_eq := fun x hx => (Function.update_of_ne (hother x hx) _ _).trans
        (h.queue.entry_eq x (.tail _ hx)) }
    ne_null := fun x hx => h.ne_null x (.tail _ hx)
    flag := fun hf => by simp [DealPc.Free] at hf
    deal := fun hd => by cases hd
    del := fun _ hd => by cases hd
    reset := fun hr => by cases hr
    once := once_silent trivial honce
    awake := fun hw => by cases hw }

/-- The queue after an event. -/
def afterEvent (q : List (α × List U8)) : DealEvent α → List (α × List U8)
  | .recv entry msgText => (entry, msgText) :: q
  | .del _ => q.tail
  | _ => q

theorem QueueInv.next (h : QueueInv addrs es s q) {e : DealEvent α}
    (hs : dealStep addrs hash s e = some s') : QueueInv addrs (es ++ [e]) s' (afterEvent q e) := by
  cases e with
  | recv entry m => exact h.recv hs
  | signal => exact h.signal hs
  | spurious => exact h.spurious hs
  | lock => exact h.lock hs
  | check => exact h.check hs
  | loop => exact h.loop hs
  | deal mem entry m => exact h.next_deal hs
  | del entry => exact h.next_del hs
  | reset => exact h.next_reset hs

/-- After a run the queue is as the steps keep it. -/
theorem queue_run {list : Links α} {db : PiDbMacInfo}
    (hp : Path (dealStep addrs hash) (.start addrs list db) es s) : ∃ q, QueueInv addrs es s q := by
  refine hp.history (I := fun es s => ∃ q, QueueInv addrs es s q) ?_ [] ⟨[], .start addrs list db⟩
  rintro pre s e s' ⟨q, h⟩ hs
  exact ⟨afterEvent q e, h.next hs⟩

end Steps

/-! ## A pass of the inner loop -/

def DealPc.Draining : DealPc α → Prop
  | .loop | .deal | .del _ | .reset => True
  | _ => False

/-- The steps a pass has still to make over a queue of that length. -/
def DealPc.left : DealPc α → ℕ → ℕ
  | .loop, n => 3 * n + 1
  | .deal, n => 3 * n
  | .del _, n => 3 * n - 1
  | _, _ => 0

/-- The pass that found the queue `q₀`, after the events `es` of it. -/
structure DrainInv (q₀ : List (α × List U8)) (n : ℕ) (es : List (DealEvent α)) (s : DealState α)
    (q : List (α × List U8)) : Prop where
  draining : s.pc.Draining
  out : q₀ = dispatches es ++ s.pending q
  count : es.length + s.pc.left q.length + s.signals = n

section Drain

variable {es₀ es : List (DealEvent α)} {s s' : DealState α} {q q₀ : List (α × List U8)} {n : ℕ}

theorem DrainInv.signal (d : DrainInv q₀ n es s q)
    (hs : dealStep addrs hash s .signal = some s') : DrainInv q₀ n (es ++ [.signal]) s' q := by
  simp only [dealStep] at hs
  split at hs
  · cases hs
  rename_i signals hsig
  obtain rfl := Option.some.inj hs
  have hpc : s.pc ≠ .wait := fun hpc => by
    have hd := d.draining
    rw [hpc] at hd
    exact hd
  rw [if_neg hpc]
  refine ⟨d.draining, ?_, ?_⟩
  · rw [dispatches_append, DealEvent.Silent.dispatches (e := .signal) trivial, List.append_nil]
    exact d.out
  · have hcount := d.count
    rw [hsig] at hcount
    simp only [List.length_append, List.length_singleton]
    omega

theorem DrainInv.loop (d : DrainInv q₀ n es s q) (h : QueueInv addrs es₀ s q)
    (hs : dealStep addrs hash s .loop = some s') : DrainInv q₀ n (es ++ [.loop]) s' q := by
  simp only [dealStep, h.queue.empty_iff] at hs
  have hcount := d.count
  have hout := d.out
  split_ifs at hs with hpc hq
  · obtain rfl := Option.some.inj hs
    rw [DealState.pending_of_ne (by simp [hpc])] at hout
    refine ⟨trivial, ?_, ?_⟩
    · rw [dispatches_append, DealEvent.Silent.dispatches (e := .loop) trivial, List.append_nil]
      exact hout
    · rw [hpc, DealPc.left, hq, List.length_nil] at hcount
      simp only [List.length_append, List.length_singleton, DealPc.left]
      omega
  · obtain rfl := Option.some.inj hs
    rw [DealState.pending_of_ne (by simp [hpc])] at hout
    refine ⟨trivial, ?_, ?_⟩
    · rw [dispatches_append, DealEvent.Silent.dispatches (e := .loop) trivial, List.append_nil]
      exact hout
    · rw [hpc, DealPc.left] at hcount
      simp only [List.length_append, List.length_singleton, DealPc.left]
      omega

theorem DrainInv.deal (d : DrainInv q₀ n es s q) (h : QueueInv addrs es₀ s q) {mem : Bool}
    {entry : α} {m : List U8} (hs : dealStep addrs hash s (.deal mem entry m) = some s') :
    DrainInv q₀ n (es ++ [.deal mem entry m]) s' q := by
  obtain ⟨hpc, ⟨rest, rfl⟩, rfl⟩ := h.deal_step hs
  have hcount := d.count
  have hout := d.out
  rw [DealState.pending_of_ne (by simp [hpc])] at hout
  refine ⟨trivial, ?_, ?_⟩
  · have hlast : dispatches [DealEvent.deal mem entry m] = [(entry, m)] := rfl
    rw [dispatches_append, hlast, DealState.pending_del rfl, List.append_assoc]
    exact hout
  · rw [hpc, DealPc.left, List.length_cons] at hcount
    simp only [List.length_append, List.length_nil, DealPc.left, List.length_cons]
    omega

theorem DrainInv.del (d : DrainInv q₀ n es s q) (h : QueueInv addrs es₀ s q) {entry : α}
    (hs : dealStep addrs hash s (.del entry) = some s') :
    DrainInv q₀ n (es ++ [.del entry]) s' q.tail := by
  obtain ⟨hpc, ⟨m, rest, rfl⟩, rfl⟩ := h.del_step hs
  have hcount := d.count
  have hout := d.out
  rw [DealState.pending_del hpc] at hout
  refine ⟨trivial, ?_, ?_⟩
  · rw [dispatches_append, DealEvent.Silent.dispatches (e := .del entry) trivial, List.append_nil]
    exact hout
  · rw [hpc, DealPc.left, List.length_cons] at hcount
    simp only [List.length_append, List.length_singleton, DealPc.left, List.tail_cons]
    omega

theorem DrainInv.next (d : DrainInv q₀ n es s q) (h : QueueInv addrs es₀ s q) {e : DealEvent α}
    (hs : dealStep addrs hash s e = some s') (he : e ≠ .reset) :
    DrainInv q₀ n (es ++ [e]) s' (afterEvent q e) := by
  have hd := d.draining
  cases e with
  | recv entry m =>
    simp only [dealStep] at hs
    split_ifs at hs with hcond
    have hfree := hcond.1
    revert hd hfree
    cases s.pc <;> simp [DealPc.Draining, DealPc.Free]
  | signal => exact d.signal hs
  | spurious =>
    simp only [dealStep] at hs
    split_ifs at hs with hpc
    rw [hpc] at hd
    exact hd.elim
  | lock =>
    simp only [dealStep] at hs
    split_ifs at hs with hpc
    rcases hpc with hpc | hpc <;> rw [hpc] at hd <;> exact hd.elim
  | check =>
    simp only [dealStep] at hs
    split_ifs at hs with hpc <;> rw [hpc] at hd <;> exact hd.elim
  | loop => exact d.loop h hs
  | deal mem entry m => exact d.deal h hs
  | del entry => exact d.del h hs
  | reset => exact absurd rfl he

/-- A pass goes on until it has dispatched the queue it found, first to last. -/
theorem drain_run (h : QueueInv addrs es₀ s q) (hpc : s.pc = .loop)
    (hp : Path (dealStep addrs hash) s es s') (hno : .reset ∉ es) :
    ∃ q', QueueInv addrs (es₀ ++ es) s' q'
      ∧ DrainInv q (3 * q.length + 1 + s.signals) es s' q' := by
  have hstart : DrainInv q (3 * q.length + 1 + s.signals) [] s q := by
    refine ⟨hpc ▸ trivial, ?_, ?_⟩
    · rw [DealState.pending_of_ne (by simp [hpc])]
      rfl
    · rw [hpc, List.length_nil, DealPc.left]
      omega
  refine hp.history (I := fun es s' => .reset ∉ es → ∃ q', QueueInv addrs (es₀ ++ es) s' q'
    ∧ DrainInv q (3 * q.length + 1 + s.signals) es s' q') ?_ []
    (fun _ => ⟨q, (List.append_nil es₀).symm ▸ h, hstart⟩) hno
  intro pre s₁ e s₂ hi hs hno
  rw [List.mem_append, List.mem_singleton, not_or] at hno
  obtain ⟨q', h', d'⟩ := hi hno.1
  refine ⟨afterEvent q' e, ?_, d'.next h' hs (Ne.symm hno.2)⟩
  rw [← List.append_assoc]
  exact h'.next hs

end Drain

/-! ## The queue as a list -/

/-- The state with the queue as the list of its messages. -/
def DealState.view (s : DealState α) (q : List (α × List U8)) : PiState :=
  ⟨s.db, q.map Prod.snd, s.gData, s.dsThreads⟩

section View

variable {es : List (DealEvent α)} {s s' : DealState α} {q : List (α × List U8)}

theorem recv_view {entry : α} {m : List U8} (hs : dealStep addrs hash s (.recv entry m) = some s') :
    s'.view ((entry, m) :: q) = piRecevieMsgSsc (fun _ => true) m (s.view q) := by
  simp only [dealStep] at hs
  split_ifs at hs
  obtain rfl := Option.some.inj hs
  rfl

/-- One iteration is `dealInfoBody`. -/
theorem QueueInv.iterate {x : α × List U8} (h : QueueInv addrs es s (x :: q)) (hpc : s.pc = .loop)
    (mem : Bool) : ∃ es' s', Path (dealStep addrs hash) s es' s'
      ∧ QueueInv addrs (es ++ es') s' q ∧ s'.pc = .loop
      ∧ s'.view q = dealInfoBody hash mem (s.view (x :: q)) := by
  obtain ⟨hnext, -, hm⟩ := h.queue.head
  have hne : ¬ s.mem.list.Empty addrs.msgHead := by
    rw [h.queue.empty_iff]
    exact List.cons_ne_nil _ _
  have h₁ : dealStep addrs hash s .loop = some { s with pc := .deal } := by
    rw [dealStep, if_pos hpc, if_neg hne]
  have hi₁ := h.loop h₁
  have h₂ : dealStep addrs hash { s with pc := .deal } (.deal mem x.1 x.2) = some { s with
      db := dealReceMsg hash mem x.2 s.db
      dsThreads := if msgType x.2 = SscMacMsgid.macFetch.val then s.dsThreads + 1 else s.dsThreads
      pc := .del x.1 } := by
    rw [dealStep, if_pos ⟨rfl, hnext, hm⟩]
  have hi₂ := hi₁.next_deal h₂
  have h₃ : dealStep addrs hash _ (.del x.1) = some _ := hi₂.del_enabled rfl
  have hi₃ := hi₂.next_del h₃
  refine ⟨_, _, .cons h₁ (.cons h₂ (.single h₃)), ?_, rfl, rfl⟩
  simpa only [List.append_assoc, List.singleton_append, List.cons_append, List.nil_append,
    List.tail_cons] using hi₃

/-- The loop is `dealInfoLoop`; the thread then clears the flag and lets the mutex go. -/
theorem loop_refines : ∀ (q : List (α × List U8)) (es : List (DealEvent α)) (s : DealState α)
    (mem : ℕ → Bool), QueueInv addrs es s q → s.pc = .loop → ∃ es' s',
      Path (dealStep addrs hash) s es' s' ∧ QueueInv addrs (es ++ es') s' [] ∧ s'.pc = .lock
        ∧ { dealInfoLoop hash mem (s.view q) with gData := 0 } = s'.view []
  | [], es, s, mem, h, hpc => by
    have h₁ : dealStep addrs hash s .loop = some { s with pc := .reset } := by
      rw [dealStep, if_pos hpc, if_pos (h.queue.empty_iff.2 rfl)]
    have hi₁ := h.loop h₁
    have h₂ : dealStep addrs hash { s with pc := .reset } .reset
        = some { s with gData := 0, pc := .lock } := rfl
    have hnil : (s.view []).msgHead = [] := rfl
    refine ⟨_, _, .cons h₁ (.single h₂), ?_, rfl, ?_⟩
    · simpa only [List.append_assoc, List.singleton_append] using hi₁.next_reset h₂
    · rw [dealInfoLoop, if_pos hnil]
      rfl
  | x :: q, es, s, mem, h, hpc => by
    obtain ⟨es₁, s₁, hp₁, hi₁, hpc₁, hv₁⟩ := h.iterate hpc (mem 0)
    obtain ⟨es₂, s₂, hp₂, hi₂, hpc₂, hv₂⟩ := loop_refines q _ s₁ (fun i => mem (i + 1)) hi₁ hpc₁
    have hcons : (s.view (x :: q)).msgHead ≠ [] := List.cons_ne_nil _ _
    refine ⟨es₁ ++ es₂, s₂, hp₁.append hp₂, ?_, hpc₂, ?_⟩
    · rwa [← List.append_assoc]
    · rw [dealInfoLoop, if_neg hcons, ← hv₁]
      exact hv₂

/-- A pass of `deal_info_func` over the list heads is one of `dealInfoPass` over the list of
messages. -/
theorem pass_refines (h : QueueInv addrs es s q) (hpc : s.pc = .check) (hg : s.gData ≠ 0)
    (mem : ℕ → Bool) : ∃ es' s', Path (dealStep addrs hash) s es' s'
      ∧ QueueInv addrs (es ++ es') s' [] ∧ s'.pc = .lock
      ∧ dealInfoPass hash mem (s.view q) = some (s'.view []) := by
  have h₁ : dealStep addrs hash s .check = some { s with pc := .loop } := by
    rw [dealStep, if_pos hpc, if_neg hg]
  obtain ⟨es', s', hp, hi, hpc', hv⟩ := loop_refines q _ _ mem (h.check h₁) rfl
  have hg' : (s.view q).gData ≠ 0 := hg
  refine ⟨_, s', .cons h₁ hp, ?_, hpc', ?_⟩
  · simpa only [List.append_assoc, List.singleton_append] using hi
  · rw [dealInfoPass, if_neg hg', ← hv]
    rfl

end View

/-! ## What the queue is for -/

/-- A step of the processing thread. -/
def DealEvent.ByDeal : DealEvent α → Prop
  | .recv _ _ | .signal | .spurious => False
  | _ => True

/-- The queue after the events `es`, with its entries `q`. -/
structure QueueExact (addrs : QueueAddrs α) (hash : HashFn) (es : List (DealEvent α))
    (s : DealState α) (q : List (α × List U8)) : Prop where
  queue : s.Queue addrs q
  /-- Where the mutex is free the flag is zero exactly when the queue is empty. -/
  flag : s.pc.Free → (s.gData = 0 ↔ s.mem.list.Empty addrs.msgHead)
  /-- Each message received has been dispatched once or waits to be. -/
  once : (arrivals es).Perm (dispatches es ++ s.pending q)
  /-- `get_msg_data` has an entry of the queue before it, not the head. -/
  getEntry : s.pc = .deal → s.mem.list.next addrs.msgHead ≠ addrs.msgHead
    ∧ QueueMem.getMsgData addrs s.mem ≠ none
  /-- `del_dealed_msg` deletes the entry that `get_msg_data` has read. -/
  sameEntry : ∀ entry, s.pc = .del entry → s.mem.list.next addrs.msgHead = entry
    ∧ entry ≠ addrs.msgHead ∧ QueueMem.delDealedMsg addrs s.mem ≠ none
  /-- The thread blocks with nothing queued only. -/
  blocks : ∀ s', dealStep addrs hash s .check = some s' → s'.pc = .wait → q = []
  /-- Where it is blocked and there is something in the queue, a signal is on its way. -/
  stranded : s.pc = .wait → q ≠ [] → 0 < s.signals
  /-- Nothing but the wait can stop it. -/
  proceeds : s.pc ≠ .wait → ∃ e s', e.ByDeal ∧ dealStep addrs hash s e = some s'
  /-- A pass of the inner loop dispatches the entries in order and ends when it has dispatched them
  all. -/
  drains : s.pc = .loop → ∀ es' s', Path (dealStep addrs hash) s es' s' → .reset ∉ es' →
    dispatches es' <+: q ∧ es'.length ≤ 3 * q.length + 1 + s.signals
      ∧ (s'.pc = .reset → dispatches es' = q)

section Exact

variable {es : List (DealEvent α)} {s s' : DealState α} {q : List (α × List U8)}

theorem QueueInv.proceeds (h : QueueInv addrs es s q) (hw : s.pc ≠ .wait) :
    ∃ e s', e.ByDeal ∧ dealStep addrs hash s e = some s' := by
  rcases hpc : s.pc with _ | _ | _ | _ | _ | _ | entry | _
  · exact ⟨.lock, _, trivial, by rw [dealStep, if_pos (.inl hpc)]⟩
  · exact ⟨.check, _, trivial, by rw [dealStep, if_pos hpc]⟩
  · exact absurd hpc hw
  · exact ⟨.lock, _, trivial, by rw [dealStep, if_pos (.inr hpc)]⟩
  · exact ⟨.loop, _, trivial, by rw [dealStep, if_pos hpc]⟩
  · obtain ⟨⟨entry, m⟩, rest, rfl⟩ := List.exists_cons_of_ne_nil (h.deal hpc)
    obtain ⟨hnext, -, hm⟩ := h.queue.head
    exact ⟨.deal true entry m, _, trivial, by rw [dealStep, if_pos ⟨hpc, hnext, hm⟩]⟩
  · obtain ⟨m, rest, rfl⟩ := h.del entry hpc
    exact ⟨.del entry, _, trivial, h.del_enabled hpc⟩
  · exact ⟨.reset, _, trivial, by rw [dealStep, if_pos hpc]⟩

theorem QueueInv.drains (h : QueueInv addrs es s q) (hpc : s.pc = .loop)
    {es' : List (DealEvent α)} (hp : Path (dealStep addrs hash) s es' s') (hno : .reset ∉ es') :
    dispatches es' <+: q ∧ es'.length ≤ 3 * q.length + 1 + s.signals
      ∧ (s'.pc = .reset → dispatches es' = q) := by
  obtain ⟨q', h', d'⟩ := drain_run h hpc hp hno
  refine ⟨⟨_, d'.out.symm⟩, ?_, fun hr => ?_⟩
  · have hcount := d'.count
    omega
  · have hout := d'.out
    rw [DealState.pending_of_ne (by simp [hr]), h'.reset hr, List.append_nil] at hout
    exact hout.symm

/-- In every order of the steps the queue neither loses, repeats nor strands a message. -/
theorem queue_exact (addrs : QueueAddrs α) (hash : HashFn) (list : Links α) (db : PiDbMacInfo)
    (hp : Path (dealStep addrs hash) (.start addrs list db) es s) :
    ∃ q, QueueExact addrs hash es s q := by
  obtain ⟨q, h⟩ := queue_run hp
  refine ⟨q, {
    queue := h.queue
    flag := fun hf => (h.flag (.inl hf)).trans h.queue.empty_iff.symm
    once := h.once
    getEntry := fun hpc => ?_
    sameEntry := fun entry hpc => ?_
    blocks := fun s' hs hw => ?_
    stranded := h.awake
    proceeds := h.proceeds
    drains := fun hpc es' s' hp hno => h.drains hpc hp hno }⟩
  · obtain ⟨x, rest, rfl⟩ := List.exists_cons_of_ne_nil (h.deal hpc)
    obtain ⟨hnext, hne, hm⟩ := h.queue.head
    rw [hnext, hm]
    exact ⟨hne, by simp⟩
  · obtain ⟨m, rest, rfl⟩ := h.del entry hpc
    obtain ⟨hnext, hne, -⟩ := h.queue.head
    exact ⟨hnext, hne, by simp [h.delDealedMsg]⟩
  · simp only [dealStep] at hs
    split_ifs at hs with hpc hg
    · exact (h.flag (.inr hpc)).1 hg
    · obtain rfl := Option.some.inj hs
      cases hw

/-- A message arrives while the thread waits. -/
theorem queue_exact_wakes :
    let addrs : QueueAddrs ℕ := ⟨1, 0, 2, 3, by decide⟩
    let m := msgInfo SscMacMsgid.macUpStart.val []
    let es : List (DealEvent ℕ) := [.lock, .check, .recv 8 m, .signal, .lock, .check, .loop,
      .deal true 8 m, .del 8, .loop, .reset]
    dispatches es = [(8, m)] ∧ ∃ s,
      Path (dealStep addrs littleEnv.hash) (.start addrs ⟨id, id⟩ .blank) es s
        ∧ s.pc = .lock ∧ ∃ q, QueueExact addrs littleEnv.hash es s q := by
  intro addrs m es
  have hp : ∃ s, Path (dealStep addrs littleEnv.hash) (.start addrs ⟨id, id⟩ .blank) es s
      ∧ s.pc = .lock := by
    refine ⟨_, .cons rfl (.cons rfl (.cons rfl (.cons rfl (.cons rfl (.cons rfl (.cons rfl
      (.cons rfl (.cons rfl (.cons rfl (.cons rfl (.nil _))))))))))), rfl⟩
  obtain ⟨s, hp, hpc⟩ := hp
  exact ⟨rfl, s, hp, hpc, queue_exact addrs littleEnv.hash ⟨id, id⟩ .blank hp⟩

end Exact

end RookieMac.Pi
