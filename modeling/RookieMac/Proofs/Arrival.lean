import RookieMac.Proofs.Notify

/-!
# PI's queue and the order of arrival

`insert_msg_to_queue` links a message right after the head and the loop of `deal_info_func` takes
the one after the head, so the messages of one batch are processed newest first. A chain is seen
here class by class, a class being the keys the deletion takes for one: a notification acts on its
class alone. Notifications of different classes change places freely, and so do two deletions, or
two insertions of one key at one port.
-/

namespace RookieMac.Pi

open CMem Chained

/-! ## The classes of a table -/

section View

abbrev Class := Fin hashSize × List U8 × U32

def cls (hash : HashFn) (k : Key) : Class := (hash k.1 k.2, cstr k.1.toList, k.2)

theorem cls_eq_iff {hash : HashFn} {k k' : Key} : cls hash k = cls hash k' ↔ Alike hash k k' := by
  simp only [cls, Prod.mk.injEq, Alike]

def classEntry (hash : HashFn) (c : Class) (x : PiMacEntry) : Option (Key × U32) :=
  if cls hash x.key = c then some (x.key, x.portId) else none

/-- The keys of a class with their ports, in the order of their chain. -/
def view (hash : HashFn) (head : HashTbl) (c : Class) : List (Key × U32) :=
  (head c.1).filterMap (classEntry hash c)

/-- What a notification does to its class. -/
def act (e : PiMacEntry) (l : List (Key × U32)) : List (Key × U32) :=
  if e.flags ≠ 0 then
    (modifyFirst (fun q => decide (q.1 = e.key)) (fun q => (q.1, e.portId)) l).getD
      ((e.key, e.portId) :: l)
  else l.eraseP fun q => decide (q.2 = e.portId)

variable {hash : HashFn} {head : HashTbl} {e : PiMacEntry}

theorem toMap_eq_of_view_eq {t u : HashTbl} (ht : WF (layout hash) t) (hu : WF (layout hash) u)
    (h : view hash t = view hash u) : toMap (layout hash) t = toMap (layout hash) u := by
  have mem : ∀ {t : HashTbl}, WF (layout hash) t → ∀ k p,
      toMap (layout hash) t k = some p ↔ (k, p) ∈ view hash t (cls hash k) := by
    intro t ht k p
    simp only [view, classEntry, List.mem_filterMap, Option.ite_none_right_eq_some, Option.some.injEq,
      Prod.mk.injEq]
    constructor
    · intro hk
      obtain ⟨x, hx, rfl, rfl⟩ := exists_of_toMap ht hk
      exact ⟨x, hx, rfl, rfl, rfl⟩
    · rintro ⟨x, hx, -, rfl, rfl⟩
      exact toMap_of_mem ht hx
  funext k
  exact Option.ext fun p => by rw [mem ht, mem hu, h]

theorem classEntry_of_ne {c : Class} {x : PiMacEntry} (h : c ≠ cls hash x.key) :
    classEntry hash c x = none := if_neg h.symm

theorem classEntry_self (x : PiMacEntry) :
    classEntry hash (cls hash x.key) x = some (x.key, x.portId) := if_pos rfl

/-- A change of one chain that other classes do not see. -/
theorem view_update {l : List PiMacEntry} {c₀ : Class}
    (h : ∀ c, c ≠ c₀ → l.filterMap (classEntry hash c)
      = (head c₀.1).filterMap (classEntry hash c)) :
    view hash (Function.update head c₀.1 l)
      = Function.update (view hash head) c₀ (l.filterMap (classEntry hash c₀)) := by
  funext c
  rcases eq_or_ne c c₀ with rfl | hc
  · rw [Function.update_self, view, Function.update_self]
  · rw [Function.update_of_ne hc, view, view]
    by_cases hi : c.1 = c₀.1
    · rw [hi, Function.update_self, h c hc]
    · rw [Function.update_of_ne hi]

theorem view_insert (e : PiMacEntry) (hflags : e.flags ≠ 0) :
    view hash (insertHashTable hash e head).2
      = Function.update (view hash head) (cls hash e.key)
        (act e (view hash head (cls hash e.key))) := by
  have hp : ∀ x ∈ head (cls hash e.key).1, sameKey e x
      = (classEntry hash (cls hash e.key) x).any fun q => decide (q.1 = e.key) := by
    intro x _
    rw [Bool.eq_iff_iff, sameKey_iff]
    unfold classEntry
    split_ifs with hc
    · simp
    · simp only [Option.any_none, Bool.false_eq_true, iff_false]
      exact fun hk => hc (by rw [hk])
  have hf : ∀ x, sameKey e x = true → classEntry hash (cls hash e.key) (setPort e.portId x)
      = (classEntry hash (cls hash e.key) x).map fun q => (q.1, e.portId) := by
    intro x hx
    rw [sameKey_iff] at hx
    simp [classEntry, hx]
  have hm := filterMap_modifyFirst hf _ hp
  have hother : ∀ c, c ≠ cls hash e.key →
      ((modifyFirst (sameKey e) (setPort e.portId) (head (cls hash e.key).1)).getD
        (e :: head (cls hash e.key).1)).filterMap (classEntry hash c)
      = (head (cls hash e.key).1).filterMap (classEntry hash c) := by
    intro c hc
    rcases hl : modifyFirst (sameKey e) (setPort e.portId) (head (cls hash e.key).1) with _ | l
    · exact List.filterMap_cons_none (classEntry_of_ne hc)
    · refine filterMap_modifyFirst_of_none (fun x _ hx => ?_) hl
      rw [sameKey_iff] at hx
      exact ⟨classEntry_of_ne (hx ▸ hc), classEntry_of_ne (by rw [key_setPort, hx]; exact hc)⟩
  have hi : hash e.mac e.vlanId = (cls hash e.key).1 := rfl
  rw [(insertHashTable_eq hash e head).1, act, if_pos hflags, upsert, hi, view_update hother]
  congr 1
  rw [view, ← hm]
  rcases modifyFirst (sameKey e) (setPort e.portId) (head (cls hash e.key).1) with _ | l
  · exact List.filterMap_cons_some (classEntry_self e)
  · rfl

theorem view_del (h : WF (layout hash) head) (e : PiMacEntry) (hflags : ¬ e.flags ≠ 0) :
    view hash (delHashEntry hash e head).2
      = Function.update (view hash head) (cls hash e.key)
        (act e (view hash head (cls hash e.key))) := by
  have hp : ∀ x ∈ head (cls hash e.key).1, sameEntryDel e x
      = (classEntry hash (cls hash e.key) x).any fun q => decide (q.2 = e.portId) := by
    intro x hx
    rw [Bool.eq_iff_iff, sameEntryDel_iff_alike h hx, ← cls_eq_iff]
    unfold classEntry
    split_ifs with hc <;> simp [hc]
  have hother : ∀ c, c ≠ cls hash e.key →
      ((head (cls hash e.key).1).eraseP (sameEntryDel e)).filterMap (classEntry hash c)
      = (head (cls hash e.key).1).filterMap (classEntry hash c) := by
    intro c hc
    refine filterMap_eraseP_of_none _ fun x hx hpx => classEntry_of_ne ?_
    rw [sameEntryDel_iff_alike h hx, ← cls_eq_iff] at hpx
    exact hpx.1 ▸ hc
  have hi : hash e.mac e.vlanId = (cls hash e.key).1 := rfl
  rw [(delHashEntry_eq hash e head).1, act, if_neg hflags, eraseFirst, hi, view_update hother,
    view, ← filterMap_eraseP _ hp]

theorem view_notifyDyn (h : WF (layout hash) head) (e : PiMacEntry) :
    view hash (notifyDyn hash head e) = Function.update (view hash head) (cls hash e.key)
      (act e (view hash head (cls hash e.key))) := by
  unfold notifyDyn
  split_ifs with hflags
  · exact view_insert e hflags
  · exact view_del h e hflags

end View

/-! ## Notifications that change places -/

section Commute

/-- Notifications of alike keys both forget, or both learn one key on one port. -/
def Commute (hash : HashFn) (a b : PiMacEntry) : Prop :=
  Alike hash a.key b.key → (a.flags = 0 ∧ b.flags = 0)
    ∨ (a.flags ≠ 0 ∧ b.flags ≠ 0 ∧ a.key = b.key ∧ a.portId = b.portId)

variable {hash : HashFn} {a b : PiMacEntry}

theorem Commute.symm (h : Commute hash a b) : Commute hash b a := fun ha => by
  rcases h ha.symm with ⟨h₁, h₂⟩ | ⟨h₁, h₂, hk, hp⟩
  · exact .inl ⟨h₂, h₁⟩
  · exact .inr ⟨h₂, h₁, hk.symm, hp.symm⟩

theorem Commute.refl (a : PiMacEntry) : Commute hash a a := fun _ => by
  by_cases ha : a.flags = 0
  · exact .inl ⟨ha, ha⟩
  · exact .inr ⟨ha, ha, rfl, rfl⟩

instance : Std.Symm (Commute hash) := ⟨fun _ _ h => h.symm⟩

theorem act_comm (h : (a.flags = 0 ∧ b.flags = 0)
    ∨ (a.flags ≠ 0 ∧ b.flags ≠ 0 ∧ a.key = b.key ∧ a.portId = b.portId))
    (l : List (Key × U32)) : act b (act a l) = act a (act b l) := by
  rcases h with ⟨ha, hb⟩ | ⟨ha, hb, hk, hp⟩
  · simp only [act, ha, hb, ne_eq, not_true_eq_false, ↓reduceIte]
    by_cases hp : a.portId = b.portId
    · rw [hp]
    · exact eraseP_comm (fun q hq => by simp_all) l
  · simp only [act, if_pos ha, if_pos hb, hk, hp]

def viewStep (hash : HashFn) (v : Class → List (Key × U32)) (e : PiMacEntry) :
    Class → List (Key × U32) :=
  Function.update v (cls hash e.key) (act e (v (cls hash e.key)))

theorem viewStep_comm (h : Commute hash a b) (v : Class → List (Key × U32)) :
    viewStep hash (viewStep hash v a) b = viewStep hash (viewStep hash v b) a := by
  unfold viewStep
  by_cases hc : cls hash a.key = cls hash b.key
  · rw [hc, Function.update_self, Function.update_self, Function.update_idem,
      Function.update_idem, act_comm (h (cls_eq_iff.1 hc))]
  · rw [Function.update_of_ne (Ne.symm hc), Function.update_of_ne hc, Function.update_comm hc]

/-- A batch of notifications that change places can be processed backwards. -/
theorem foldl_viewStep_reverse {es : List PiMacEntry} (h : es.Pairwise (Commute hash))
    (v : Class → List (Key × U32)) :
    es.reverse.foldl (viewStep hash) v = es.foldl (viewStep hash) v := by
  refine es.reverse_perm.foldl_eq' (fun a ha b hb v => ?_) v
  rw [List.mem_reverse] at ha hb
  exact viewStep_comm (h.forall_of_forall (fun a _ => .refl a) ha hb) v

end Commute

/-! ## Batches of the queue -/

section Queue

def notifyMsg (body : List U8) : List U8 := msgInfo SscMacMsgid.macAddrNotify.val body

/-- A notification arrives, or the processing thread makes a pass of its loop. -/
inductive QueueEvent
  | recv (body : List U8)
  | drain

def queueStep (hash : HashFn) (s : PiState) : QueueEvent → PiState
  | .recv body => piRecevieMsgSsc (fun _ => true) (notifyMsg body) s
  -- a thread that waits for data changes nothing
  | .drain => (dealInfoPass hash (fun _ => true) s).getD s

def received (es : List QueueEvent) : List (List U8) :=
  es.filterMap fun
    | .recv body => some body
    | .drain => none

/-- The database after the notifications one by one. -/
def inOrder (hash : HashFn) (db : PiDbMacInfo) (bodies : List (List U8)) : PiDbMacInfo :=
  bodies.foldl (fun db body => piDealNotifyMsg hash true (notifyMsg body) db) db

/-- An arriving notification can change places with every one still queued. -/
def Apart (hash : HashFn) (s : PiState) : QueueEvent → Prop
  | .recv body => ∀ m ∈ s.msgHead,
      Commute hash (PiMacEntry.read (msgBody m)) (PiMacEntry.read body)
  | .drain => True

variable {hash : HashFn}

def notifyAll (hash : HashFn) (head : HashTbl) (bodies : List (List U8)) : HashTbl :=
  bodies.foldl (fun head body => notifyDyn hash head (PiMacEntry.read body)) head

theorem notifyAll_spec : ∀ (bodies : List (List U8)) {head : HashTbl}, WF (layout hash) head →
    WF (layout hash) (notifyAll hash head bodies) ∧ view hash (notifyAll hash head bodies)
      = (bodies.map PiMacEntry.read).foldl (viewStep hash) (view hash head)
  | [], _, h => ⟨h, rfl⟩
  | body :: bodies, head, h => by
    obtain ⟨hwf, hview⟩ := notifyAll_spec bodies (notifyDyn_wf (e := PiMacEntry.read body) h)
    refine ⟨hwf, ?_⟩
    rw [List.map_cons, List.foldl_cons, viewStep, ← view_notifyDyn h]
    exact hview

theorem inOrder_dyn : ∀ (bodies : List (List U8)) (db : PiDbMacInfo),
    (inOrder hash db bodies).dynMacTblHead = notifyAll hash db.dynMacTblHead bodies
  | [], _ => rfl
  | body :: bodies, db => by
    have h : (piDealNotifyMsg hash true (notifyMsg body) db).dynMacTblHead = _ :=
      piDealNotifyMsg_dyn _ _
    rw [inOrder, List.foldl_cons, ← inOrder, inOrder_dyn bodies, h, notifyMsg,
      msgBody_msgInfo_self]
    rfl

theorem dealReceMsg_notifyMsg (body : List U8) (db : PiDbMacInfo) :
    dealReceMsg hash true (notifyMsg body) db = piDealNotifyMsg hash true (notifyMsg body) db := by
  have hty : msgType (notifyMsg body) = SscMacMsgid.macAddrNotify.val := msgType_msgInfo_self _ _
  unfold dealReceMsg
  rw [hty]
  rfl

theorem dealInfoLoop_spec : ∀ (q : List (List U8)) (s : PiState), s.msgHead = q.map notifyMsg →
    (dealInfoLoop hash (fun _ => true) s).msgHead = []
      ∧ (dealInfoLoop hash (fun _ => true) s).db = inOrder hash s.db q
  | [], s, h => by
    rw [List.map_nil] at h
    rw [dealInfoLoop, if_pos h]
    exact ⟨h, rfl⟩
  | body :: q, s, h => by
    have hne : s.msgHead ≠ [] := by simp [h]
    have hbody : (dealInfoBody hash true s).msgHead = q.map notifyMsg := by
      rw [dealInfoBody_msgHead, h]
      rfl
    have hdb : (dealInfoBody hash true s).db = piDealNotifyMsg hash true (notifyMsg body) s.db := by
      rw [← dealReceMsg_notifyMsg]
      simp [dealInfoBody, getMsgData, h]
    obtain ⟨hq, hd⟩ := dealInfoLoop_spec q _ hbody
    rw [dealInfoLoop, if_neg hne]
    exact ⟨hq, by rw [hd, hdb]; rfl⟩

theorem queueStep_drain {q : List (List U8)} {s : PiState} (h : s.msgHead = q.map notifyMsg)
    (hg : s.gData ≠ 0) : (queueStep hash s .drain).msgHead = []
      ∧ (queueStep hash s .drain).db = inOrder hash s.db q := by
  rw [queueStep, dealInfoPass, if_neg hg]
  exact dealInfoLoop_spec q s h

/-- PI's queue holds the notifications `q`, newest first, and processing them in the order of
arrival leads to the table `ref`. -/
structure Pending (hash : HashFn) (ref : HashTbl) (q : List (List U8)) (s : PiState) : Prop where
  msgHead : s.msgHead = q.map notifyMsg
  ready : q ≠ [] → s.gData ≠ 0
  wf : WF (layout hash) s.db.dynMacTblHead
  refWf : WF (layout hash) ref
  pairwise : (q.map PiMacEntry.read).Pairwise (Commute hash)
  order : (q.map PiMacEntry.read).reverse.foldl (viewStep hash) (view hash s.db.dynMacTblHead)
    = view hash ref

variable {ref : HashTbl} {q : List (List U8)} {s : PiState}

theorem Pending.recv (h : Pending hash ref q s) {body : List U8}
    (hc : Apart hash s (.recv body)) :
    Pending hash (notifyDyn hash ref (PiMacEntry.read body)) (body :: q)
      (queueStep hash s (.recv body)) := by
  refine ⟨?_, fun _ => one_ne_zero, h.wf, notifyDyn_wf h.refWf, ?_, ?_⟩
  · rw [List.map_cons, ← h.msgHead]
    rfl
  · rw [List.map_cons, List.pairwise_cons]
    refine ⟨fun e he => ?_, h.pairwise⟩
    obtain ⟨b, hb, rfl⟩ := List.mem_map.1 he
    have := hc (notifyMsg b) (h.msgHead ▸ List.mem_map_of_mem hb)
    rw [notifyMsg, msgBody_msgInfo_self] at this
    exact this.symm
  · rw [List.map_cons, List.reverse_cons, List.foldl_append, view_notifyDyn h.refWf]
    change viewStep hash (_ : Class → _) _ = _
    rw [← h.order]
    rfl

/-- A pass empties the queue, and what it does newest first is what the order of arrival does. -/
theorem Pending.drain (h : Pending hash ref q s) :
    Pending hash ref [] (queueStep hash s .drain) := by
  by_cases hg : s.gData = 0
  · have hq : q = [] := by
      by_contra hq
      exact h.ready hq hg
    rw [queueStep, dealInfoPass, if_pos hg, Option.getD_none]
    exact hq ▸ h
  · obtain ⟨hmsg, hdb⟩ := queueStep_drain h.msgHead hg
    have hdyn : (queueStep hash s .drain).db.dynMacTblHead
        = notifyAll hash s.db.dynMacTblHead q := by rw [hdb, inOrder_dyn]
    obtain ⟨hwf, hview⟩ := notifyAll_spec q h.wf
    refine ⟨hmsg, fun hq => absurd rfl hq, hdyn ▸ hwf, h.refWf, .nil, ?_⟩
    rw [hdyn]
    exact hview.trans ((foldl_viewStep_reverse h.pairwise _).symm.trans h.order)

/-- In a run whose arriving notifications can change places with those still queued, the queue and
the table stay a batch away from the order of arrival. -/
theorem Pending.run : ∀ (es : List QueueEvent) {ref : HashTbl} {q : List (List U8)} {s : PiState},
    Pending hash ref q s → Runs.Each (queueStep hash) (Apart hash) s es →
    ∃ q', Pending hash (notifyAll hash ref (received es)) q' (es.foldl (queueStep hash) s)
  | [], _, q, _, h, _ => ⟨q, h⟩
  | .recv _ :: es, _, _, _, h, hc => Pending.run es (h.recv hc.1) hc.2
  | .drain :: es, _, _, _, h, hc => Pending.run es h.drain hc.2

/-- Once the queue is empty the table maps as after the notifications in the order of arrival, in
every run, from a reachable database, whose arriving notifications can change places with those
still queued. -/
theorem notifications_in_order (hash : HashFn) (db : PiDbMacInfo) (ops : List PiOp) (gData : ℤ)
    (dsThreads : ℕ) (es : List QueueEvent)
    (hc : Runs.Each (queueStep hash) (Apart hash) ⟨piRun hash db ops, [], gData, dsThreads⟩ es)
    (hempty : (es.foldl (queueStep hash) ⟨piRun hash db ops, [], gData, dsThreads⟩).msgHead = []) :
    toMap (layout hash) (es.foldl (queueStep hash)
        ⟨piRun hash db ops, [], gData, dsThreads⟩).db.dynMacTblHead
      = toMap (layout hash)
        (inOrder hash (piRun hash db ops) (received es)).dynMacTblHead := by
  have hwf := (piRun_inv hash db ops).dyn.wf
  have h₀ : Pending hash (piRun hash db ops).dynMacTblHead []
      ⟨piRun hash db ops, [], gData, dsThreads⟩ :=
    ⟨rfl, fun hq => absurd rfl hq, hwf, hwf, .nil, rfl⟩
  obtain ⟨q, h⟩ := Pending.run es h₀ hc
  have hq : q = [] := List.map_eq_nil_iff.1 (h.msgHead ▸ hempty)
  rw [inOrder_dyn]
  refine toMap_eq_of_view_eq h.wf h.refWf ?_
  rw [← h.order, hq]
  rfl

theorem notifications_in_order_two :
    let a : PiMacEntry := ⟨#v[2, 0, 0, 0, 0, 1], 1, 10, 3, 0⟩
    let b : PiMacEntry := ⟨#v[2, 0, 0, 0, 0, 1], 1, 20, 4, 0⟩
    let s := [.recv a.bytes, .recv b.bytes, .drain].foldl (queueStep littleEnv.hash)
      ⟨piRun littleEnv.hash .blank [], [], 0, 0⟩
    toMap (layout littleEnv.hash) s.db.dynMacTblHead = toMap (layout littleEnv.hash)
      (inOrder littleEnv.hash (piRun littleEnv.hash .blank []) [a.bytes, b.bytes]).dynMacTblHead := by
  intro a b s
  have hs : s = queueStep littleEnv.hash
      ⟨piRun littleEnv.hash .blank [], [b.bytes, a.bytes].map notifyMsg, 1, 0⟩ .drain := rfl
  have hq : s.msgHead = [] := by
    rw [hs]
    exact (queueStep_drain rfl one_ne_zero).1
  refine notifications_in_order littleEnv.hash .blank [] 0 0
    [.recv a.bytes, .recv b.bytes, .drain] ⟨fun m hm => ?_, fun m hm hal => ?_, trivial, trivial⟩ hq
  · cases hm
  · obtain rfl : m = notifyMsg a.bytes := List.mem_singleton.1 hm
    rw [notifyMsg, msgBody_msgInfo_self, PiMacEntry.read_bytes_self,
      PiMacEntry.read_bytes_self] at hal
    exact absurd hal.2.2 (by decide)

/-- An address learnt and aged out in one batch stays. -/
theorem notifications_reversed :
    let a : PiMacEntry := ⟨#v[2, 0, 0, 0, 0, 1], 1, 10, 3, 0⟩
    let d : PiMacEntry := { a with flags := 0 }
    let s := [.recv a.bytes, .recv d.bytes, .drain].foldl (queueStep littleEnv.hash)
      ⟨piRun littleEnv.hash .blank [], [], 0, 0⟩
    s.msgHead = [] ∧ toMap (layout littleEnv.hash) s.db.dynMacTblHead
      ≠ toMap (layout littleEnv.hash)
        (inOrder littleEnv.hash (piRun littleEnv.hash .blank [])
          [a.bytes, d.bytes]).dynMacTblHead := by
  intro a d s
  have hs : s = queueStep littleEnv.hash
      ⟨piRun littleEnv.hash .blank [], [d.bytes, a.bytes].map notifyMsg, 1, 0⟩ .drain := rfl
  obtain ⟨hq, hdb⟩ : s.msgHead = [] ∧ s.db = inOrder littleEnv.hash
      (piRun littleEnv.hash .blank []) [d.bytes, a.bytes] := by
    rw [hs]
    exact queueStep_drain rfl one_ne_zero
  refine ⟨hq, fun h => ?_⟩
  have hat := congrFun h a.key
  rw [hdb, inOrder_dyn, inOrder_dyn] at hat
  revert hat
  decide

end Queue

end RookieMac.Pi
