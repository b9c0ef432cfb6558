import RookieMac.Connection
import RookieMac.Lib.Mirror
import RookieMac.Proofs.Arrival
import RookieMac.Proofs.Resync
import RookieMac.Proofs.StaticTable

/-!
# The dynamic tables over a busy connection

SSC's keys and PI's are a set and its mirror: the notification handler announces a change and then
makes it, PI makes it when the message arrives, the transfer copies keys, and the command clears the
two sets one after the other. Each step of the connection is one of these, as long as the two
comparisons that can take one key for another do not: SSC's when it learns an address, and PI's when
it forgets one (`Exact`).
-/

namespace RookieMac

open CMem Chained

/-! ## Keys -/

def PiMacEntry.word (e : PiMacEntry) : Mirror.Word Key := ⟨e.key, decide (e.flags ≠ 0)⟩

section Keys

variable {hash : HashFn} {t u : HashTbl} {e : PiMacEntry}

theorem keys_of_notify (ht : WF (layout hash) t) (hu : WF (layout hash) u)
    (h : toMap (layout hash) u = MacMap.notify (toMap (layout hash) t) e) :
    keys (layout hash) u = e.word.act (keys (layout hash) t) := by
  ext k
  rw [hu.mem_keys, Mirror.mem_act, ht.mem_keys, h, MacMap.notify]
  rcases eq_or_ne k e.key with rfl | hk
  · by_cases hf : e.flags = 0 <;> simp [PiMacEntry.word, hf]
  · simp [PiMacEntry.word, hk]

/-- PI can forget the wrong address only. -/
theorem Pi.keys_notifyDyn (h : WF (layout hash) t)
    (hc : e.flags = 0 → MacMap.Faithful hash (toMap (layout hash) t) e) :
    keys (layout hash) (Pi.notifyDyn hash t e) = e.word.act (keys (layout hash) t) := by
  refine keys_of_notify h (Pi.notifyDyn_wf h) ?_
  by_cases hf : e.flags = 0
  · exact Pi.toMap_notifyDyn h (hc hf)
  · exact Pi.toMap_notifyDyn_add h hf

/-- SSC can learn the wrong address only. -/
theorem Ssc.keys_notifyDyn (h : WF (layout hash) t)
    (hc : e.flags ≠ 0 → MacMap.Faithful hash (toMap (layout hash) t) e) :
    keys (layout hash) (Ssc.notifyDyn hash t e) = e.word.act (keys (layout hash) t) := by
  refine keys_of_notify h (Ssc.notifyDyn_wf h) ?_
  by_cases hf : e.flags ≠ 0
  · exact Ssc.toMap_notifyDyn h (hc hf)
  · exact Ssc.toMap_notifyDyn_del h hf

end Keys

/-! ## SSC's steps -/

namespace Ssc

variable {env : SscEnv} {db db' : MacOpraClass} {e : PiMacEntry}

theorem sscNotifyUpdate_held (hm : db.mutex = true) (mem : Bool) (e : PiMacEntry) :
    sscNotifyUpdate env mem e db = .error .deadlock := by
  unfold sscNotifyUpdate
  split_ifs
  · exact SscOp.run_held hm (.sscAddDynAddr mem e)
  · exact SscOp.run_held hm (.sscDelAgeEntry e)

/-- The update waits for the mutex; only what it learns needs memory. -/
theorem sscNotifyUpdate_cases {mem : Bool} (hr : sscNotifyUpdate env mem e db = .ok db')
    (hmem : e.flags ≠ 0 → mem = true) : db.mutex = false
      ∧ db' = { db with dynMacTblHead := notifyDyn env.hash db.dynMacTblHead e } := by
  rcases Bool.eq_false_or_eq_true db.mutex with hm | hm
  · rw [sscNotifyUpdate_held hm] at hr
    cases hr
  · have htrue : sscNotifyUpdate env mem e db = sscNotifyUpdate env true e db := by
      unfold sscNotifyUpdate
      split_ifs with hf
      · rw [hmem hf]
      · rfl
    rw [htrue, sscNotifyUpdate_ok hm, Except.ok.injEq] at hr
    exact ⟨hm, hr.symm⟩

theorem sscClearDyn_ok (h : Registered db) (hm : db.mutex = false) (mem : ℕ → Bool) :
    sscRecevieMsgPi env mem (Pi.piSendMsgSsc .macClearDyn []) db
      = .ok ({ db with dynMacTblHead := empty }, sscSendSsdConf (mem 0) .macClearDyn []) := by
  rw [sscRecevieMsgPi_call h]
  simp only [sscHandler, SscMacFunc.call, sscClearDynFunc, sscDelDynAddr, delFromDyn_ok hm, bind,
    Except.bind, pure, Except.pure, Bool.not_true, List.filter_false]
  rfl

/-- The handler of the clear waits for the mutex and empties the dynamic table. -/
theorem sscClearDyn_cases {mem : ℕ → Bool} {out : List SsInfo} (h : Registered db)
    (hr : sscRecevieMsgPi env mem (Pi.piSendMsgSsc .macClearDyn []) db = .ok (db', out)) :
    db.mutex = false ∧ db' = { db with dynMacTblHead := empty } := by
  rcases Bool.eq_false_or_eq_true db.mutex with hm | hm
  · have hheld : SscOp.run env.hash db .sscDelDynAddr = _ := SscOp.run_held hm _
    rw [SscOp.run] at hheld
    rw [sscRecevieMsgPi_call h] at hr
    simp only [sscHandler, SscMacFunc.call, sscClearDynFunc, hheld, bind, Except.bind,
      reduceCtorEq] at hr
  · rw [sscClearDyn_ok h hm, Except.ok.injEq] at hr
    exact ⟨hm, (Prod.mk.inj hr).1.symm⟩

end Ssc

/-! ## PI's steps -/

/-- The messages to PI that concern its dynamic table. -/
inductive Sent
  | notify (e : PiMacEntry)
  | entry (x : PiMacEntry)

def Sent.bytes : Sent → List U8
  | .notify e => Pi.notifyMsg e.bytes
  | .entry x => Ssc.dsMsg sscDyn x

def Sent.word : Sent → Mirror.Word Key
  | .notify e => e.word
  | .entry x => ⟨x.key, true⟩

namespace Pi

variable {hash : HashFn} {db : PiDbMacInfo}

theorem keys_dealReceMsg (h : PiInv hash db) (m : Sent) (hc : ∀ e, m = .notify e → e.flags = 0 →
      MacMap.Faithful hash (toMap (layout hash) db.dynMacTblHead) e) :
    keys (layout hash) (dealReceMsg hash true m.bytes db).dynMacTblHead
      = m.word.act (keys (layout hash) db.dynMacTblHead) := by
  cases m with
  | notify e =>
    rw [Sent.bytes, dealReceMsg_notifyMsg, notifyMsg, piDealNotifyMsg_msgInfo]
    exact keys_notifyDyn h.dyn.wf (hc e rfl)
  | entry x =>
    have h' := dealReceMsg_inv h true (Ssc.dsMsg sscDyn x)
    ext k
    rw [Sent.bytes, h'.dyn.wf.mem_keys, toMap_dsMsg h, Mirror.mem_act, h.dyn.wf.mem_keys, Sent.word]
    rcases eq_or_ne k x.key with rfl | hk
    · simp
    · simp [hk]

theorem piClear_dyn (db : PiDbMacInfo) :
    (piUpdateLocalDb hash true .macClearDyn [] db).dynMacTblHead = empty := by
  simp only [piUpdateLocalDb, clearLocalMac, callClearLocalMac_dyn, clearDynMac, Bool.not_true,
    List.filter_false]
  rfl

end Pi

/-! ## The simulation -/

section Simulation

variable {env : Ssc.SscEnv} {K₀ : Set Key} {s s' : Conn} {p : Mirror.Pair Key}

/-- What a step is for the keys. -/
def ConnEvent.inputs (env : Ssc.SscEnv) : ConnEvent → List (Mirror.Event Key)
  | .sscSend payload _ => [.announce (Ssc.notifyData env payload).word]
  | .sscUpdate _ => [.perform]
  | .dumpSend x mem => if mem then [.copy x.key] else []
  | .piRecv _ => [.deliver]
  | .piClear => [.clearMirror]
  | .sscRecv _ => [.clearOrigin]
  | .dumpLock | .dumpUnlock | .piSend => []

/-- No allocation that matters fails, SSC does not take another key for one it learns, and PI
forgets the key it is told to: it holds it with the port of the message, and no other key that it
takes for it. -/
def Exact (env : Ssc.SscEnv) (s : Conn) : ConnEvent → Prop
  | .sscSend _ mem => mem = true
  | .sscUpdate mem => ∀ e, s.handling = some e → e.flags ≠ 0 →
    mem = true ∧ MacMap.Faithful env.hash (toMap (layout env.hash) s.ssc.dynMacTblHead) e
  | .piRecv mem => mem = true ∧ ∀ m ∈ s.up.head?, msgType m = SscMacMsgid.macAddrNotify.val →
    let e := PiMacEntry.read (msgBody m)
    e.flags = 0 → MacMap.Faithful env.hash (toMap (layout env.hash) s.pi.dynMacTblHead) e
  | _ => True

structure Sim (env : Ssc.SscEnv) (K₀ : Set Key) (s : Conn) (p : Mirror.Pair Key) : Prop where
  piInv : Pi.PiInv env.hash s.pi
  sscInv : Ssc.SscInv env.hash s.ssc
  registered : Ssc.Registered s.ssc
  mutex : s.ssc.mutex = s.dumping.isSome
  dumping : ∀ xs, s.dumping = some xs → ∀ x ∈ xs, x ∈ entries s.ssc.dynMacTblHead
  down : ∀ m ∈ s.down, m = Pi.piSendMsgSsc .macClearDyn []
  up : ∃ ms : List Sent, s.up = ms.map Sent.bytes ∧ p.mirror.queue = ms.map Sent.word
  handling : p.origin.queue = s.handling.toList.map PiMacEntry.word
  piKeys : keys (layout env.hash) s.pi.dynMacTblHead = p.mirror.keys K₀
  sscKeys : keys (layout env.hash) s.ssc.dynMacTblHead = p.origin.keys K₀
  clears : p.mirror.clears + s.clearing.toNat = p.origin.clears + s.down.length

theorem Sim.up_append (h : Sim env K₀ s p) (m : Sent) :
    ∃ ms : List Sent, s.up ++ [m.bytes] = ms.map Sent.bytes
      ∧ (p.mirror.say m.word).queue = ms.map Sent.word := by
  obtain ⟨ms, hup, hq⟩ := h.up
  refine ⟨ms ++ [m], ?_, ?_⟩
  · rw [hup, List.map_append, List.map_singleton]
  · rw [List.map_append, List.map_singleton, ← hq]
    rfl

theorem Sim.sscSend (h : Sim env K₀ s p) {payload : List U8} {mem : Bool}
    (hc : Exact env s (.sscSend payload mem))
    (hs : connStep env s (.sscSend payload mem) = some s') :
    Sim env K₀ s' (Mirror.step p (.announce (Ssc.notifyData env payload).word)) := by
  obtain rfl : mem = true := hc
  unfold connStep at hs
  rcases hh : s.handling with _ | e <;> simp only [hh, Option.some.injEq, reduceCtorEq] at hs
  subst hs
  have ho := h.handling
  rw [hh] at ho
  exact { h with
    up := h.up_append (.notify (Ssc.notifyData env payload))
    handling := congrArg (· ++ [(Ssc.notifyData env payload).word]) ho }

theorem Sim.sscUpdate (h : Sim env K₀ s p) {mem : Bool} (hc : Exact env s (.sscUpdate mem))
    (hs : connStep env s (.sscUpdate mem) = some s') :
    Sim env K₀ s' (Mirror.step p .perform) := by
  unfold connStep at hs
  rcases hh : s.handling with _ | e <;> simp only [hh, reduceCtorEq] at hs
  rcases hu : Ssc.sscNotifyUpdate env mem e s.ssc with f | ssc <;>
    simp only [hu, Option.some.injEq, reduceCtorEq] at hs
  subst hs
  obtain ⟨hm, rfl⟩ := Ssc.sscNotifyUpdate_cases hu fun hf => (hc e hh hf).1
  have hq : p.origin.queue = [e.word] := by
    rw [h.handling, hh]
    rfl
  have hnone : s.dumping = none := by
    rw [h.mutex] at hm
    exact Option.not_isSome_iff_eq_none.1 (Bool.not_eq_true _ ▸ hm)
  exact { h with
    sscInv := ⟨h.sscInv.stat, Ssc.notifyDyn_wf h.sscInv.dyn⟩
    dumping := fun xs hx => by simp [hnone] at hx
    handling := Mirror.Ear.hear_queue hq
    sscKeys := by
      rw [Mirror.step, Mirror.Ear.keys_hear hq, ← h.sscKeys]
      exact Ssc.keys_notifyDyn h.sscInv.dyn fun hf => (hc e hh hf).2
    clears := by
      rw [Mirror.step, Mirror.Ear.hear_clears]
      exact h.clears }

theorem Sim.dumpLock (h : Sim env K₀ s p) (hs : connStep env s .dumpLock = some s') :
    Sim env K₀ s' p := by
  unfold connStep at hs
  rcases Bool.eq_false_or_eq_true s.ssc.mutex with hm | hm
  · simp only [Ssc.lock_held hm, reduceCtorEq] at hs
  · simp only [Ssc.lock_free hm, Option.some.injEq] at hs
    subst hs
    exact { h with
      sscInv := ⟨h.sscInv.stat, h.sscInv.dyn⟩
      mutex := rfl
      dumping := fun xs hx => Option.some.inj hx ▸ fun x hx => hx }

theorem Sim.dumpSend (h : Sim env K₀ s p) {x : PiMacEntry} {mem : Bool}
    (hs : connStep env s (.dumpSend x mem) = some s') :
    Sim env K₀ s' (((ConnEvent.dumpSend x mem).inputs env).foldl Mirror.step p)
      ∧ x ∈ entries s.ssc.dynMacTblHead := by
  unfold connStep at hs
  rcases hd : s.dumping with _ | _ | ⟨y, xs⟩ <;> simp only [hd, reduceCtorEq] at hs
  split_ifs at hs with hy
  subst hy
  rw [Option.some.injEq] at hs
  subst hs
  have hall := h.dumping _ hd
  refine ⟨?_, hall y (.head _)⟩
  have hmutex := h.mutex
  rw [hd] at hmutex
  have hrest : ∀ xs', some xs = some xs' → ∀ x ∈ xs', x ∈ entries s.ssc.dynMacTblHead :=
    fun xs' hx => Option.some.inj hx ▸ fun x hx => hall x (.tail _ hx)
  cases mem with
  | false => exact { h with
      mutex := hmutex
      dumping := hrest
      up := by
        obtain ⟨ms, hup, hq⟩ := h.up
        exact ⟨ms, (List.append_nil _).trans hup, hq⟩ }
  | true => exact { h with
      mutex := hmutex
      dumping := hrest
      up := h.up_append (.entry y) }

theorem Sim.dumpUnlock (h : Sim env K₀ s p) (hs : connStep env s .dumpUnlock = some s') :
    Sim env K₀ s' p := by
  unfold connStep at hs
  rcases hd : s.dumping with _ | _ | ⟨y, xs⟩ <;>
    simp only [hd, Option.some.injEq, reduceCtorEq] at hs
  subst hs
  exact { h with
    sscInv := ⟨h.sscInv.stat, h.sscInv.dyn⟩
    mutex := rfl
    dumping := fun _ hx => by cases hx }

theorem Sim.piRecv (h : Sim env K₀ s p) {mem : Bool} (hc : Exact env s (.piRecv mem))
    (hs : connStep env s (.piRecv mem) = some s') : Sim env K₀ s' (Mirror.step p .deliver) := by
  obtain ⟨rfl, hc⟩ := hc
  obtain ⟨ms, hup, hq⟩ := h.up
  unfold connStep at hs
  rcases ms with _ | ⟨m, ms⟩ <;> simp only [hup, List.map_nil, List.map_cons, reduceCtorEq,
    Option.some.injEq] at hs
  subst hs
  have hforget : ∀ e, m = .notify e → e.flags = 0 →
      MacMap.Faithful env.hash (toMap (layout env.hash) s.pi.dynMacTblHead) e := by
    rintro e rfl
    have := hc _ (by rw [hup]; rfl) (msgType_msgInfo_self _ _)
    rwa [msgBody_msgInfo_self, PiMacEntry.read_bytes_self] at this
  exact { h with
    piInv := Pi.dealReceMsg_inv h.piInv true _
    up := ⟨ms, rfl, Mirror.Ear.hear_queue hq⟩
    piKeys := by
      rw [Mirror.step, Mirror.Ear.keys_hear hq, ← h.piKeys]
      exact Pi.keys_dealReceMsg h.piInv m hforget
    clears := by
      rw [Mirror.step, Mirror.Ear.hear_clears]
      exact h.clears }

theorem Sim.piSend (h : Sim env K₀ s p) (hs : connStep env s .piSend = some s') :
    Sim env K₀ s' p := by
  unfold connStep at hs
  rcases hcl : s.clearing <;> simp only [hcl, ↓reduceIte, Bool.false_eq_true, Option.some.injEq,
    reduceCtorEq] at hs
  subst hs
  have hclears := h.clears
  rw [hcl] at hclears
  exact { h with
    down := fun m hm => by
      rcases List.mem_append.1 hm with hm | hm
      · exact h.down m hm
      · exact List.mem_singleton.1 hm
    clears := by
      rw [List.length_append, ← Nat.add_assoc, ← hclears]
      rfl }

theorem Sim.piClear (h : Sim env K₀ s p) (hs : connStep env s .piClear = some s') :
    Sim env K₀ s' (Mirror.step p .clearMirror) := by
  unfold connStep at hs
  rcases hcl : s.clearing <;> simp only [hcl, ↓reduceIte, Bool.false_eq_true, Option.some.injEq,
    reduceCtorEq] at hs
  subst hs
  have hclears := h.clears
  rw [hcl] at hclears
  exact { h with
    piInv := Pi.clearLocalMac_inv h.piInv .macClearDyn []
    piKeys := by rw [Pi.piClear_dyn, keys_empty]; rfl
    clears := hclears }

theorem Sim.sscRecv (h : Sim env K₀ s p) {mem : ℕ → Bool}
    (hs : connStep env s (.sscRecv mem) = some s') :
    Sim env K₀ s' (Mirror.step p .clearOrigin) := by
  unfold connStep at hs
  rcases hd : s.down with _ | ⟨m, down⟩ <;> simp only [hd, reduceCtorEq] at hs
  obtain rfl := h.down m (hd ▸ .head _)
  rcases hr : Ssc.sscRecevieMsgPi env mem (Pi.piSendMsgSsc .macClearDyn []) s.ssc with f | ⟨ssc, out⟩ <;>
    simp only [hr, Option.some.injEq, reduceCtorEq] at hs
  subst hs
  obtain ⟨hm, rfl⟩ := Ssc.sscClearDyn_cases h.registered hr
  have hclears := h.clears
  rw [hd, List.length_cons] at hclears
  exact { h with
    sscInv := ⟨h.sscInv.stat, WF.empty⟩
    dumping := fun xs hx => by
      rw [h.mutex, hx] at hm
      cases hm
    down := fun m hm => h.down m (hd ▸ .tail _ hm)
    sscKeys := keys_empty
    clears := by
      change p.mirror.clears + s.clearing.toNat = p.origin.clears + 1 + down.length
      omega }

theorem Sim.step (h : Sim env K₀ s p) {e : ConnEvent} (hc : Exact env s e)
    (hs : connStep env s e = some s') : Sim env K₀ s' ((e.inputs env).foldl Mirror.step p) := by
  cases e with
  | sscSend payload mem => exact h.sscSend hc hs
  | sscUpdate mem => exact h.sscUpdate hc hs
  | dumpLock => exact h.dumpLock hs
  | dumpSend x mem => exact (h.dumpSend hs).1
  | dumpUnlock => exact h.dumpUnlock hs
  | piRecv mem => exact h.piRecv hc hs
  | piSend => exact h.piSend hs
  | piClear => exact h.piClear hs
  | sscRecv mem => exact h.sscRecv hs

theorem Sim.idle {pi : Pi.PiDbMacInfo} {ssc : Ssc.MacOpraClass} (hpi : Pi.PiInv env.hash pi)
    (hssc : Ssc.SscInv env.hash ssc) (hm : ssc.mutex = false)
    (hsame : triples pi.dynMacTblHead = triples ssc.dynMacTblHead) :
    Sim env (keys (layout env.hash) ssc.dynMacTblHead) (.idle pi ssc) .start where
  piInv := hpi
  sscInv := ⟨hssc.stat, hssc.dyn⟩
  registered := rfl
  mutex := hm
  dumping := fun _ hx => by cases hx
  down := fun _ hm => by cases hm
  up := ⟨[], rfl, rfl⟩
  handling := rfl
  piKeys := by
    have hmap := (triples_eq_iff hpi.dyn.wf hssc.dyn).1 hsame
    ext k
    change k ∈ keys _ pi.dynMacTblHead ↔ k ∈ keys _ ssc.dynMacTblHead
    rw [hpi.dyn.wf.mem_keys, hssc.dyn.mem_keys, hmap]
  sscKeys := rfl
  clears := rfl

theorem Sim.quiet (h : Sim env K₀ s p) (hq : s.Quiet) : p.mirror.queue = []
    ∧ p.origin.queue = [] ∧ p.mirror.clears = p.origin.clears := by
  obtain ⟨ms, hup, hmirror⟩ := h.up
  have horigin := h.handling
  have hclears := h.clears
  rw [hq.up, eq_comm, List.map_eq_nil_iff] at hup
  rw [hup] at hmirror
  rw [hq.handling] at horigin
  rw [hq.clearing, hq.down] at hclears
  exact ⟨hmirror, horigin, hclears⟩

end Simulation

/-! ## PI's queue -/

section Queue

variable {env : Ssc.SscEnv} {q : List (List U8)} {c c' : Conn} {s s' : QueuedConn}

end Queue

/-! ## Steps that are enabled -/

section Enabled

variable {env : Ssc.SscEnv} {s : Conn} {e : PiMacEntry}

theorem connStep_sscSend (hh : s.handling = none) (e : PiMacEntry) :
    connStep littleEnv s (.sscSend (ssdNotify e) true)
      = some { s with up := s.up ++ [Pi.notifyMsg e.bytes], handling := some e } := by
  simp only [connStep, hh, notifyData_ssdNotify]
  rfl

theorem connStep_sscUpdate (hh : s.handling = some e) (hm : s.ssc.mutex = false) :
    connStep env s (.sscUpdate true) = some { s with
      ssc := { s.ssc with dynMacTblHead := Ssc.notifyDyn env.hash s.ssc.dynMacTblHead e }
      handling := none } := by
  simp only [connStep, hh, Ssc.sscNotifyUpdate_ok hm]

theorem exact_piRecv_entry {x : PiMacEntry} {up : List (List U8)}
    (hup : s.up = Ssc.dsMsg sscDyn x :: up) : Exact env s (.piRecv true) := by
  refine ⟨rfl, fun m hm hty => absurd hty ?_⟩
  rw [hup, List.head?_cons, Option.mem_some_iff] at hm
  rw [← hm, Ssc.dsMsg, msgType_msgInfo_self]
  decide

/-- PI forgets the only address it holds. -/
theorem exact_piRecv_only {up : List (List U8)} (hup : s.up = Pi.notifyMsg e.bytes :: up)
    (hmap : toMap (layout env.hash) s.pi.dynMacTblHead
      = Function.update (fun _ => none) e.key (some e.portId)) : Exact env s (.piRecv true) := by
  refine ⟨rfl, fun m hm _ hf k p hk _ => ?_⟩
  rw [hup, List.head?_cons, Option.mem_some_iff] at hm
  rw [← hm, Pi.notifyMsg, msgBody_msgInfo_self, PiMacEntry.read_bytes_self] at hf ⊢
  rw [if_neg (not_not.2 hf)]
  rw [hmap, Function.update_apply] at hk
  split_ifs at hk with hkx
  exact iff_of_true hkx (Option.some.inj hk).symm

/-- PI once it has processed the one notification on its way. -/
def QueuedConn.notified (hash : HashFn) (s : QueuedConn) (e : PiMacEntry) : QueuedConn :=
  { s with
    conn := { s.conn with
      pi := Pi.dealReceMsg hash true (Pi.notifyMsg e.bytes) s.conn.pi
      up := [] }
    gData := 0 }

end Enabled

end RookieMac
