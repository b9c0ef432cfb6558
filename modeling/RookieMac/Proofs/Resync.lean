import RookieMac.Proofs.Notify

/-!
# What a transfer of SSC's tables leaves at PI

`ssc_ds_data_pi` sends the configuration and then each entry of its two tables. PI inserts a dynamic
entry as it is, so that SSC's bindings override PI's and the keys SSC does not hold stay. It zeroes
a static entry before it copies it, so that all of them become the one entry whose bytes are zeros.
The order PI processes the messages in does not matter.
-/

namespace RookieMac

open CMem Chained

/-! ## The messages -/

namespace Ssc

def dsMsg (type : U32) (x : PiMacEntry) : List U8 :=
  msgInfo SscMacMsgid.macUpIng.val (dsInfo type x.bytes)

theorem dsEntries_all (type : U32) (head : HashTbl) :
    dsEntries (fun _ => true) type head = (entries head).map (dsMsg type) := by
  have go : ∀ (l : List PiMacEntry) (n : ℕ), ((l.zipIdx n).filterMap fun q =>
      sscSendMsgPi true .macUpIng (dsInfo type q.1.bytes)) = l.map (dsMsg type) := by
    intro l
    induction l with
    | nil => exact fun _ => rfl
    | cons x l ih =>
      intro n
      rw [List.zipIdx_cons, List.filterMap_cons, List.map_cons, ← ih (n + 1)]
      rfl
  exact go _ 0

def DsMem.all : DsMem := ⟨true, fun _ => true, fun _ => true, fun _ => true, true⟩

variable {env : SscEnv} {db : MacOpraClass}

def confMsg (env : SscEnv) (db : MacOpraClass) : List U8 :=
  msgInfo SscMacMsgid.macUpIng.val (dsInfo sscConf (ConfInfo.bytes
    ⟨db.ageTime, fun i => if 1 ≤ i.val then db.portStatus i else env.stack⟩))

theorem sscDsConfInfo_ok (hm : db.mutex = false) :
    sscDsConfInfo env (fun _ => true) db = .ok (db, [confMsg env db]) := by
  unfold sscDsConfInfo
  rw [if_pos rfl, lock_free hm]
  simp only [bind, Except.bind, pure, Except.pure, unlock_lock hm]
  rfl

theorem sscDsStaticInfo_all (hm : db.mutex = false) : sscDsStaticInfo (fun _ => true) db
    = .ok (db, (entries db.staticMacTblHead).map (dsMsg sscStatic)) := by
  have h0 : (fun _ => true : ℕ → Bool) 0 = true := rfl
  rw [sscDsStaticInfo_ok hm h0, dsEntries_all]

theorem sscDsDynInfo_all (hm : db.mutex = false) : sscDsDynInfo (fun _ => true) db
    = .ok (db, (entries db.dynMacTblHead).map (dsMsg sscDyn)) := by
  have h0 : (fun _ => true : ℕ → Bool) 0 = true := rfl
  rw [sscDsDynInfo_ok hm h0, dsEntries_all]

def dsSent (env : SscEnv) (db : MacOpraClass) : List (List U8) :=
  [msgInfo SscMacMsgid.macUpStart.val []] ++ [confMsg env db]
    ++ (entries db.staticMacTblHead).map (dsMsg sscStatic)
    ++ (entries db.dynMacTblHead).map (dsMsg sscDyn) ++ [msgInfo SscMacMsgid.macUpEnd.val []]

theorem dsMsg_mem_dsSent {x : PiMacEntry} (hx : x ∈ entries db.dynMacTblHead) :
    dsMsg sscDyn x ∈ dsSent env db :=
  List.mem_append_left _ (List.mem_append_right _ (List.mem_map_of_mem hx))

theorem sscDsDataPi_ok (hm : db.mutex = false) :
    sscDsDataPi env .all db = .ok (db, dsSent env db) := by
  unfold sscDsDataPi DsMem.all
  simp only [sscDsConfInfo_ok hm, sscDsStaticInfo_all hm, sscDsDynInfo_all hm, bind, Except.bind,
    pure, Except.pure]
  rfl

end Ssc

/-! ## What PI makes of them -/

namespace Pi

open Ssc (dsInfo dsMsg confMsg)

variable {hash : HashFn} {db : PiDbMacInfo}

theorem dealReceMsg_dsIng (type : U32) (context : List U8) (db : PiDbMacInfo) :
    dealReceMsg hash true (msgInfo SscMacMsgid.macUpIng.val (dsInfo type context)) db
      = if type = sscConf then dealConfInfo (dsInfo type context) db
        else if type = sscStatic then dealStaticInfo hash true (dsInfo type context) db
        else if type = sscDyn then dealDynInfo hash true (dsInfo type context) db
        else db := by
  have hty : readU32 (dsInfo type context) 0 = type := readU32_toBytes type context
  unfold dealReceMsg piDealDsIng
  simp only [msgType_msgInfo_self, msgBody_msgInfo_self, hty]
  rfl

theorem dealReceMsg_static (x : PiMacEntry) (db : PiDbMacInfo) :
    (dealReceMsg hash true (dsMsg sscStatic x) db).staticMacTblHead
      = (insertHashTable hash .zero db.staticMacTblHead).2 := by
  rw [dsMsg, dealReceMsg_dsIng]
  change (insertHashTable hash (PiMacEntry.read (zeroFirst sizeofPiMacEntry _))
    db.staticMacTblHead).2 = _
  rw [PiMacEntry.read_zeroFirst]

theorem dealReceMsg_dyn (x : PiMacEntry) (db : PiDbMacInfo) :
    (dealReceMsg hash true (dsMsg sscDyn x) db).dynMacTblHead
      = (insertHashTable hash x db.dynMacTblHead).2 := by
  rw [dsMsg, dealReceMsg_dsIng]
  change (insertHashTable hash (PiMacEntry.read ((dsInfo sscDyn x.bytes).drop 4))
    db.dynMacTblHead).2 = _
  rw [dsInfo, List.drop_left' (length_toBytes sscDyn), PiMacEntry.read_bytes_self]

/-- The other messages of a transfer leave the dynamic table as it is. -/
theorem dealReceMsg_other {m : List U8} (env : Ssc.SscEnv) (ssc : Ssc.MacOpraClass)
    (hm : m = msgInfo SscMacMsgid.macUpStart.val [] ∨ m = confMsg env ssc
      ∨ (∃ x, m = dsMsg sscStatic x) ∨ m = msgInfo SscMacMsgid.macUpEnd.val [])
    (db : PiDbMacInfo) :
    (dealReceMsg hash true m db).dynMacTblHead = db.dynMacTblHead := by
  rcases hm with rfl | rfl | ⟨x, rfl⟩ | rfl
  · rfl
  · rw [confMsg, dealReceMsg_dsIng]
    rfl
  · rw [dsMsg, dealReceMsg_dsIng]
    rfl
  · rfl

theorem dealReceMsg_inv (h : PiInv hash db) (mem : Bool) (m : List U8) :
    PiInv hash (dealReceMsg hash mem m db) := by
  unfold dealReceMsg piDealDsIng piDealNotifyMsg
  simp only []
  split_ifs
  · exact h
  · exact h
  · exact ⟨h.dyn, h.stat⟩
  · exact dealStaticInfo_inv h mem _
  · exact piAddLocalDyn_inv h mem _
  · exact h
  · exact h
  · exact piAddLocalDyn_inv h mem _
  · exact piDelLocalDyn_inv h _
  · exact h

end Pi

/-! ## The dynamic table -/

section Dynamic

variable {hash : HashFn}

/-- SSC's bindings, and PI's where SSC has none. -/
def merged (hash : HashFn) (ssc : Ssc.MacOpraClass) (pi : Pi.PiDbMacInfo) : MacMap := fun k =>
  (toMap (layout hash) ssc.dynMacTblHead k).or (toMap (layout hash) pi.dynMacTblHead k)

/-- A message that carries an entry of SSC's dynamic table, or changes no dynamic table. -/
def Carries (hash : HashFn) (ssc : Ssc.MacOpraClass) (m : List U8) : Prop :=
  (∃ x ∈ entries ssc.dynMacTblHead, m = Ssc.dsMsg sscDyn x)
    ∨ ∀ pi, (Pi.dealReceMsg hash true m pi).dynMacTblHead = pi.dynMacTblHead

variable {ssc : Ssc.MacOpraClass} {pi : Pi.PiDbMacInfo} {m : List U8} {x : PiMacEntry}

theorem toMap_dsMsg (h : Pi.PiInv hash pi) (x : PiMacEntry) :
    toMap (layout hash) (Pi.dealReceMsg hash true (Ssc.dsMsg sscDyn x) pi).dynMacTblHead
      = Function.update (toMap (layout hash) pi.dynMacTblHead) x.key (some x.portId) := by
  rw [Pi.dealReceMsg_dyn, (Pi.insertHashTable_spec h.dyn.wf x).2.1]

theorem toMap_of_entries (hs : WF (layout hash) ssc.dynMacTblHead)
    (hx : x ∈ entries ssc.dynMacTblHead) :
    toMap (layout hash) ssc.dynMacTblHead x.key = some x.portId := by
  obtain ⟨i, hi⟩ := mem_entries.1 hx
  exact toMap_of_mem hs hi

theorem Carries.merged_eq (hs : WF (layout hash) ssc.dynMacTblHead) (hm : Carries hash ssc m)
    (h : Pi.PiInv hash pi) :
    merged hash ssc (Pi.dealReceMsg hash true m pi) = merged hash ssc pi := by
  rcases hm with ⟨x, hx, rfl⟩ | hm
  · funext k
    rcases eq_or_ne k x.key with rfl | hk
    · rw [merged, merged, toMap_of_entries hs hx, Option.some_or, Option.some_or]
    · rw [merged, merged, toMap_dsMsg h, Function.update_of_ne hk]
  · unfold merged
    rw [hm]

theorem Carries.stays (hs : WF (layout hash) ssc.dynMacTblHead) (hm : Carries hash ssc m)
    (h : Pi.PiInv hash pi) (hx : x ∈ entries ssc.dynMacTblHead)
    (hp : toMap (layout hash) pi.dynMacTblHead x.key = some x.portId) :
    toMap (layout hash) (Pi.dealReceMsg hash true m pi).dynMacTblHead x.key = some x.portId := by
  rcases hm with ⟨y, hy, rfl⟩ | hm
  · rw [toMap_dsMsg h]
    rcases eq_or_ne x.key y.key with hk | hk
    · rw [← toMap_of_entries hs hx, hk, Function.update_self, toMap_of_entries hs hy]
    · rw [Function.update_of_ne hk, hp]
  · rw [hm, hp]

theorem toMap_transfer (hs : WF (layout hash) ssc.dynMacTblHead) (h : Pi.PiInv hash pi)
    {ms : List (List U8)} (hms : ∀ m ∈ ms, Carries hash ssc m)
    (hall : ∀ x ∈ entries ssc.dynMacTblHead, Ssc.dsMsg sscDyn x ∈ ms) :
    toMap (layout hash)
        (ms.foldl (fun pi m => Pi.dealReceMsg hash true m pi) pi).dynMacTblHead
      = merged hash ssc pi := by
  have hinv : ∀ pi, ∀ m ∈ ms, Pi.PiInv hash pi → Pi.PiInv hash (Pi.dealReceMsg hash true m pi) :=
    fun pi m _ h => Pi.dealReceMsg_inv h true m
  have hmerged : Pi.PiInv hash (ms.foldl (fun pi m => Pi.dealReceMsg hash true m pi) pi)
      ∧ merged hash ssc (ms.foldl (fun pi m => Pi.dealReceMsg hash true m pi) pi)
        = merged hash ssc pi := by
    have hstep : ∀ pi', ∀ m ∈ ms, Pi.PiInv hash pi' ∧ merged hash ssc pi' = merged hash ssc pi →
        Pi.PiInv hash (Pi.dealReceMsg hash true m pi')
          ∧ merged hash ssc (Pi.dealReceMsg hash true m pi') = merged hash ssc pi :=
      fun pi' m hm h => ⟨hinv pi' m hm h.1, ((hms m hm).merged_eq hs h.1).trans h.2⟩
    exact Runs.foldl_invariant_mem ms pi hstep ⟨h, rfl⟩
  rw [← hmerged.2]
  funext k
  rcases hk : toMap (layout hash) ssc.dynMacTblHead k with _ | p
  · rw [merged, hk, Option.none_or]
  · obtain ⟨x, hx, rfl, rfl⟩ := hs.toMap_eq_some.1 hk
    have hin := Runs.foldl_of_mem ms pi hinv
      (fun pi' m hm h hp => (hms m hm).stays hs h hx hp)
      (fun pi' h => by rw [toMap_dsMsg h, Function.update_self]) (hall x hx) h
    rw [merged, hk, Option.some_or]
    exact hin

theorem carries_of_mem {env : Ssc.SscEnv} (hm : m ∈ Ssc.dsSent env ssc) :
    Carries hash ssc m := by
  simp only [Ssc.dsSent, List.mem_append, List.mem_singleton, List.mem_map] at hm
  rcases hm with (((hm | hm) | ⟨x, -, hm⟩) | ⟨x, hx, hm⟩) | hm
  · exact .inr (Pi.dealReceMsg_other env ssc (.inl hm))
  · exact .inr (Pi.dealReceMsg_other env ssc (.inr (.inl hm)))
  · exact .inr (Pi.dealReceMsg_other env ssc (.inr (.inr (.inl ⟨x, hm.symm⟩))))
  · exact .inl ⟨x, hx, hm.symm⟩
  · exact .inr (Pi.dealReceMsg_other env ssc (.inr (.inr (.inr hm))))

/-- After a transfer PI's dynamic table maps the keys SSC holds as SSC does and the others as
before, in whatever order PI processes the messages; so it is SSC's map exactly when PI held no key
that SSC does not. -/
theorem resync_merges (env : Ssc.SscEnv) (ssc₀ : Ssc.MacOpraClass) (sscOps : List Ssc.SscOp)
    (ssc : Ssc.MacOpraClass) (hssc : Ssc.sscRun env.hash ssc₀ sscOps = .ok ssc)
    (hm : ssc.mutex = false) (pi₀ : Pi.PiDbMacInfo) (piOps : List Pi.PiOp) :
    let pi := Pi.piRun env.hash pi₀ piOps
    ∃ sent, Ssc.sscDsDataPi env .all ssc = .ok (ssc, sent) ∧ ∀ sent' : List (List U8),
      sent'.Perm sent →
      let pi' := sent'.foldl (fun pi m => Pi.dealReceMsg env.hash true m pi) pi
      (∀ k, toMap (layout env.hash) pi'.dynMacTblHead k
          = (toMap (layout env.hash) ssc.dynMacTblHead k).or
            (toMap (layout env.hash) pi.dynMacTblHead k))
        ∧ (toMap (layout env.hash) pi'.dynMacTblHead = toMap (layout env.hash) ssc.dynMacTblHead
          ↔ ∀ k, toMap (layout env.hash) pi.dynMacTblHead k ≠ none →
            toMap (layout env.hash) ssc.dynMacTblHead k ≠ none) := by
  intro pi
  have hs := (Ssc.sscRun_inv hssc).dyn
  refine ⟨_, Ssc.sscDsDataPi_ok hm, fun sent' hperm => ?_⟩
  have hmap := toMap_transfer hs (Pi.piRun_inv env.hash pi₀ piOps)
    (fun m hm => carries_of_mem (hperm.mem_iff.1 hm))
    fun x hx => hperm.mem_iff.2 (Ssc.dsMsg_mem_dsSent hx)
  refine ⟨congrFun hmap, ?_⟩
  rw [hmap, funext_iff]
  refine forall_congr' fun k => ?_
  rw [merged]
  rcases toMap (layout env.hash) ssc.dynMacTblHead k with _ | p
  · rw [Option.none_or, ne_self_iff_false, imp_false, not_ne_iff]
  · rw [Option.some_or]
    exact iff_of_true rfl fun _ => Option.some_ne_none p

/-- PI has a stale address, and a stale port for the address that SSC has: the port is put right,
the address stays. -/
theorem resync_merges_stale :
    let x : PiMacEntry := ⟨#v[2, 0, 0, 0, 0, 1], 1, 10, 3, 0⟩
    let y : PiMacEntry := ⟨#v[2, 0, 0, 0, 0, 2], 1, 10, 4, 0⟩
    let pi := Pi.piRun littleEnv.hash .blank
      [.piAddLocalDyn true x, .piAddLocalDyn true { y with portId := 7 }]
    ∃ ssc sent, Ssc.sscRun littleEnv.hash .blank [.sscAddDynAddr true y] = .ok ssc
      ∧ Ssc.sscDsDataPi littleEnv .all ssc = .ok (ssc, sent)
      ∧ ∀ sent' : List (List U8), sent'.Perm sent →
        let pi' := sent'.foldl (fun pi m => Pi.dealReceMsg littleEnv.hash true m pi) pi
        toMap (layout littleEnv.hash) pi.dynMacTblHead y.key = some 7
          ∧ toMap (layout littleEnv.hash) pi'.dynMacTblHead y.key = some 4
          ∧ toMap (layout littleEnv.hash) pi'.dynMacTblHead x.key = some 3
          ∧ toMap (layout littleEnv.hash) pi'.dynMacTblHead
            ≠ toMap (layout littleEnv.hash) ssc.dynMacTblHead := by
  intro x y
  let tbl := Function.update empty (littleEnv.hash y.mac y.vlanId) [y]
  have hkey : x.key ≠ y.key := by decide
  have hx : toMap (layout littleEnv.hash) tbl x.key = none := by decide
  have hy : toMap (layout littleEnv.hash) tbl y.key = some 4 := by decide
  have hport : x.portId = 3 := rfl
  clear_value x y
  have hssc : Ssc.sscRun littleEnv.hash .blank [.sscAddDynAddr true y]
      = .ok { Ssc.sscDbInit .blank with dynMacTblHead := tbl } := Ssc.sscRun_addDyn [y] (by simp)
  intro pi
  have hpi : toMap (layout littleEnv.hash) pi.dynMacTblHead
      = Function.update (Function.update (fun _ => none) x.key (some x.portId)) y.key (some 7) :=
    Pi.toMap_piRun_addDyn littleEnv.hash .blank [x, { y with portId := 7 }]
  have hpx : toMap (layout littleEnv.hash) pi.dynMacTblHead x.key = some 3 := by
    rw [hpi, Function.update_of_ne hkey, Function.update_self, hport]
  obtain ⟨sent, hsent, h⟩ := resync_merges littleEnv .blank _ _ hssc rfl .blank
    [.piAddLocalDyn true x, .piAddLocalDyn true { y with portId := 7 }]
  refine ⟨_, sent, hssc, hsent, fun sent' hperm => ?_⟩
  intro pi'
  have hmap : ∀ k, toMap (layout littleEnv.hash) pi'.dynMacTblHead k
      = (toMap (layout littleEnv.hash) tbl k).or
        (toMap (layout littleEnv.hash) pi.dynMacTblHead k) := (h sent' hperm).1
  refine ⟨?_, ?_, ?_, fun heq => ?_⟩
  · rw [hpi, Function.update_self]
  · rw [hmap, hy, Option.some_or]
  · rw [hmap, hx, hpx, Option.none_or]
  · exact (h sent' hperm).2.1 heq x.key (by rw [hpx]; exact Option.some_ne_none 3) hx

/-- An address PI still has from an earlier connection, and SSC has not. -/
theorem resync_keeps_stale :
    let x : PiMacEntry := ⟨#v[2, 0, 0, 0, 0, 1], 1, 10, 3, 0⟩
    let pi := Pi.piRun littleEnv.hash .blank [.piAddLocalDyn true x]
    let ssc := Ssc.sscDbInit .blank
    ∃ sent, Ssc.sscDsDataPi littleEnv .all ssc = .ok (ssc, sent)
      ∧ toMap (layout littleEnv.hash)
          (sent.foldl (fun pi m => Pi.dealReceMsg littleEnv.hash true m pi) pi).dynMacTblHead
        ≠ toMap (layout littleEnv.hash) ssc.dynMacTblHead := by
  intro x pi ssc
  have hpi := Pi.piRun_inv littleEnv.hash .blank [.piAddLocalDyn true x]
  have hs : WF (layout littleEnv.hash) ssc.dynMacTblHead := WF.empty
  refine ⟨_, Ssc.sscDsDataPi_ok rfl, ?_⟩
  rw [toMap_transfer hs hpi (fun m hm => carries_of_mem hm) fun y hy => Ssc.dsMsg_mem_dsSent hy]
  intro h
  have hat := congrFun h x.key
  revert hat
  decide

end Dynamic

/-! ## The static table -/

section Static

variable {env : Ssc.SscEnv} {ssc : Ssc.MacOpraClass} {pi : Pi.PiDbMacInfo}

/-- PI's static table has the keys of SSC's, each with a port whose physical id SSC stored, and its
counter is their number. -/
def StaticSynced (env : Ssc.SscEnv) (ssc : Ssc.MacOpraClass) (pi : Pi.PiDbMacInfo) : Prop :=
  keys (layout env.hash) pi.staticMacTblHead = keys (layout env.hash) ssc.staticMacTblHead
    ∧ (∀ x ∈ entries pi.staticMacTblHead, ∀ y ∈ entries ssc.staticMacTblHead, x.key = y.key →
      y.portId = env.ssCommIfxDbGetPhyid x.portId)
    ∧ pi.staticAddrCount = BitVec.ofNat 32 (entries ssc.staticMacTblHead).length

theorem toMap_statics : ∀ (ms : List (List U8)) (pi : Pi.PiDbMacInfo), Pi.PiInv env.hash pi →
    (∀ m ∈ ms, ∃ x, m = Ssc.dsMsg sscStatic x) →
    toMap (layout env.hash)
        (ms.foldl (fun pi m => Pi.dealReceMsg env.hash true m pi) pi).staticMacTblHead
      = if ms = [] then toMap (layout env.hash) pi.staticMacTblHead
        else Function.update (toMap (layout env.hash) pi.staticMacTblHead) PiMacEntry.zero.key
          (some 0)
  | [], _, _, _ => rfl
  | m :: ms, pi, h, hms => by
    obtain ⟨x, rfl⟩ := hms m (.head _)
    rw [List.foldl_cons, toMap_statics ms _ (Pi.dealReceMsg_inv h true _)
      fun m hm => hms m (.tail _ hm), if_neg (List.cons_ne_nil _ _), Pi.dealReceMsg_static,
      (Pi.insertHashTable_spec h.stat.wf .zero).2.1]
    split_ifs
    · rfl
    · rw [Function.update_idem]

theorem mem_keys_zero (h : Pi.PiInv env.hash pi)
    (hmap : toMap (layout env.hash) pi.staticMacTblHead
      = Function.update (fun _ => none) PiMacEntry.zero.key (some 0)) (k : Key) :
    k ∈ keys (layout env.hash) pi.staticMacTblHead ↔ k = PiMacEntry.zero.key := by
  rw [h.stat.wf.mem_keys, hmap]
  rcases eq_or_ne k PiMacEntry.zero.key with rfl | hk
  · simp
  · simp [hk]

/-- The one entry of zeros is what SSC holds exactly if every entry of SSC's is it. -/
theorem staticSynced_iff (h : Pi.PiInv env.hash pi) (hs : WF (layout env.hash) ssc.staticMacTblHead)
    (hne : entries ssc.staticMacTblHead ≠ [])
    (hmap : toMap (layout env.hash) pi.staticMacTblHead
      = Function.update (fun _ => none) PiMacEntry.zero.key (some 0)) :
    StaticSynced env ssc pi ↔ ∀ x ∈ entries ssc.staticMacTblHead,
      x.key = PiMacEntry.zero.key ∧ x.portId = env.ssCommIfxDbGetPhyid 0 := by
  have hk := mem_keys_zero h hmap
  obtain ⟨z, hz, hzk, hzp⟩ := h.stat.wf.toMap_eq_some.1
    (show toMap (layout env.hash) pi.staticMacTblHead PiMacEntry.zero.key = some 0 by
      rw [hmap, Function.update_self])
  constructor
  · rintro ⟨hkeys, hports, -⟩ x hx
    have hxk : x.key = PiMacEntry.zero.key := by
      rw [← hk, hkeys]
      exact ⟨x, hx, rfl⟩
    exact ⟨hxk, by rw [hports z hz x hx (hzk.trans hxk.symm), ← hzp]; rfl⟩
  · intro hall
    obtain ⟨y, hy⟩ := List.exists_mem_of_ne_nil _ hne
    have hone : (entries ssc.staticMacTblHead).length = 1 := by
      have := hs.length_le_one fun x hx => (hall x hx).1
      have := List.length_pos_of_ne_nil hne
      omega
    have hone' : (entries pi.staticMacTblHead).length = 1 := by
      have := h.stat.wf.length_le_one fun x hx => (hk _).1 ⟨x, hx, rfl⟩
      have := List.length_pos_of_mem hz
      omega
    refine ⟨?_, fun x hx y hy _ => ?_, by rw [h.stat.count_eq, hone', hone]⟩
    · ext k
      rw [hk]
      constructor
      · rintro rfl
        exact ⟨y, hy, (hall y hy).1⟩
      · rintro ⟨x, hx, rfl⟩
        exact (hall x hx).1
    · have hxk := (hk _).1 ⟨x, hx, rfl⟩
      obtain ⟨i, hi⟩ := mem_entries.1 hx
      have hxp := toMap_of_mem h.stat.wf hi
      rw [hmap, show x.key = PiMacEntry.zero.key from hxk, Function.update_self,
        Option.some.injEq] at hxp
      rw [(hall y hy).2, hxp]

/-- After a transfer of SSC's static table to a PI without static entries, in whatever order PI
processes the messages, the tables agree exactly when SSC held nothing but the entry of zeros. -/
theorem static_sync_iff (env : Ssc.SscEnv) (ssc₀ : Ssc.MacOpraClass) (sscOps : List Ssc.SscOp)
    (ssc : Ssc.MacOpraClass) (hssc : Ssc.sscRun env.hash ssc₀ sscOps = .ok ssc)
    (hm : ssc.mutex = false) (pi₀ : Pi.PiDbMacInfo) (piOps : List Pi.PiOp)
    (hempty : (Pi.piRun env.hash pi₀ piOps).staticMacTblHead = empty) :
    ∃ sent, Ssc.sscDsStaticInfo (fun _ => true) ssc = .ok (ssc, sent) ∧
      ∀ sent' : List (List U8), sent'.Perm sent →
      (StaticSynced env ssc (sent'.foldl (fun pi m => Pi.dealReceMsg env.hash true m pi)
          (Pi.piRun env.hash pi₀ piOps))
        ↔ ∀ x ∈ entries ssc.staticMacTblHead, x.mac = Vector.replicate macLen 0 ∧ x.vlanId = 0
          ∧ x.portId = env.ssCommIfxDbGetPhyid 0) := by
  have hs := (Ssc.sscRun_inv hssc).stat
  have hpi := Pi.piRun_inv env.hash pi₀ piOps
  refine ⟨_, Ssc.sscDsStaticInfo_all hm, fun sent' hperm => ?_⟩
  have hall : ∀ m ∈ sent', ∃ x, m = Ssc.dsMsg sscStatic x := fun m hm => by
    obtain ⟨x, -, rfl⟩ := List.mem_map.1 (hperm.mem_iff.1 hm)
    exact ⟨x, rfl⟩
  have hmap := toMap_statics sent' _ hpi hall
  have hstep : ∀ pi m, Pi.PiInv env.hash pi →
      Pi.PiInv env.hash (Pi.dealReceMsg env.hash true m pi) :=
    fun _ m h => Pi.dealReceMsg_inv h true m
  have hinv := Runs.foldl_invariant hstep sent' _ hpi
  rw [hempty, toMap_empty] at hmap
  by_cases hnil : entries ssc.staticMacTblHead = []
  · obtain rfl : sent' = [] := by
      rw [hnil] at hperm
      exact hperm.eq_nil
    simp only [hnil, List.not_mem_nil, false_imp_iff, implies_true, iff_true]
    refine ⟨?_, by simp [hnil], ?_⟩
    · rw [entries_eq_nil.1 hnil, List.foldl_nil, hempty]
    · rw [List.foldl_nil, hpi.stat.count_eq, hempty, hnil, entries_empty]
  · have hne : sent' ≠ [] := by
      rintro rfl
      exact hnil (List.map_eq_nil_iff.1 hperm.nil_eq.symm)
    rw [if_neg hne] at hmap
    rw [staticSynced_iff hinv hs hnil hmap]
    refine forall₂_congr fun x _ => ?_
    rw [PiMacEntry.key, PiMacEntry.key, Prod.mk.injEq, and_assoc]
    rfl

def oneStatic : Ssc.MacOpraClass :=
  { Ssc.sscDbInit .blank with
    staticMacTblHead := upsert (Ssc.sameKey #v[2, 0, 0, 0, 0, 1] 10) (setPort 3)
      ⟨#v[2, 0, 0, 0, 0, 1], 0, 10, 3, staticType⟩ (littleEnv.hash #v[2, 0, 0, 0, 0, 1] 10) empty }

theorem sscRun_oneStatic : Ssc.sscRun littleEnv.hash .blank
    [.sscLocalAddAddr true ⟨#v[2, 0, 0, 0, 0, 1], 10, 3⟩] = .ok oneStatic := by
  simp only [Ssc.sscRun, List.foldlM_cons, List.foldlM_nil, Ssc.SscOp.run]
  rw [Ssc.sscLocalAddAddr_ok rfl]
  rfl

theorem static_sync_iff_one :
    ∃ sent, Ssc.sscDsStaticInfo (fun _ => true) oneStatic = .ok (oneStatic, sent) ∧
      (StaticSynced littleEnv oneStatic (sent.foldl
          (fun pi m => Pi.dealReceMsg littleEnv.hash true m pi) (Pi.piRun littleEnv.hash .blank []))
        ↔ ∀ x ∈ entries oneStatic.staticMacTblHead, x.mac = Vector.replicate macLen 0
          ∧ x.vlanId = 0 ∧ x.portId = littleEnv.ssCommIfxDbGetPhyid 0) := by
  obtain ⟨sent, hsent, h⟩ := static_sync_iff littleEnv .blank _ oneStatic sscRun_oneStatic rfl
    .blank [] rfl
  exact ⟨sent, hsent, h sent (.refl _)⟩

/-- The one static address does not arrive. -/
theorem static_sync_zeroes :
    ∃ sent, Ssc.sscDsStaticInfo (fun _ => true) oneStatic = .ok (oneStatic, sent)
      ∧ ¬ StaticSynced littleEnv oneStatic (sent.foldl
        (fun pi m => Pi.dealReceMsg littleEnv.hash true m pi)
        (Pi.piRun littleEnv.hash .blank [])) := by
  have hs := (Ssc.sscRun_inv sscRun_oneStatic).stat
  have hpi := Pi.piRun_inv littleEnv.hash .blank []
  refine ⟨_, Ssc.sscDsStaticInfo_all rfl, ?_⟩
  rintro ⟨hkeys, -⟩
  have hall : ∀ m ∈ (entries oneStatic.staticMacTblHead).map (Ssc.dsMsg sscStatic),
      ∃ x, m = Ssc.dsMsg sscStatic x := fun m hm => by
    obtain ⟨x, -, rfl⟩ := List.mem_map.1 hm
    exact ⟨x, rfl⟩
  have hin : (#v[2, 0, 0, 0, 0, 1], 10) ∈ keys (layout littleEnv.hash) oneStatic.staticMacTblHead :=
    hs.mem_keys.2 (by decide)
  have hstep : ∀ pi m, Pi.PiInv littleEnv.hash pi →
      Pi.PiInv littleEnv.hash (Pi.dealReceMsg littleEnv.hash true m pi) :=
    fun _ m h => Pi.dealReceMsg_inv h true m
  rw [← hkeys, (Runs.foldl_invariant hstep _ _ hpi).stat.wf.mem_keys,
    toMap_statics _ _ hpi hall] at hin
  split_ifs at hin
  · exact hin rfl
  · revert hin
    decide

end Static

end RookieMac
