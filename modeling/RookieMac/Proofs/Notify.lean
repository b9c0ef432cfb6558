import RookieMac.Proofs.PiTable
import RookieMac.Proofs.SscTable
import RookieMac.System
import RookieMac.MacMap

/-!
# A notification at PI and at SSC

PI inserts under `memcmp` and deletes under `strncmp` and the port; SSC inserts under `strncmp` and
deletes under `memcmp`. A faithful notification does at both what it means. One that is not, met by
two tables that hold one map without clashes, leaves them different.
-/

namespace RookieMac

open CMem Chained

/-! ## PI -/

namespace Pi

def notifyDyn (hash : HashFn) (head : HashTbl) (e : PiMacEntry) : HashTbl :=
  if e.flags ≠ 0 then (insertHashTable hash e head).2 else (delHashEntry hash e head).2

variable {hash : HashFn} {head : HashTbl} {e : PiMacEntry}

theorem piDealNotifyMsg_dyn (receMsg : List U8) (db : PiDbMacInfo) :
    (piDealNotifyMsg hash true receMsg db).dynMacTblHead
      = notifyDyn hash db.dynMacTblHead (PiMacEntry.read (msgBody receMsg)) := by
  unfold piDealNotifyMsg notifyDyn
  simp only []
  split_ifs <;> rfl

theorem piDealNotifyMsg_msgInfo (ty : U32) (e : PiMacEntry) (db : PiDbMacInfo) :
    (piDealNotifyMsg hash true (msgInfo ty e.bytes) db).dynMacTblHead
      = notifyDyn hash db.dynMacTblHead e := by
  rw [piDealNotifyMsg_dyn, msgBody_msgInfo_self, PiMacEntry.read_bytes_self]

theorem sameEntryDel_iff {x : PiMacEntry} : sameEntryDel e x = true
    ↔ (cstr x.mac.toList = cstr e.mac.toList ∧ x.vlanId = e.vlanId) ∧ x.portId = e.portId := by
  simp only [sameEntryDel, decide_eq_true_eq, and_assoc]
  rw [strncmp_eq_zero_iff (by simp) (by simp)]

/-- In the chain of a key the deletion finds alike keys of one port. -/
theorem sameEntryDel_iff_alike (h : WF (layout hash) head) {x : PiMacEntry}
    (hx : x ∈ head (hash e.mac e.vlanId)) :
    sameEntryDel e x = true ↔ Alike hash x.key e.key ∧ x.portId = e.portId := by
  rw [sameEntryDel_iff]
  exact and_congr_left fun _ => (and_iff_right (hash_of_mem h hx)).symm

theorem notifyDyn_wf (h : WF (layout hash) head) : WF (layout hash) (notifyDyn hash head e) := by
  unfold notifyDyn
  split_ifs
  · exact (insertHashTable_spec h e).1
  · exact (delHashEntry_spec h e).1

theorem toMap_notifyDyn_add (h : WF (layout hash) head) (hflags : e.flags ≠ 0) :
    toMap (layout hash) (notifyDyn hash head e) = MacMap.notify (toMap (layout hash) head) e := by
  rw [notifyDyn, if_pos hflags, (insertHashTable_spec h e).2.1, MacMap.notify, if_pos hflags]

/-- A faithful notification does what it means. -/
theorem toMap_notifyDyn (h : WF (layout hash) head)
    (hc : MacMap.Faithful hash (toMap (layout hash) head) e) :
    toMap (layout hash) (notifyDyn hash head e) = MacMap.notify (toMap (layout hash) head) e := by
  by_cases hflags : e.flags ≠ 0
  · exact toMap_notifyDyn_add h hflags
  rw [notifyDyn, if_neg hflags, MacMap.notify, if_neg hflags]
  have hdel : ∀ k p, toMap (layout hash) head k = some p → Alike hash k e.key →
      (k = e.key ↔ p = e.portId) := fun k p hk ha => by
    have := hc k p hk ha
    rwa [if_neg hflags] at this
  obtain ⟨-, ⟨hn, -, heq⟩ | ⟨a, ha, hp, -, hmap, -⟩⟩ := delHashEntry_spec h e
  · rw [heq, eq_comm, Function.update_eq_self_iff]
    rw [eq_comm]
    by_contra hb
    obtain ⟨p, hp⟩ := Option.ne_none_iff_exists'.1 hb
    obtain ⟨x, hx, hxk, rfl⟩ := exists_of_toMap h hp
    have hport := (hdel _ _ hp (.refl _)).1 rfl
    have := (sameEntryDel_iff_alike h hx).2 ⟨hxk ▸ .refl _, hport⟩
    rw [hn x hx] at this
    cases this
  · obtain ⟨hal, hport⟩ := (sameEntryDel_iff_alike h ha).1 hp
    rw [hmap, (hdel _ _ (toMap_of_mem h ha) hal).2 hport]

end Pi

/-! ## SSC -/

namespace Ssc

def notifyDyn (hash : HashFn) (head : HashTbl) (e : PiMacEntry) : HashTbl :=
  let index := hash e.mac e.vlanId
  if e.flags ≠ 0 then upsert (sameKeyDyn e) (setPort e.portId) e index head
  else Function.update head index
    ((head index).filter fun assist => !sameKey e.mac e.vlanId assist)

variable {hash : HashFn} {head : HashTbl} {e : PiMacEntry} {env : SscEnv} {db : MacOpraClass}

theorem sscNotifyUpdate_ok (hm : db.mutex = false) (e : PiMacEntry) :
    sscNotifyUpdate env true e db
      = .ok { db with dynMacTblHead := notifyDyn env.hash db.dynMacTblHead e } := by
  unfold sscNotifyUpdate notifyDyn
  split_ifs
  · exact sscAddDynAddr_ok hm e
  · exact sscDelAgeEntry_ok hm e

theorem sscMacUpdateRecv_ok (hm : db.mutex = false) (payload : List U8) :
    sscMacUpdateRecv env (fun _ => true) payload db
      = .ok ({ db with
          dynMacTblHead := notifyDyn env.hash db.dynMacTblHead (notifyData env payload) },
        [msgInfo SscMacMsgid.macAddrNotify.val (notifyData env payload).bytes]) := by
  unfold sscMacUpdateRecv
  simp only []
  rw [sscNotifyUpdate_ok hm]
  rfl

/-- In the chain of a key the insertion finds alike keys. -/
theorem sameKeyDyn_iff_alike (h : WF (layout hash) head) {x : PiMacEntry}
    (hx : x ∈ head (hash e.mac e.vlanId)) :
    sameKeyDyn e x = true ↔ Alike hash x.key e.key := by
  rw [sameKeyDyn_iff]
  exact (and_iff_right (hash_of_mem h hx)).symm

theorem notifyDyn_wf (h : WF (layout hash) head) : WF (layout hash) (notifyDyn hash head e) := by
  unfold notifyDyn
  split_ifs
  · exact (sscAddDynAddr_spec h e).1
  · exact (sscDelAgeEntry_spec h e).1

theorem toMap_notifyDyn_del (h : WF (layout hash) head) (hflags : ¬ e.flags ≠ 0) :
    toMap (layout hash) (notifyDyn hash head e) = MacMap.notify (toMap (layout hash) head) e := by
  rw [notifyDyn, if_neg hflags, MacMap.notify, if_neg hflags]
  exact (sscDelAgeEntry_spec h e).2.1

theorem toMap_notifyDyn (h : WF (layout hash) head)
    (hc : MacMap.Faithful hash (toMap (layout hash) head) e) :
    toMap (layout hash) (notifyDyn hash head e) = MacMap.notify (toMap (layout hash) head) e := by
  by_cases hflags : e.flags ≠ 0
  · rw [notifyDyn, if_pos hflags, MacMap.notify, if_pos hflags]
    obtain ⟨-, ⟨-, hmap⟩ | ⟨a, ha, hp, hmap⟩⟩ := sscAddDynAddr_spec h e
    · exact hmap
    · have hk := hc _ _ (toMap_of_mem h ha) ((sameKeyDyn_iff_alike h ha).1 hp)
      rw [if_pos hflags] at hk
      rw [hmap, hk]
  · exact toMap_notifyDyn_del h hflags

end Ssc

/-! ## A notification that is not faithful -/

section Diverge

variable {hash : HashFn} {t u : HashTbl} {e : PiMacEntry}

/-- An address learnt where another bound key is taken for its own: PI binds it, SSC moves the
other key's port. -/
theorem notifyDyn_ne_add (ht : WF (layout hash) t) (hu : WF (layout hash) u)
    (hn : MacMap.NoClash hash (toMap (layout hash) u)) (hflags : e.flags ≠ 0) {k : Key} {p : U32}
    (hk : toMap (layout hash) u k = some p) (ha : Alike hash k e.key) (hne : k ≠ e.key) :
    toMap (layout hash) (Pi.notifyDyn hash t e) ≠ toMap (layout hash) (Ssc.notifyDyn hash u e) := by
  have bound : ∀ {k p}, toMap (layout hash) u k = some p → toMap (layout hash) u k ≠ none :=
    fun h => by simp [h]
  obtain ⟨x, hx, rfl, rfl⟩ := exists_of_toMap hu hk
  have hidx : hash x.key.1 x.key.2 = hash e.mac e.vlanId := ha.1
  rw [hidx] at hx
  have hpx := (Ssc.sameKeyDyn_iff_alike hu hx).2 ha
  intro heq
  have hat := congrFun heq e.key
  rw [Pi.toMap_notifyDyn_add ht hflags, MacMap.notify, Function.update_self, if_pos hflags,
    Ssc.notifyDyn, if_pos hflags] at hat
  obtain ⟨-, ⟨hno, -⟩ | ⟨a, hma, hpa, hmap⟩⟩ := Ssc.sscAddDynAddr_spec hu e
  · rw [hno x hx] at hpx
    cases hpx
  · have haa := (Ssc.sameKeyDyn_iff_alike hu hma).1 hpa
    have hax := hn _ _ (bound (toMap_of_mem hu hma)) (bound hk) (haa.trans ha.symm)
    rw [hmap, Function.update_of_ne (hax ▸ hne.symm)] at hat
    exact hne (hn _ _ (bound hk) (bound hat.symm) ha)

/-- An address forgotten where the port and the key pick different entries: PI goes by the port,
SSC by the key. -/
theorem notifyDyn_ne_del (ht : WF (layout hash) t) (hu : WF (layout hash) u)
    (he : toMap (layout hash) t = toMap (layout hash) u)
    (hn : MacMap.NoClash hash (toMap (layout hash) u)) (hflags : ¬ e.flags ≠ 0) {k : Key} {p : U32}
    (hk : toMap (layout hash) u k = some p) (ha : Alike hash k e.key)
    (hne : ¬ (k = e.key ↔ p = e.portId)) :
    toMap (layout hash) (Pi.notifyDyn hash t e) ≠ toMap (layout hash) (Ssc.notifyDyn hash u e) := by
  have hkt : toMap (layout hash) t k = some p := by rw [he, hk]
  -- what PI unlinks, if anything, is the entry of `k`, for its port
  have only : ∀ a ∈ t (hash e.mac e.vlanId), Pi.sameEntryDel e a = true →
      a.key = k ∧ p = e.portId := by
    intro a hma hpa
    obtain ⟨haa, hport⟩ := (Pi.sameEntryDel_iff_alike ht hma).1 hpa
    have hat := toMap_of_mem ht hma
    have hak : a.key = k := hn _ _ (by rw [← he, hat]; exact Option.some_ne_none _)
      (by rw [hk]; exact Option.some_ne_none _) (haa.trans ha.symm)
    rw [hak, hkt, Option.some.injEq] at hat
    exact ⟨hak, hat.trans hport⟩
  obtain ⟨x, hx, hxk, hxp⟩ := exists_of_toMap ht hkt
  have hidx : hash k.1 k.2 = hash e.mac e.vlanId := ha.1
  rw [hidx] at hx
  intro heq
  have hat := congrFun heq k
  rw [Ssc.toMap_notifyDyn_del hu hflags, MacMap.notify, if_neg hflags, Pi.notifyDyn,
    if_neg hflags] at hat
  obtain ⟨-, ⟨hno, -, hsame⟩ | ⟨a, hma, hpa, -, hmap, -⟩⟩ := Pi.delHashEntry_spec ht e
  · have hport : p ≠ e.portId := by
      intro hport
      have := (Pi.sameEntryDel_iff_alike ht hx).2 ⟨hxk ▸ ha, hxp.trans hport⟩
      rw [hno x hx] at this
      cases this
    have hke : k = e.key := by
      by_contra hke
      exact hne (iff_of_false hke hport)
    rw [hsame, hkt, hke, Function.update_self] at hat
    cases hat
  · obtain ⟨hak, hport⟩ := only a hma hpa
    have hke : k ≠ e.key := fun hke => hne (iff_of_true hke hport)
    rw [hmap, hak, Function.update_self, Function.update_of_ne hke, hk] at hat
    cases hat

theorem notifyDyn_ne (ht : WF (layout hash) t) (hu : WF (layout hash) u)
    (he : toMap (layout hash) t = toMap (layout hash) u)
    (hn : MacMap.NoClash hash (toMap (layout hash) u))
    (hc : ¬ MacMap.Faithful hash (toMap (layout hash) u) e) :
    toMap (layout hash) (Pi.notifyDyn hash t e) ≠ toMap (layout hash) (Ssc.notifyDyn hash u e) := by
  simp only [MacMap.Faithful, not_forall] at hc
  obtain ⟨k, p, hk, ha, hne⟩ := hc
  by_cases hflags : e.flags ≠ 0
  · rw [if_pos hflags] at hne
    exact notifyDyn_ne_add ht hu hn hflags hk ha hne
  · rw [if_neg hflags] at hne
    exact notifyDyn_ne_del ht hu he hn hflags hk ha hne

end Diverge

/-! ## Both programs, notification after notification -/

section Run

/-- SSC has not stopped, and the dynamic tables hold the same triples. -/
def SameDyn (s : Both) : Prop :=
  ∃ pi ssc, s = .ok (pi, ssc) ∧ triples pi.dynMacTblHead = triples ssc.dynMacTblHead

/-- The two dynamic tables are one map, without clashes. -/
structure Lockstep (hash : HashFn) (pi : Pi.PiDbMacInfo) (ssc : Ssc.MacOpraClass) : Prop where
  mutex : ssc.mutex = false
  piWf : WF (layout hash) pi.dynMacTblHead
  sscWf : WF (layout hash) ssc.dynMacTblHead
  toMap_eq : toMap (layout hash) pi.dynMacTblHead = toMap (layout hash) ssc.dynMacTblHead
  noClash : MacMap.NoClash hash (toMap (layout hash) ssc.dynMacTblHead)

def InLockstep (hash : HashFn) (s : Both) : Prop :=
  ∃ pi ssc, s = .ok (pi, ssc) ∧ Lockstep hash pi ssc

def sscMap (hash : HashFn) : Both → MacMap
  | .ok (_, ssc) => toMap (layout hash) ssc.dynMacTblHead
  | .error _ => fun _ => none

def FaithfulAt (env : Ssc.SscEnv) (s : Both) (payload : List U8) : Prop :=
  MacMap.Faithful env.hash (sscMap env.hash s) (Ssc.notifyData env payload)

variable {env : Ssc.SscEnv}

theorem notifyStep_ok {pi : Pi.PiDbMacInfo} {ssc : Ssc.MacOpraClass} (hm : ssc.mutex = false)
    (payload : List U8) : notifyStep env (.ok (pi, ssc)) payload
      = .ok (Pi.piDealNotifyMsg env.hash true (msgInfo SscMacMsgid.macAddrNotify.val
          (Ssc.notifyData env payload).bytes) pi,
        { ssc with dynMacTblHead :=
            Ssc.notifyDyn env.hash ssc.dynMacTblHead (Ssc.notifyData env payload) }) := by
  unfold notifyStep
  simp only [bind, Except.bind]
  rw [Ssc.sscMacUpdateRecv_ok hm]
  rfl

variable {pi : Pi.PiDbMacInfo} {ssc : Ssc.MacOpraClass}

theorem Lockstep.step (h : Lockstep env.hash pi ssc) {payload : List U8}
    (hc : MacMap.Faithful env.hash (toMap (layout env.hash) ssc.dynMacTblHead)
      (Ssc.notifyData env payload)) :
    ∃ pi' ssc', notifyStep env (.ok (pi, ssc)) payload = .ok (pi', ssc')
      ∧ Lockstep env.hash pi' ssc'
      ∧ toMap (layout env.hash) ssc'.dynMacTblHead
        = MacMap.notify (toMap (layout env.hash) ssc.dynMacTblHead) (Ssc.notifyData env payload) := by
  have hpi := Pi.toMap_notifyDyn h.piWf (h.toMap_eq ▸ hc)
  have hssc := Ssc.toMap_notifyDyn h.sscWf hc
  refine ⟨_, _, notifyStep_ok h.mutex payload, ⟨h.mutex, ?_, Ssc.notifyDyn_wf h.sscWf, ?_, ?_⟩,
    hssc⟩
  · rw [Pi.piDealNotifyMsg_msgInfo]
    exact Pi.notifyDyn_wf h.piWf
  · rw [Pi.piDealNotifyMsg_msgInfo, hpi, hssc, h.toMap_eq]
  · rw [hssc]
    exact h.noClash.notify hc

theorem Lockstep.diverge (h : Lockstep env.hash pi ssc) {payload : List U8}
    (hc : ¬ MacMap.Faithful env.hash (toMap (layout env.hash) ssc.dynMacTblHead)
      (Ssc.notifyData env payload)) : ¬ SameDyn (notifyStep env (.ok (pi, ssc)) payload) := by
  rw [notifyStep_ok h.mutex]
  rintro ⟨pi', ssc', heq, hsame⟩
  obtain ⟨rfl, rfl⟩ := Prod.mk.inj (Except.ok.inj heq)
  simp only [Pi.piDealNotifyMsg_msgInfo] at hsame
  rw [triples_eq_iff (Pi.notifyDyn_wf h.piWf) (Ssc.notifyDyn_wf h.sscWf)] at hsame
  exact notifyDyn_ne h.piWf h.sscWf h.toMap_eq h.noClash hc hsame

/-- From empty dynamic tables, PI and SSC hold the same triples after every notification exactly
when every notification is faithful to the map the ones before it mean. -/
theorem dynamic_tables_agree_iff (env : Ssc.SscEnv) (pi₀ : Pi.PiDbMacInfo)
    (ssc₀ : Ssc.MacOpraClass) (payloads : List (List U8)) :
    Runs.Always (notifyStep env) SameDyn
        (.ok ({ pi₀ with dynMacTblHead := empty },
          { ssc₀ with dynMacTblHead := empty, mutex := false })) payloads
      ↔ MacMap.FaithfulRun env.hash (fun _ => none) (payloads.map (Ssc.notifyData env)) := by
  have hgood : ∀ s payload, InLockstep env.hash s → FaithfulAt env s payload →
      InLockstep env.hash (notifyStep env s payload)
        ∧ sscMap env.hash (notifyStep env s payload)
          = MacMap.notify (sscMap env.hash s) (Ssc.notifyData env payload) := by
    rintro _ payload ⟨pi, ssc, rfl, h⟩ hc
    obtain ⟨pi', ssc', hs, h', hmap⟩ := h.step hc
    rw [hs]
    exact ⟨⟨pi', ssc', rfl, h'⟩, hmap⟩
  have hsame : ∀ s, InLockstep env.hash s → SameDyn s := by
    rintro _ ⟨pi, ssc, rfl, h⟩
    exact ⟨pi, ssc, rfl, (triples_eq_iff h.piWf h.sscWf).2 h.toMap_eq⟩
  have hbad : ∀ s payload, InLockstep env.hash s → ¬ FaithfulAt env s payload →
      ¬ SameDyn (notifyStep env s payload) := by
    rintro _ payload ⟨pi, ssc, rfl, h⟩ hc
    exact h.diverge hc
  have h₀ : InLockstep env.hash (.ok ({ pi₀ with dynMacTblHead := empty },
      { ssc₀ with dynMacTblHead := empty, mutex := false })) :=
    ⟨_, _, rfl, rfl, WF.empty, WF.empty, rfl, by rw [toMap_empty]; exact MacMap.NoClash.none⟩
  rw [Runs.always_iff_image MacMap.notify (MacMap.Faithful env.hash) (sscMap env.hash)
    (Ssc.notifyData env) hsame hgood hbad _ h₀, sscMap, toMap_empty, MacMap.FaithfulRun]

theorem notifyData_ssdNotify (e : PiMacEntry) : Ssc.notifyData littleEnv (ssdNotify e) = e := by
  simp [Ssc.notifyData, ssdNotify, littleEnv]

/-- Two addresses learnt on VLAN 10 whose first byte is zero and which differ in the last one: SSC
keeps the first only. -/
theorem dynamic_tables_diverge :
    ¬ Runs.Always (notifyStep littleEnv) SameDyn (.ok (.blank, .blank))
      [ssdNotify ⟨#v[0x00, 0x11, 0x22, 0x33, 0x44, 0x55], 1, 10, 1, 0⟩,
        ssdNotify ⟨#v[0x00, 0x11, 0x22, 0x33, 0x44, 0x66], 1, 10, 2, 0⟩] := by
  intro h
  obtain ⟨pi, ssc, hs, hsame⟩ := h _ (List.prefix_refl _)
  rw [List.foldl_cons, List.foldl_cons, List.foldl_nil, notifyStep_ok rfl, notifyStep_ok rfl,
    notifyData_ssdNotify, notifyData_ssdNotify] at hs
  obtain ⟨rfl, rfl⟩ := Prod.mk.inj (Except.ok.inj hs)
  have hpi : WF (layout littleEnv.hash) Pi.PiDbMacInfo.blank.dynMacTblHead := WF.empty
  have hssc : WF (layout littleEnv.hash) Ssc.MacOpraClass.blank.dynMacTblHead := WF.empty
  simp only [Pi.piDealNotifyMsg_msgInfo] at hsame
  rw [triples_eq_iff (Pi.notifyDyn_wf (Pi.notifyDyn_wf hpi))
    (Ssc.notifyDyn_wf (Ssc.notifyDyn_wf hssc))] at hsame
  have hat := congrFun hsame (#v[0x00, 0x11, 0x22, 0x33, 0x44, 0x66], 10)
  rw [Pi.toMap_notifyDyn_add (Pi.notifyDyn_wf hpi) (by decide)] at hat
  revert hat
  decide

end Run

end RookieMac
