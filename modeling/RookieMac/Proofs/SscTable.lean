import RookieMac.System
import RookieMac.Lib.Runs

/-!
# SSC's tables are finite maps

The insertion into the dynamic table looks for its key with `strncmp`, which also finds other keys,
but whatever it finds keeps its own mac and vlan: only the port is written. So no function of SSC's
database breaks the placement of the entries or repeats a key, and what is sent of a table names
each key once.
-/

namespace RookieMac.Ssc

open CMem Chained

structure SscInv (hash : HashFn) (db : MacOpraClass) : Prop where
  stat : WF (layout hash) db.staticMacTblHead
  dyn : WF (layout hash) db.dynMacTblHead

/-! ## What the functions do to the maps -/

section Spec

variable {hash : HashFn} {head : HashTbl}

/-- A dynamic insertion overwrites the port of the entry it finds, whose key need not be its own. -/
theorem sscAddDynAddr_spec (h : WF (layout hash) head) (entry : PiMacEntry) :
    let head' := upsert (sameKeyDyn entry) (setPort entry.portId) entry
      (hash entry.mac entry.vlanId) head
    WF (layout hash) head'
      ∧ (((∀ x ∈ head (hash entry.mac entry.vlanId), sameKeyDyn entry x = false)
          ∧ toMap (layout hash) head'
            = Function.update (toMap (layout hash) head) entry.key (some entry.portId))
        ∨ ∃ a ∈ head (hash entry.mac entry.vlanId), sameKeyDyn entry a = true
          ∧ toMap (layout hash) head'
            = Function.update (toMap (layout hash) head) a.key (some entry.portId)) := by
  have hi : (layout hash).idx ((layout hash).key entry) = hash entry.mac entry.vlanId := rfl
  have hp : ∀ x ∈ head (hash entry.mac entry.vlanId), (layout hash).key x = (layout hash).key entry →
      sameKeyDyn entry x = true := by
    intro x _ hk
    obtain ⟨hmac, hvlan⟩ := Prod.mk.inj hk
    exact sameKeyDyn_iff.2 ⟨by rw [hmac], hvlan⟩
  have hf : ∀ x, (layout hash).key (setPort entry.portId x) = (layout hash).key x := fun x => rfl
  obtain ⟨hwf, ⟨-, hn, hmap, -⟩ | ⟨a, ha, -, hpa, hmap, -⟩⟩ := h.upsert_cases hi hp hf
  · exact ⟨hwf, .inl ⟨hn, hmap⟩⟩
  · exact ⟨hwf, .inr ⟨a, ha, hpa, hmap⟩⟩

theorem sscLocalAddAddr_spec (h : WF (layout hash) head) (entry : BaseStaticMac) :
    let head' := upsert (sameKey entry.mac entry.vlanId) (setPort entry.portId)
      ⟨entry.mac, 0, entry.vlanId, entry.portId, staticType⟩ (hash entry.mac entry.vlanId) head
    WF (layout hash) head'
      ∧ toMap (layout hash) head'
        = Function.update (toMap (layout hash) head) (entry.mac, entry.vlanId)
          (some entry.portId) := by
  set e : PiMacEntry := ⟨entry.mac, 0, entry.vlanId, entry.portId, staticType⟩
  have hi : (layout hash).idx ((layout hash).key e) = hash entry.mac entry.vlanId := rfl
  have hp : ∀ x ∈ head (hash entry.mac entry.vlanId), (layout hash).key x = (layout hash).key e →
      sameKey entry.mac entry.vlanId x = true := fun x _ hk => sameKey_iff.2 hk
  have hf : ∀ x, (layout hash).key (setPort entry.portId x) = (layout hash).key x := fun x => rfl
  obtain ⟨hwf, ⟨-, -, hmap, -⟩ | ⟨a, -, -, ha, hmap, -⟩⟩ := h.upsert_cases hi hp hf
  · exact ⟨hwf, hmap⟩
  · refine ⟨hwf, hmap.trans ?_⟩
    exact congrArg (fun k => Function.update _ k (some entry.portId)) (sameKey_iff.1 ha)

theorem sscDelAgeEntry_spec (h : WF (layout hash) head) (entry : PiMacEntry) :
    let head' := Function.update head (hash entry.mac entry.vlanId)
      ((head (hash entry.mac entry.vlanId)).filter fun assist =>
        !sameKey entry.mac entry.vlanId assist)
    WF (layout hash) head'
      ∧ toMap (layout hash) head' = Function.update (toMap (layout hash) head) entry.key none
      ∧ (entries head).length ≤ (entries head').length + 1 :=
  h.filterKey (fun _ => sameKey_iff) rfl

end Spec

/-! ## Every reachable database -/

section Reachable

/-- The functions that change SSC's tables, with any argument and any outcome of an allocation. -/
inductive SscOp
  | sscAddDynAddr (mem : Bool) (entry : PiMacEntry)
  | sscLocalAddAddr (mem : Bool) (entry : BaseStaticMac)
  | sscDelAgeEntry (entry : PiMacEntry)
  | sscDelDynAddr
  | sscDelVlanAddr (vlan : U32)
  | sscDelIntAddr (phyId : U32)

def SscOp.run (hash : HashFn) (db : MacOpraClass) : SscOp → Except Fault MacOpraClass
  | .sscAddDynAddr mem entry => Ssc.sscAddDynAddr hash mem entry db
  | .sscLocalAddAddr mem entry => Ssc.sscLocalAddAddr hash mem entry db
  | .sscDelAgeEntry entry => Ssc.sscDelAgeEntry hash entry db
  | .sscDelDynAddr => Ssc.sscDelDynAddr db
  | .sscDelVlanAddr vlan => Ssc.sscDelVlanAddr vlan db
  | .sscDelIntAddr phyId => Ssc.sscDelIntAddr phyId db

/-- The database after `ssc_db_init` and the calls `ops`, if none of them blocks for ever. -/
def sscRun (hash : HashFn) (db : MacOpraClass) (ops : List SscOp) : Except Fault MacOpraClass :=
  ops.foldlM (SscOp.run hash) (sscDbInit db)

variable {hash : HashFn} {db db' : MacOpraClass}

theorem SscOp.run_held (hm : db.mutex = true) (op : SscOp) : op.run hash db = .error .deadlock := by
  cases op <;>
    simp [SscOp.run, Ssc.sscAddDynAddr, Ssc.sscLocalAddAddr, Ssc.sscDelAgeEntry, Ssc.sscDelDynAddr,
      Ssc.sscDelVlanAddr, Ssc.sscDelIntAddr, delFromDyn, lock_held hm, bind, Except.bind]

theorem delFromDyn_inv (h : SscInv hash db) {p : PiMacEntry → Bool}
    (hr : delFromDyn p db = .ok db') : SscInv hash db' := by
  obtain ⟨-, rfl⟩ := delFromDyn_eq hr
  exact ⟨h.stat, h.dyn.filter _⟩

theorem SscOp.run_inv (op : SscOp) (h : SscInv hash db) (hr : op.run hash db = .ok db') :
    SscInv hash db' := by
  cases op with
  | sscAddDynAddr mem entry =>
    obtain ⟨-, rfl | rfl⟩ := sscAddDynAddr_cases hr
    · exact h
    · exact ⟨h.stat, (sscAddDynAddr_spec h.dyn entry).1⟩
  | sscLocalAddAddr mem entry =>
    obtain ⟨-, ⟨-, rfl⟩ | ⟨rfl, -⟩⟩ := sscLocalAddAddr_cases hr
    · exact ⟨h.stat, h.dyn⟩
    · exact ⟨(sscLocalAddAddr_spec h.stat entry).1, h.dyn⟩
  | sscDelAgeEntry entry =>
    obtain ⟨-, rfl⟩ := sscDelAgeEntry_eq hr
    exact ⟨h.stat, (sscDelAgeEntry_spec h.dyn entry).1⟩
  | sscDelDynAddr => exact delFromDyn_inv h hr
  | sscDelVlanAddr vlan => exact delFromDyn_inv h hr
  | sscDelIntAddr phyId => exact delFromDyn_inv h hr

/-- What an operation does to the dynamic table: nothing, the insertion of an entry, or the removal
of some of each chain. -/
theorem SscOp.run_dyn (op : SscOp) (hr : op.run hash db = .ok db') :
    db'.dynMacTblHead = db.dynMacTblHead
      ∨ (∃ e : PiMacEntry, db'.dynMacTblHead = upsert (sameKeyDyn e) (setPort e.portId) e
        (hash e.mac e.vlanId) db.dynMacTblHead)
      ∨ ∃ q : Fin hashSize → PiMacEntry → Bool,
        db'.dynMacTblHead = fun i => (db.dynMacTblHead i).filter (q i) := by
  have del : ∀ p, delFromDyn p db = .ok db' → ∃ q : Fin hashSize → PiMacEntry → Bool,
      db'.dynMacTblHead = fun i => (db.dynMacTblHead i).filter (q i) := by
    intro p hr
    obtain ⟨-, rfl⟩ := delFromDyn_eq hr
    exact ⟨fun _ x => !p x, rfl⟩
  cases op with
  | sscAddDynAddr mem e =>
    obtain ⟨-, rfl | rfl⟩ := sscAddDynAddr_cases hr
    · exact .inl rfl
    · exact .inr (.inl ⟨e, rfl⟩)
  | sscLocalAddAddr mem e =>
    obtain ⟨-, ⟨-, rfl⟩ | ⟨rfl, -⟩⟩ := sscLocalAddAddr_cases hr
    · exact .inl rfl
    · exact .inl rfl
  | sscDelAgeEntry e =>
    obtain ⟨-, rfl⟩ := sscDelAgeEntry_eq hr
    refine .inr (.inr ⟨fun i x => i ≠ hash e.mac e.vlanId ∨ !sameKey e.mac e.vlanId x, ?_⟩)
    funext i
    rcases eq_or_ne i (hash e.mac e.vlanId) with rfl | hi
    · simp
    · simp [hi]
  | sscDelDynAddr => exact .inr (.inr (del _ hr))
  | sscDelVlanAddr vlan => exact .inr (.inr (del _ hr))
  | sscDelIntAddr phyId => exact .inr (.inr (del _ hr))

theorem sscRun_inv {ops : List SscOp} (hr : sscRun hash db ops = .ok db') : SscInv hash db' :=
  Runs.foldlM_invariant (fun _ op _ h hr => SscOp.run_inv op h hr) ops _ db'
    ⟨WF.empty, WF.empty⟩ hr

/-! ## What is sent of a table -/

def dsEntry (m : List U8) : PiMacEntry := PiMacEntry.read ((msgBody m).drop 4)

@[simp] theorem dsEntry_msgInfo (ty type : U32) (x : PiMacEntry) :
    dsEntry (msgInfo ty (dsInfo type x.bytes)) = x := by
  rw [dsEntry, msgBody_msgInfo_self, dsInfo, List.drop_left' (length_toBytes type),
    PiMacEntry.read_bytes_self]

theorem dsEntries_sublist (mem : ℕ → Bool) (type : U32) (head : HashTbl) :
    List.Sublist ((dsEntries mem type head).map dsEntry) (entries head) := by
  have go : ∀ (l : List PiMacEntry) (n : ℕ), List.Sublist
      (((l.zipIdx n).filterMap fun q =>
        sscSendMsgPi (mem (q.2 + 1)) .macUpIng (dsInfo type q.1.bytes)).map dsEntry) l := by
    intro l
    induction l with
    | nil => exact fun _ => .slnil
    | cons x l ih =>
      intro n
      rw [List.zipIdx_cons, List.filterMap_cons]
      cases mem (n + 1)
      · simp only [sscSendMsgPi, Bool.false_eq_true, ↓reduceIte]
        exact (ih (n + 1)).cons x
      · simp only [sscSendMsgPi, ↓reduceIte, List.map_cons, dsEntry_msgInfo]
        exact (ih (n + 1)).cons_cons x
  exact go _ 0

theorem dsEntries_nodup {head : HashTbl} (h : WF (layout hash) head) (mem : ℕ → Bool)
    (type : U32) : ((dsEntries mem type head).map fun m => (dsEntry m).key).Nodup := by
  have hs := (dsEntries_sublist mem type head).map PiMacEntry.key
  rw [List.map_map] at hs
  exact h.nodup_entries.sublist hs

/-- A function that sends returns the database as it is. -/
theorem send_eq {mem : ℕ → Bool} {f : MacOpraClass → List (List U8)} {sent : List (List U8)}
    (hr : (if mem 0 then do
        let db ← pthreadMutexLock db
        return (pthreadMutexUnlock db, f db)
      else return (db, []) : Except Fault _) = .ok (db', sent)) :
    db' = db ∧ (sent = [] ∨ sent = f { db with mutex := true }) := by
  split_ifs at hr
  · obtain ⟨hm, hbody⟩ := lock_bind hr
    obtain ⟨rfl, rfl⟩ := Prod.mk.inj (Except.ok.inj hbody)
    exact ⟨unlock_lock hm, .inr rfl⟩
  · obtain ⟨rfl, rfl⟩ := Prod.mk.inj (Except.ok.inj hr)
    exact ⟨rfl, .inl rfl⟩

theorem sscDsStaticInfo_ok (hm : db.mutex = false) {mem : ℕ → Bool} (h0 : mem 0 = true) :
    sscDsStaticInfo mem db = .ok (db, dsEntries mem sscStatic db.staticMacTblHead) := by
  unfold sscDsStaticInfo
  rw [h0, if_pos rfl, lock_free hm]
  simp only [bind, Except.bind, pure, Except.pure, unlock_lock hm]

theorem sscDsStaticInfo_nodup (h : SscInv hash db) {mem : ℕ → Bool} {sent : List (List U8)}
    (hr : sscDsStaticInfo mem db = .ok (db', sent)) :
    (sent.map fun m => (dsEntry m).key).Nodup := by
  obtain ⟨-, hsent | hsent⟩ := send_eq hr <;> rw [hsent]
  · exact List.nodup_nil
  · exact dsEntries_nodup h.stat mem sscStatic

theorem sscDsDynInfo_ok (hm : db.mutex = false) {mem : ℕ → Bool} (h0 : mem 0 = true) :
    sscDsDynInfo mem db = .ok (db, dsEntries mem sscDyn db.dynMacTblHead) := by
  unfold sscDsDynInfo
  rw [h0, if_pos rfl, lock_free hm]
  simp only [bind, Except.bind, pure, Except.pure, unlock_lock hm]

theorem sscDsDynInfo_nodup (h : SscInv hash db) {mem : ℕ → Bool} {sent : List (List U8)}
    (hr : sscDsDynInfo mem db = .ok (db', sent)) :
    (sent.map fun m => (dsEntry m).key).Nodup := by
  obtain ⟨-, hsent | hsent⟩ := send_eq hr <;> rw [hsent]
  · exact List.nodup_nil
  · exact dsEntries_nodup h.dyn mem sscDyn

theorem sscDelAgeEntry_length (h : SscInv hash db) {entry : PiMacEntry}
    (hr : sscDelAgeEntry hash entry db = .ok db') :
    (entries db.dynMacTblHead).length ≤ (entries db'.dynMacTblHead).length + 1 := by
  obtain ⟨-, rfl⟩ := sscDelAgeEntry_eq hr
  exact (sscDelAgeEntry_spec h.dyn entry).2.2

/-- What learning an address makes of the chain it belongs to. -/
def learnChain (chain : List PiMacEntry) (x : PiMacEntry) : List PiMacEntry :=
  (modifyFirst (sameKeyDyn x) (setPort x.portId) chain).getD (x :: chain)

theorem foldlM_addDyn {hash : HashFn} {i : Fin hashSize} {db : MacOpraClass}
    (hm : db.mutex = false) : ∀ (xs chain : List PiMacEntry),
    (∀ x ∈ xs, hash x.mac x.vlanId = i) →
    (xs.map (.sscAddDynAddr true)).foldlM (SscOp.run hash)
        { db with dynMacTblHead := Function.update empty i chain }
      = .ok { db with dynMacTblHead := Function.update empty i (xs.foldl learnChain chain) }
  | [], _, _ => rfl
  | x :: xs, chain, hi => by
    have hadd : sscAddDynAddr hash true x { db with dynMacTblHead := Function.update empty i chain }
        = .ok { db with dynMacTblHead := Function.update empty i (learnChain chain x) } := by
      have hm' : { db with dynMacTblHead := Function.update empty i chain }.mutex = false := hm
      rw [sscAddDynAddr_ok hm', hi x (.head _)]
      simp only [upsert, Function.update_self, Function.update_idem, learnChain]
    rw [List.map_cons, List.foldlM_cons, SscOp.run, hadd, List.foldl_cons]
    exact foldlM_addDyn hm xs _ fun x hx => hi x (.tail _ hx)

/-- Addresses of one bucket learnt from the start. -/
theorem sscRun_addDyn {hash : HashFn} {i : Fin hashSize} (xs : List PiMacEntry)
    (hi : ∀ x ∈ xs, hash x.mac x.vlanId = i) :
    sscRun hash .blank (xs.map (.sscAddDynAddr true))
      = .ok { sscDbInit .blank with
          dynMacTblHead := Function.update empty i (xs.foldl learnChain []) } := by
  have hrun := foldlM_addDyn (i := i) (show (sscDbInit .blank).mutex = false from rfl) xs [] hi
  rwa [show Function.update empty i [] = (empty : HashTbl) from Function.update_eq_self ..] at hrun

/-- In every reachable database each entry is in the bucket of its key and no two entries of a table
have one key; so ageing removes at most one entry, and a transfer of a table names each key at most
once. -/
theorem ssc_database_invariant (hash : HashFn) (db₀ : MacOpraClass) (ops : List SscOp)
    (db : MacOpraClass) (hr : sscRun hash db₀ ops = .ok db) :
    (∀ i, ∀ x ∈ db.staticMacTblHead i, hash x.mac x.vlanId = i)
      ∧ (∀ i, ∀ x ∈ db.dynMacTblHead i, hash x.mac x.vlanId = i)
      ∧ ((entries db.staticMacTblHead).map PiMacEntry.key).Nodup
      ∧ ((entries db.dynMacTblHead).map PiMacEntry.key).Nodup
      ∧ (∀ entry db', sscDelAgeEntry hash entry db = .ok db' →
        (entries db.dynMacTblHead).length ≤ (entries db'.dynMacTblHead).length + 1)
      ∧ (∀ mem db' sent, sscDsStaticInfo mem db = .ok (db', sent) →
        (sent.map fun m => (dsEntry m).key).Nodup)
      ∧ (∀ mem db' sent, sscDsDynInfo mem db = .ok (db', sent) →
        (sent.map fun m => (dsEntry m).key).Nodup) := by
  have h := sscRun_inv hr
  exact ⟨h.stat.placed, h.dyn.placed, h.stat.nodup_entries, h.dyn.nodup_entries,
    fun _ _ hr => sscDelAgeEntry_length h hr, fun _ _ _ hr => sscDsStaticInfo_nodup h hr,
    fun _ _ _ hr => sscDsDynInfo_nodup h hr⟩

/-- Two addresses learnt in one bucket, the first of them once more at another port, and then aged
out. -/
theorem ssc_database_invariant_moved :
    let hash := hashFunction .little 0
    let x : PiMacEntry := ⟨#v[2, 0x11, 0x22, 0x33, 0x44, 0x55], 1, 10, 3, 0⟩
    let x' := { x with portId := 5 }
    let y : PiMacEntry := ⟨#v[2, 0x11, 0x22, 0x33, 0x44, 0x66], 1, 10, 4, 0⟩
    let index := hash x.mac x.vlanId
    let db := { sscDbInit .blank with dynMacTblHead := Function.update empty index [y, x'] }
    let aged := { db with dynMacTblHead := Function.update empty index [y] }
    sscRun hash .blank [.sscAddDynAddr true x, .sscAddDynAddr true y, .sscAddDynAddr true x']
        = .ok db
      ∧ (∀ i, ∀ z ∈ db.dynMacTblHead i, hash z.mac z.vlanId = i)
      ∧ ((entries db.dynMacTblHead).map PiMacEntry.key).Nodup
      ∧ (entries db.dynMacTblHead).length ≤ (entries aged.dynMacTblHead).length + 1
      ∧ ((dsEntries (fun _ => true) sscDyn db.dynMacTblHead).map fun m => (dsEntry m).key).Nodup := by
  intro hash x x' y
  have hi : ∀ z ∈ [x, y, x'], hash z.mac z.vlanId = hash x.mac x.vlanId := by decide
  have hchain : [x, y, x'].foldl learnChain [] = [y, x'] := by decide
  have hfilter : [y, x'].filter (fun z => !sameKey x.mac x.vlanId z) = [y] := by decide
  clear_value hash x x' y
  intro index db aged
  have hrun : sscRun hash .blank
      [.sscAddDynAddr true x, .sscAddDynAddr true y, .sscAddDynAddr true x'] = .ok db := by
    have h := sscRun_addDyn [x, y, x'] hi
    rwa [hchain] at h
  have hdel : sscDelAgeEntry hash x db = .ok aged := by
    have h : sscDelAgeEntry hash x db = _ := sscDelAgeEntry_ok rfl x
    rwa [show db.dynMacTblHead (hash x.mac x.vlanId) = [y, x'] from Function.update_self ..,
      hfilter, Function.update_idem] at h
  obtain ⟨-, hd, -, hnd, ha, -, hsent⟩ := ssc_database_invariant hash .blank _ db hrun
  exact ⟨hrun, hd, hnd, ha x aged hdel, hsent (fun _ => true) db _ (sscDsDynInfo_ok rfl rfl)⟩
end Reachable

end RookieMac.Ssc
