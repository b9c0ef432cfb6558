import RookieMac.MacMap
import RookieMac.System
import RookieMac.Proofs.PiTable
import RookieMac.Lib.Bindings

/-!
# PI's tables refine maps

An insertion binds its key in one of the two maps, and a clear drops the bindings it names: it walks
every chain of one table or of both, but what it leaves of a chain it decides entry by entry. The
dynamic entries of a transfer are bound one after the other, and as no key is sent twice their order
does not matter.
-/

namespace RookieMac.Pi

open CMem Chained Bindings

/-- The port of each key, in the dynamic table and in the static one. -/
structure PiMaps where
  dyn : MacMap
  stat : MacMap

namespace PiMaps

def insertDyn (m : PiMaps) (e : PiMacEntry) : PiMaps :=
  { m with dyn := Function.update m.dyn e.key (some e.portId) }

def insertStatic (m : PiMaps) (e : PiMacEntry) : PiMaps :=
  { m with stat := Function.update m.stat e.key (some e.portId) }

/-- The bindings that do not match a clear with this argument. -/
def keeps (type : PiMacMsgid) (arg : U32) (k : Key) (port : U32) : Bool :=
  match type with
  | .macClearDyn => false
  | .clearVlanMac => k.2 ≠ arg
  | .clearInterDyn => port ≠ arg
  | _ => true

def clear (m : PiMaps) (type : PiMacMsgid) (arg : U32) : PiMaps where
  dyn := fun k => (m.dyn k).filter (keeps type arg k)
  stat := if type = .macClearDyn then m.stat else fun k => (m.stat k).filter (keeps type arg k)

end PiMaps

def PiDbMacInfo.maps (hash : HashFn) (db : PiDbMacInfo) : PiMaps where
  dyn := toMap (layout hash) db.dynMacTblHead
  stat := toMap (layout hash) db.staticMacTblHead

/-- An insertion into one of the tables, or a clear. -/
inductive TableOp
  | insertDyn (entry : PiMacEntry)
  | insertStatic (entry : PiMacEntry)
  | clear (type : PiMacMsgid) (data : List U8)

def TableOp.run (hash : HashFn) (db : PiDbMacInfo) : TableOp → PiDbMacInfo
  | .insertDyn entry =>
    { db with dynMacTblHead := (insertHashTable hash entry db.dynMacTblHead).2 }
  | .insertStatic entry =>
    { db with staticMacTblHead := (insertHashTable hash entry db.staticMacTblHead).2 }
  | .clear type data => clearLocalMac type data db

def TableOp.onMaps (m : PiMaps) : TableOp → PiMaps
  | .insertDyn entry => m.insertDyn entry
  | .insertStatic entry => m.insertStatic entry
  | .clear type data => m.clear type (readU32 data 0)

/-- The two tables of a database are well formed. -/
structure TablesWF (hash : HashFn) (db : PiDbMacInfo) : Prop where
  dyn : WF (layout hash) db.dynMacTblHead
  stat : WF (layout hash) db.staticMacTblHead

theorem PiInv.tables {hash : HashFn} {db : PiDbMacInfo} (h : PiInv hash db) : TablesWF hash db :=
  ⟨h.dyn.wf, h.stat.wf⟩

/-! ## One step -/

section Step

variable {hash : HashFn} {head : HashTbl} {db : PiDbMacInfo}

/-- An insertion returns 1 exactly where its key is bound already. -/
theorem insertHashTable_ret (hash : HashFn) (entry : PiMacEntry) (head : HashTbl) :
    (insertHashTable hash entry head).1
      = if toMap (layout hash) head entry.key = none then 0 else 1 := by
  rw [(insertHashTable_eq hash entry head).2]
  refine if_congr ?_ rfl rfl
  rw [modifyFirst_eq_none, toMap_eq_none]
  refine forall₂_congr fun x _ => ?_
  rw [← Bool.not_eq_true, sameKey_iff]
  rfl

/-- What a callback leaves of a chain is what does not match. -/
theorem not_freed (data : List U8) (x : PiMacEntry) :
    (!(clearDynMac data x).2) = PiMaps.keeps .macClearDyn (readU32 data 0) x.key x.portId
      ∧ (!(clearVlanMac data x).2) = PiMaps.keeps .clearVlanMac (readU32 data 0) x.key x.portId
      ∧ (!(clearInterMac data x).2)
        = PiMaps.keeps .clearInterDyn (readU32 data 0) x.key x.portId := by
  refine ⟨rfl, ?_, ?_⟩
  · unfold clearVlanMac PiMaps.keeps PiMacEntry.key
    simp only
    split_ifs with h <;> simp [h]
  · unfold clearInterMac PiMaps.keeps
    simp only
    split_ifs with h <;> simp [h]

theorem clearLocalMac_tables (type : PiMacMsgid) (data : List U8) (db : PiDbMacInfo) :
    (clearLocalMac type data db).dynMacTblHead
        = (fun i => (db.dynMacTblHead i).filter
          fun x => PiMaps.keeps type (readU32 data 0) x.key x.portId)
      ∧ (clearLocalMac type data db).staticMacTblHead
        = if type = .macClearDyn then db.staticMacTblHead
          else fun i => (db.staticMacTblHead i).filter
            fun x => PiMaps.keeps type (readU32 data 0) x.key x.portId := by
  have hvlan := fun x => (not_freed data x).2.1
  have hinter := fun x => (not_freed data x).2.2
  unfold clearLocalMac
  split
  · rw [callClearLocalMac_dyn, callClearLocalMac_static]
    exact ⟨rfl, rfl⟩
  · rw [callClearLocalMac_dyn, callClearLocalMac_static]
    simp only [hvlan, and_self]
  · rw [callClearLocalMac_dyn, callClearLocalMac_static]
    simp only [hinter, and_self]
  · cases type <;> simp_all [PiMaps.keeps]

theorem clearLocalMac_maps (h : TablesWF hash db) (type : PiMacMsgid) (data : List U8) :
    TablesWF hash (clearLocalMac type data db)
      ∧ (clearLocalMac type data db).maps hash = (db.maps hash).clear type (readU32 data 0) := by
  obtain ⟨hd, hs⟩ := clearLocalMac_tables type data db
  have hfilter : ∀ {t : HashTbl}, WF (layout hash) t → toMap (layout hash)
      (fun i => (t i).filter fun x => PiMaps.keeps type (readU32 data 0) x.key x.portId)
        = fun k => (toMap (layout hash) t k).filter (PiMaps.keeps type (readU32 data 0) k) :=
    fun ht => ht.toMap_filter _ _ fun _ _ _ => rfl
  refine ⟨⟨hd ▸ h.dyn.filter _, ?_⟩, ?_⟩
  · rw [hs]
    split_ifs
    · exact h.stat
    · exact h.stat.filter _
  · rw [PiDbMacInfo.maps, hd, hs, hfilter h.dyn, PiMaps.clear]
    split_ifs
    · rfl
    · rw [hfilter h.stat]
      rfl

theorem TableOp.run_maps (h : TablesWF hash db) (op : TableOp) :
    TablesWF hash (op.run hash db) ∧ (op.run hash db).maps hash = op.onMaps (db.maps hash) := by
  cases op with
  | insertDyn entry =>
    obtain ⟨hwf, hmap, -⟩ := insertHashTable_spec h.dyn entry
    refine ⟨⟨hwf, h.stat⟩, ?_⟩
    rw [PiDbMacInfo.maps, TableOp.run, hmap]
    rfl
  | insertStatic entry =>
    obtain ⟨hwf, hmap, -⟩ := insertHashTable_spec h.stat entry
    refine ⟨⟨h.dyn, hwf⟩, ?_⟩
    rw [PiDbMacInfo.maps, TableOp.run, hmap]
    rfl
  | clear type data => exact clearLocalMac_maps h type data

end Step

/-- On every reachable database an insertion binds its key, and returns 1 exactly where it was
bound, a clear leaves the bindings that do not match (and the static table as it is where only the
dynamic one is cleared), and a sequence of insertions and clears does to the tables what it does to
the maps. -/
theorem tables_refine_maps (hash : HashFn) (db₀ : PiDbMacInfo) (ops : List PiOp) :
    let db := piRun hash db₀ ops
    (∀ head, head = db.dynMacTblHead ∨ head = db.staticMacTblHead → ∀ entry,
      toMap (layout hash) (insertHashTable hash entry head).2
          = Function.update (toMap (layout hash) head) entry.key (some entry.portId)
        ∧ (insertHashTable hash entry head).1
          = if toMap (layout hash) head entry.key = none then 0 else 1)
      ∧ (∀ type data, (clearLocalMac type data db).maps hash
        = (db.maps hash).clear type (readU32 data 0))
      ∧ ∀ tops : List TableOp,
        (tops.foldl (TableOp.run hash) db).maps hash
          = tops.foldl TableOp.onMaps (db.maps hash) := by
  intro db
  have h : TablesWF hash db := (piRun_inv hash db₀ ops).tables
  have hstep : ∀ db op, TablesWF hash db → TablesWF hash (TableOp.run hash db op)
      ∧ (TableOp.run hash db op).maps hash = op.onMaps (db.maps hash) :=
    fun _ op hd => TableOp.run_maps hd op
  refine ⟨fun head hhead entry => ?_, fun type data => (clearLocalMac_maps h type data).2,
    fun tops => (Runs.foldl_image hstep tops db h).2⟩
  have hwf : WF (layout hash) head := by
    rcases hhead with rfl | rfl
    · exact h.dyn
    · exact h.stat
  exact ⟨(insertHashTable_spec hwf entry).2.1, insertHashTable_ret hash entry head⟩

/-! ## The dynamic entries of a transfer -/

section Transfer

variable {hash : HashFn} {db : PiDbMacInfo}

/-- The `ssc_ds_info_t` of a dynamic entry, with what follows it in the buffer. -/
def dynInfo (x : PiMacEntry) (rest : List U8) : List U8 := Ssc.dsInfo sscDyn x.bytes ++ rest

theorem dealDynInfo_dynInfo (mem : Bool) (x : PiMacEntry) (rest : List U8) (db : PiDbMacInfo) :
    dealDynInfo hash mem (dynInfo x rest) db = piAddLocalDyn hash mem x db := by
  have hread : PiMacEntry.read ((dynInfo x rest).drop 4) = x := by
    rw [dynInfo, Ssc.dsInfo, List.append_assoc, List.drop_left' (length_toBytes sscDyn),
      PiMacEntry.read_bytes]
  rw [dealDynInfo, hread]

/-- The dynamic table as a map, with its counter. -/
def PiDbMacInfo.dynMap (hash : HashFn) (db : PiDbMacInfo) : MacMap × U32 :=
  (toMap (layout hash) db.dynMacTblHead, db.dynAddrCount)

/-- An entry is bound, and counted where its key is new. -/
def dynStep (s : MacMap × U32) (e : PiMacEntry) : MacMap × U32 :=
  (bind PiMacEntry.key PiMacEntry.portId s.1 e, if s.1 e.key = none then s.2 + 1 else s.2)

theorem piAddLocalDyn_dynMap (db : PiDbMacInfo) (x : PiMacEntry)
    (h : WF (layout hash) db.dynMacTblHead) :
    WF (layout hash) (piAddLocalDyn hash true x db).dynMacTblHead
      ∧ (piAddLocalDyn hash true x db).dynMap hash = dynStep (db.dynMap hash) x := by
  obtain ⟨hwf, hmap, -⟩ := insertHashTable_spec h x
  refine ⟨hwf, Prod.ext hmap ?_⟩
  unfold dynStep PiDbMacInfo.dynMap piAddLocalDyn
  simp only [↓reduceIte, insertHashTable_ret]
  split_ifs <;> first | rfl | contradiction

theorem iterate_succ (c : U32) : ∀ k : ℕ, (· + 1)^[k] c = c + BitVec.ofNat 32 k
  | 0 => by simp
  | k + 1 => by
    rw [Function.iterate_succ_apply', iterate_succ c k, BitVec.ofNat_add, ← add_assoc]
    rfl

/-- On every reachable database, entries with distinct keys leave the same map and the same counter
in whatever order their messages are processed: the old map with the entries' bindings in place of
its own, and the old counter plus the number of keys that were new. -/
theorem dyn_transfer_any_order (hash : HashFn) (db₀ : PiDbMacInfo) (ops : List PiOp)
    {es es' : List PiMacEntry} (hnd : (es.map PiMacEntry.key).Nodup) (hperm : es'.Perm es)
    (rest : PiMacEntry → List U8) :
    let db := piRun hash db₀ ops
    let m := toMap (layout hash) db.dynMacTblHead
    let db' := es'.foldl (fun db e => dealDynInfo hash true (dynInfo e (rest e)) db) db
    toMap (layout hash) db'.dynMacTblHead = override PiMacEntry.key PiMacEntry.portId m es
      ∧ db'.dynAddrCount = db.dynAddrCount + BitVec.ofNat 32 (unbound PiMacEntry.key m es) := by
  intro db m db'
  have h : WF (layout hash) db.dynMacTblHead := (piRun_inv hash db₀ ops).dyn.wf
  have hnd' : (es'.map PiMacEntry.key).Nodup := (hperm.map _).nodup_iff.2 hnd
  have hdb' : db' = es'.foldl (fun db e => piAddLocalDyn hash true e db) db := by
    simp only [db', dealDynInfo_dynInfo]
  have hrun := (Runs.foldl_image piAddLocalDyn_dynMap es' db h).2
  have hfold : es'.foldl dynStep (m, db.dynAddrCount)
      = (override PiMacEntry.key PiMacEntry.portId m es',
        (· + 1)^[unbound PiMacEntry.key m es'] db.dynAddrCount) :=
    foldl_bind_count (· + 1) es' m db.dynAddrCount hnd'
  rw [override_perm hnd hperm, unbound_perm hperm, iterate_succ] at hfold
  rw [← hdb'] at hrun
  exact Prod.mk.inj (hrun.trans hfold)

theorem dyn_transfer_any_order_two :
    let x : PiMacEntry := ⟨#v[2, 0, 0, 0, 0, 1], 1, 10, 3, 0⟩
    let y : PiMacEntry := ⟨#v[2, 0, 0, 0, 0, 2], 1, 10, 4, 0⟩
    let db := piRun littleEnv.hash .blank []
    let db' := [y, x].foldl (fun db e => dealDynInfo littleEnv.hash true (dynInfo e []) db) db
    toMap (layout littleEnv.hash) db'.dynMacTblHead
        = override PiMacEntry.key PiMacEntry.portId (fun _ => none) [x, y]
      ∧ db'.dynAddrCount = 2 := by
  intro x y
  have hnd : ([x, y].map PiMacEntry.key).Nodup := by decide
  clear_value x y
  intro db db'
  have hempty : toMap (layout littleEnv.hash) db.dynMacTblHead = fun _ => none := toMap_empty
  have hnew : unbound PiMacEntry.key (fun _ => none : MacMap) [x, y] = 2 := rfl
  obtain ⟨hmap, hcount⟩ : toMap (layout littleEnv.hash) db'.dynMacTblHead
        = override PiMacEntry.key PiMacEntry.portId
          (toMap (layout littleEnv.hash) db.dynMacTblHead) [x, y]
      ∧ db'.dynAddrCount = db.dynAddrCount + BitVec.ofNat 32
        (unbound PiMacEntry.key (toMap (layout littleEnv.hash) db.dynMacTblHead) [x, y]) :=
    dyn_transfer_any_order littleEnv.hash .blank [] hnd (.swap x y []) fun _ => []
  rw [hempty] at hmap hcount
  rw [hnew] at hcount
  exact ⟨hmap, hcount⟩

end Transfer

end RookieMac.Pi
