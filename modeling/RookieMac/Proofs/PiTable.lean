import RookieMac.PiCommSsc
import RookieMac.Lib.Runs

/-!
# PI's tables are counted finite maps

An insertion binds its key and says whether the key was new, a deletion removes the entry it finds
and says whether there was one, and a clear filters the chains and lowers the counter by what it
unlinks. So every function that changes the database keeps each table well formed, with its counter
the number of its entries.
-/

namespace RookieMac.Pi

open CMem Chained

/-- A well-formed table with its counter, a 32-bit word. -/
structure Counted (hash : HashFn) (head : HashTbl) (count : U32) : Prop where
  wf : WF (layout hash) head
  count_eq : count = BitVec.ofNat 32 (entries head).length

structure PiInv (hash : HashFn) (db : PiDbMacInfo) : Prop where
  dyn : Counted hash db.dynMacTblHead db.dynAddrCount
  stat : Counted hash db.staticMacTblHead db.staticAddrCount

theorem PiInv.setDyn {hash : HashFn} {db : PiDbMacInfo} (h : PiInv hash db) {dyn : HashTbl × U32}
    (hd : Counted hash dyn.1 dyn.2) : PiInv hash (db.setDyn dyn) :=
  ⟨hd, h.stat⟩

theorem PiInv.setStatic {hash : HashFn} {db : PiDbMacInfo} (h : PiInv hash db)
    {stat : HashTbl × U32} (hs : Counted hash stat.1 stat.2) : PiInv hash (db.setStatic stat) :=
  ⟨h.dyn, hs⟩

section Spec

variable {hash : HashFn} {head : HashTbl}

/-- An insertion binds its key; it returns 0 where the key is new, and adds an entry then. -/
theorem insertHashTable_spec (h : WF (layout hash) head) (entry : PiMacEntry) :
    WF (layout hash) (insertHashTable hash entry head).2
      ∧ toMap (layout hash) (insertHashTable hash entry head).2
        = Function.update (toMap (layout hash) head) entry.key (some entry.portId)
      ∧ (((insertHashTable hash entry head).1 = 0
          ∧ (entries (insertHashTable hash entry head).2).length = (entries head).length + 1)
        ∨ ((insertHashTable hash entry head).1 = 1
          ∧ (entries (insertHashTable hash entry head).2).length = (entries head).length)) := by
  obtain ⟨h2, h1⟩ := insertHashTable_eq hash entry head
  rw [h1, h2]
  have hi : (layout hash).idx ((layout hash).key entry) = hash entry.mac entry.vlanId := rfl
  have hp : ∀ x ∈ head (hash entry.mac entry.vlanId), (layout hash).key x = (layout hash).key entry →
      sameKey entry x = true := fun x _ hk => sameKey_iff.2 hk
  have hf : ∀ x, (layout hash).key (setPort entry.portId x) = (layout hash).key x := fun x => rfl
  obtain ⟨hwf, ⟨hm, -, hmap, hlen⟩ | ⟨a, -, hm, ha, hmap, hlen⟩⟩ := h.upsert_cases hi hp hf
  · exact ⟨hwf, hmap, .inl ⟨if_pos hm, hlen⟩⟩
  · refine ⟨hwf, hmap.trans ?_, .inr ⟨if_neg hm, hlen⟩⟩
    exact congrArg (fun k => Function.update _ k (some entry.portId)) (sameKey_iff.1 ha)

/-- A deletion removes the entry it finds in its bucket, or finds none. -/
theorem delHashEntry_spec (h : WF (layout hash) head) (entry : PiMacEntry) :
    WF (layout hash) (delHashEntry hash entry head).2
      ∧ (((∀ x ∈ head (hash entry.mac entry.vlanId), sameEntryDel entry x = false)
          ∧ (delHashEntry hash entry head).1 = ERR ∧ (delHashEntry hash entry head).2 = head)
        ∨ ∃ a ∈ head (hash entry.mac entry.vlanId), sameEntryDel entry a = true
          ∧ (delHashEntry hash entry head).1 = SUCC
          ∧ toMap (layout hash) (delHashEntry hash entry head).2
            = Function.update (toMap (layout hash) head) a.key none
          ∧ (entries (delHashEntry hash entry head).2).length + 1 = (entries head).length) := by
  obtain ⟨h2, h1⟩ := delHashEntry_eq hash entry head
  rw [h1, h2]
  obtain ⟨hwf, ⟨hn, heq⟩ | ⟨a, ha, hp, hmap, hlen⟩⟩ := h.eraseFirst_cases (sameEntryDel entry)
    (hash entry.mac entry.vlanId)
  · refine ⟨hwf, .inl ⟨hn, if_neg ?_, heq⟩⟩
    rintro ⟨x, hx, hp⟩
    rw [hn x hx] at hp
    cases hp
  · exact ⟨hwf, .inr ⟨a, ha, hp, if_pos ⟨a, ha, hp⟩, hmap, hlen⟩⟩

end Spec

/-! ## Clearing -/

section Clear

variable {fn : PiMacEntry → ℤ × Bool}

theorem clearChain_fst : ∀ (chain : List PiMacEntry) (count : U32),
    (clearChain fn chain count).1 = chain.filter fun x => !(fn x).2
  | [], _ => rfl
  | x :: chain, count => by
    simp only [clearChain, clearChain_fst chain, List.filter_cons]
    cases (fn x).2 <;> simp

/-- The counter falls by the number of entries unlinked, if the callback returns 0 exactly where it
unlinks. -/
theorem clearChain_snd (hfn : ∀ x, (fn x).1 = 0 ↔ (fn x).2 = true) :
    ∀ (chain : List PiMacEntry) (count : U32), (clearChain fn chain count).2
      + BitVec.ofNat 32 chain.length
      = count + BitVec.ofNat 32 (chain.filter fun x => !(fn x).2).length
  | [], _ => rfl
  | x :: chain, count => by
    have ih := clearChain_snd hfn chain (if (fn x).1 = 0 then count - 1 else count)
    simp only [clearChain, List.length_cons, List.filter_cons]
    rw [BitVec.ofNat_add, ← add_assoc, ih]
    by_cases hx : (fn x).2 = true
    · rw [if_pos ((hfn x).2 hx)]
      simp only [hx, Bool.not_true, Bool.false_eq_true, ↓reduceIte]
      rw [add_right_comm, BitVec.ofNat_eq_ofNat, BitVec.sub_add_cancel]
    · rw [if_neg (mt (hfn x).1 hx)]
      simp only [Bool.not_eq_true] at hx
      simp only [hx, Bool.not_false, ↓reduceIte, List.length_cons]
      rw [BitVec.ofNat_add, add_assoc]

def clearStep (fn : PiMacEntry → ℤ × Bool) (s : HashTbl × U32) (i : Fin hashSize) :
    HashTbl × U32 :=
  (Function.update s.1 i (clearChain fn (s.1 i) s.2).1, (clearChain fn (s.1 i) s.2).2)

theorem clearStep_counted (hfn : ∀ x, (fn x).1 = 0 ↔ (fn x).2 = true) (s : HashTbl × U32)
    (i : Fin hashSize) (h : s.2 = BitVec.ofNat 32 (entries s.1).length) :
    (clearStep fn s i).2 = BitVec.ofNat 32 (entries (clearStep fn s i).1).length := by
  have hc := clearChain_snd hfn (s.1 i) s.2
  have hlen := congrArg (BitVec.ofNat 32) (length_entries_update s.1 i (clearChain fn (s.1 i) s.2).1)
  rw [BitVec.ofNat_add, BitVec.ofNat_add, ← h, clearChain_fst, ← hc] at hlen
  simp only [clearStep, clearChain_fst]
  exact (add_right_cancel hlen).symm

theorem foldl_clearStep_fst : ∀ (is : List (Fin hashSize)) (s : HashTbl × U32) (j : Fin hashSize),
    is.Nodup → (is.foldl (clearStep fn) s).1 j
      = if j ∈ is then (s.1 j).filter (fun x => !(fn x).2) else s.1 j
  | [], _, _, _ => rfl
  | i :: is, s, j, hnd => by
    rw [List.nodup_cons] at hnd
    rw [List.foldl_cons, foldl_clearStep_fst is _ j hnd.2]
    simp only [clearStep, clearChain_fst]
    rcases eq_or_ne j i with rfl | hj
    · simp [hnd.1]
    · simp [hj]

theorem clearTable_eq (head : HashTbl) (count : U32) :
    clearTable fn head count = (List.finRange hashSize).foldl (clearStep fn) (head, count) := by
  unfold clearTable
  rfl

theorem clearTable_fst (head : HashTbl) (count : U32) :
    (clearTable fn head count).1 = fun i => (head i).filter fun x => !(fn x).2 := by
  funext j
  rw [clearTable_eq, foldl_clearStep_fst _ _ j (List.nodup_finRange _),
    if_pos (List.mem_finRange j)]

theorem clearTable_counted {hash : HashFn} {head : HashTbl} {count : U32}
    (hfn : ∀ x, (fn x).1 = 0 ↔ (fn x).2 = true) (h : Counted hash head count) :
    Counted hash (clearTable fn head count).1 (clearTable fn head count).2 := by
  refine ⟨?_, ?_⟩
  · rw [clearTable_fst]
    exact h.wf.filter fun _ x => !(fn x).2
  · rw [clearTable_eq]
    exact Runs.foldl_invariant (clearStep_counted hfn) _ (head, count) h.count_eq

theorem clearDynMac_freed (data : List U8) (x : PiMacEntry) :
    (clearDynMac data x).1 = 0 ↔ (clearDynMac data x).2 = true := by
  simp [clearDynMac, SUCC]

theorem clearVlanMac_freed (data : List U8) (x : PiMacEntry) :
    (clearVlanMac data x).1 = 0 ↔ (clearVlanMac data x).2 = true := by
  unfold clearVlanMac
  simp only []
  split_ifs <;> simp [SUCC, ERR]

theorem clearInterMac_freed (data : List U8) (x : PiMacEntry) :
    (clearInterMac data x).1 = 0 ↔ (clearInterMac data x).2 = true := by
  unfold clearInterMac
  simp only []
  split_ifs <;> simp [SUCC, ERR]

theorem callClearLocalMac_dyn (type : PiMacMsgid) (data : List U8) (fn : ClearMac)
    (db : PiDbMacInfo) : (callClearLocalMac type data fn db).dynMacTblHead
      = fun i => (db.dynMacTblHead i).filter fun x => !(fn data x).2 := by
  unfold callClearLocalMac
  split_ifs
  · rw [setDyn_dyn, clearTable_fst]
  · rw [setStatic_dyn, setDyn_dyn, clearTable_fst]

theorem callClearLocalMac_static (type : PiMacMsgid) (data : List U8) (fn : ClearMac)
    (db : PiDbMacInfo) : (callClearLocalMac type data fn db).staticMacTblHead
      = if type = .macClearDyn then db.staticMacTblHead
        else fun i => (db.staticMacTblHead i).filter fun x => !(fn data x).2 := by
  unfold callClearLocalMac
  split_ifs
  · exact setDyn_static _ _
  · rw [setStatic_static, clearTable_fst]

theorem callClearLocalMac_inv {hash : HashFn} {db : PiDbMacInfo} (h : PiInv hash db)
    (type : PiMacMsgid) (data : List U8) {fn : ClearMac}
    (hfn : ∀ x, (fn data x).1 = 0 ↔ (fn data x).2 = true) :
    PiInv hash (callClearLocalMac type data fn db) := by
  have hd := h.setDyn (clearTable_counted hfn h.dyn)
  unfold callClearLocalMac
  split_ifs
  · exact hd
  · exact hd.setStatic (clearTable_counted hfn h.stat)

theorem clearLocalMac_inv {hash : HashFn} {db : PiDbMacInfo} (h : PiInv hash db)
    (type : PiMacMsgid) (data : List U8) : PiInv hash (clearLocalMac type data db) := by
  unfold clearLocalMac
  split
  · exact callClearLocalMac_inv h _ _ (clearDynMac_freed data)
  · exact callClearLocalMac_inv h _ _ (clearVlanMac_freed data)
  · exact callClearLocalMac_inv h _ _ (clearInterMac_freed data)
  · exact h

end Clear

/-! ## The other functions -/

section Insert

variable {hash : HashFn} {db : PiDbMacInfo}

theorem insert_counted {head : HashTbl} {count : U32} (h : Counted hash head count)
    (entry : PiMacEntry) : Counted hash (insertHashTable hash entry head).2
      (if (insertHashTable hash entry head).1 = 0 then count + 1 else count) := by
  obtain ⟨hwf, -, ⟨hr, hlen⟩ | ⟨hr, hlen⟩⟩ := insertHashTable_spec h.wf entry
  · refine ⟨hwf, ?_⟩
    rw [hr, hlen, h.count_eq, BitVec.ofNat_add]
    rfl
  · refine ⟨hwf, ?_⟩
    rw [hr, hlen, h.count_eq]
    rfl

theorem del_counted {head : HashTbl} {count : U32} (h : Counted hash head count)
    (entry : PiMacEntry) : Counted hash (delHashEntry hash entry head).2
      (if (delHashEntry hash entry head).1 = 0 then count - 1 else count) := by
  obtain ⟨hwf, ⟨-, hr, heq⟩ | ⟨a, -, -, hr, -, hlen⟩⟩ := delHashEntry_spec h.wf entry
  · rw [hr, heq]
    exact h
  · refine ⟨hwf, ?_⟩
    rw [hr, h.count_eq, ← hlen, BitVec.ofNat_add]
    exact BitVec.add_sub_cancel _ _

theorem piLocalSetStaticAddr_inv (h : PiInv hash db) (mem : Bool) (data : List U8) :
    PiInv hash (piLocalSetStaticAddr hash mem data db) := by
  cases mem
  · exact h
  · exact ⟨h.dyn, insert_counted h.stat _⟩

theorem piAddLocalDyn_inv (h : PiInv hash db) (mem : Bool) (data : PiMacEntry) :
    PiInv hash (piAddLocalDyn hash mem data db) := by
  cases mem
  · exact h
  · exact ⟨insert_counted h.dyn _, h.stat⟩

theorem piDelLocalDyn_inv (h : PiInv hash db) (data : PiMacEntry) :
    PiInv hash (piDelLocalDyn hash data db) :=
  ⟨del_counted h.dyn _, h.stat⟩

theorem dealStaticInfo_inv (h : PiInv hash db) (mem : Bool) (data : List U8) :
    PiInv hash (dealStaticInfo hash mem data db) := by
  cases mem
  · exact h
  · exact ⟨h.dyn, insert_counted h.stat _⟩

theorem piDefaultArgsInit_inv (db : PiDbMacInfo) : PiInv hash (piDefaultArgsInit db) :=
  ⟨⟨WF.empty, by simp [piDefaultArgsInit]⟩, ⟨WF.empty, by simp [piDefaultArgsInit]⟩⟩

end Insert

/-! ## Every reachable database -/

section Reachable

/-- The functions that change PI's database, with any argument and any outcome of an allocation. -/
inductive PiOp
  | piLocalSetStaticAddr (mem : Bool) (data : List U8)
  | piAddLocalDyn (mem : Bool) (data : PiMacEntry)
  | piDelLocalDyn (data : PiMacEntry)
  | dealStaticInfo (mem : Bool) (data : List U8)
  | clearLocalMac (type : PiMacMsgid) (data : List U8)
  | piLocalLearnSta (str : List U8)
  | piLocalSetAgetime (data : List U8)
  | dealConfInfo (data : List U8)

def PiOp.run (hash : HashFn) (db : PiDbMacInfo) : PiOp → PiDbMacInfo
  | .piLocalSetStaticAddr mem data => Pi.piLocalSetStaticAddr hash mem data db
  | .piAddLocalDyn mem data => Pi.piAddLocalDyn hash mem data db
  | .piDelLocalDyn data => Pi.piDelLocalDyn hash data db
  | .dealStaticInfo mem data => Pi.dealStaticInfo hash mem data db
  | .clearLocalMac type data => Pi.clearLocalMac type data db
  | .piLocalLearnSta str => Pi.piLocalLearnSta str db
  | .piLocalSetAgetime data => Pi.piLocalSetAgetime data db
  | .dealConfInfo data => Pi.dealConfInfo data db

/-- The database after `pi_default_args_init` and the calls `ops`. -/
def piRun (hash : HashFn) (db : PiDbMacInfo) (ops : List PiOp) : PiDbMacInfo :=
  ops.foldl (PiOp.run hash) (piDefaultArgsInit db)

theorem PiOp.run_inv {hash : HashFn} {db : PiDbMacInfo} (h : PiInv hash db) (op : PiOp) :
    PiInv hash (op.run hash db) := by
  cases op with
  | piLocalSetStaticAddr mem data => exact piLocalSetStaticAddr_inv h mem data
  | piAddLocalDyn mem data => exact piAddLocalDyn_inv h mem data
  | piDelLocalDyn data => exact piDelLocalDyn_inv h data
  | dealStaticInfo mem data => exact dealStaticInfo_inv h mem data
  | clearLocalMac type data => exact clearLocalMac_inv h type data
  | piLocalLearnSta str => exact ⟨h.dyn, h.stat⟩
  | piLocalSetAgetime data => exact ⟨h.dyn, h.stat⟩
  | dealConfInfo data => exact ⟨h.dyn, h.stat⟩

theorem piRun_inv (hash : HashFn) (db : PiDbMacInfo) (ops : List PiOp) :
    PiInv hash (piRun hash db ops) := by
  have hstep : ∀ db op, PiInv hash db → PiInv hash (PiOp.run hash db op) :=
    fun _ op h => PiOp.run_inv h op
  exact Runs.foldl_invariant hstep ops _ (piDefaultArgsInit_inv db)

theorem toMap_addDyn {hash : HashFn} : ∀ (xs : List PiMacEntry) (db : PiDbMacInfo),
    WF (layout hash) db.dynMacTblHead →
    toMap (layout hash) (xs.foldl (fun db x => piAddLocalDyn hash true x db) db).dynMacTblHead
      = xs.foldl (fun (m : Key → Option U32) x => Function.update m x.key (some x.portId))
          (toMap (layout hash) db.dynMacTblHead)
  | [], _, _ => rfl
  | x :: xs, db, h => by
    obtain ⟨hwf, hmap, -⟩ := insertHashTable_spec h x
    rw [List.foldl_cons, List.foldl_cons, ← hmap]
    exact toMap_addDyn xs _ hwf

theorem toMap_piRun_addDyn (hash : HashFn) (db : PiDbMacInfo) (xs : List PiMacEntry) :
    toMap (layout hash) (piRun hash db (xs.map (.piAddLocalDyn true))).dynMacTblHead
      = xs.foldl (fun (m : Key → Option U32) x => Function.update m x.key (some x.portId))
          fun _ => none := by
  have hempty : toMap (layout hash) (piDefaultArgsInit db).dynMacTblHead = fun _ => none :=
    toMap_empty
  rw [piRun, List.foldl_map, ← hempty]
  exact toMap_addDyn xs _ (piDefaultArgsInit_inv db).dyn.wf

theorem length_piShowAllMac (db : PiDbMacInfo) : (piShowAllMac db).length
    = (entries db.dynMacTblHead).length + (entries db.staticMacTblHead).length := by
  rw [length_entries, length_entries, ← Finset.sum_add_distrib]
  simp [piShowAllMac, List.length_flatMap, Fin.sum_univ_def, add_comm]

/-- In every reachable database each entry is in the bucket of its key, no two entries of a table
have one key, each counter is the number of entries of its table modulo 2^32 (so below 2^32 entries
it never wrapped), and while the sum fits in 32 bits the total shown is the number of rows shown. -/
theorem pi_database_invariant (hash : HashFn) (db₀ : PiDbMacInfo) (ops : List PiOp) :
    let db := piRun hash db₀ ops
    (∀ i, ∀ x ∈ db.dynMacTblHead i, hash x.mac x.vlanId = i)
      ∧ (∀ i, ∀ x ∈ db.staticMacTblHead i, hash x.mac x.vlanId = i)
      ∧ ((entries db.dynMacTblHead).map PiMacEntry.key).Nodup
      ∧ ((entries db.staticMacTblHead).map PiMacEntry.key).Nodup
      ∧ db.dynAddrCount.toNat = (entries db.dynMacTblHead).length % 2 ^ 32
      ∧ db.staticAddrCount.toNat = (entries db.staticMacTblHead).length % 2 ^ 32
      ∧ ((entries db.dynMacTblHead).length + (entries db.staticMacTblHead).length < 2 ^ 32 →
        (piShowMacCount db).2.2.toNat = (piShowAllMac db).length) := by
  intro db
  have h := piRun_inv hash db₀ ops
  have hd : db.dynAddrCount.toNat = (entries db.dynMacTblHead).length % 2 ^ 32 := by
    rw [h.dyn.count_eq, BitVec.toNat_ofNat]
  have hs : db.staticAddrCount.toNat = (entries db.staticMacTblHead).length % 2 ^ 32 := by
    rw [h.stat.count_eq, BitVec.toNat_ofNat]
  refine ⟨h.dyn.wf.placed, h.stat.wf.placed, h.dyn.wf.nodup_entries, h.stat.wf.nodup_entries,
    hd, hs, fun hsum => ?_⟩
  rw [length_piShowAllMac, piShowMacCount, BitVec.toNat_add, hd, hs]
  omega

end Reachable

end RookieMac.Pi
