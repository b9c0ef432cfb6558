import RookieMac.Proofs.PiTable
import RookieMac.Proofs.SscTable

/-!
# The bytes `hash_function` does not set

`memcpy` sets two of the four bytes of `hmac`. Where words are stored low byte first the two others
are the high ones, and the bucket, which is the low ten bits, does not depend on them. The other way
round they are the low ones, and each call may pick another bucket for the same key.
-/

namespace RookieMac

open CMem Chained

/-! ## The bucket -/

section Bits

variable {mac : Mac} {vid : U32}

theorem toNat_mod_hashSize (x : U32) : x.toNat % hashSize = (x.setWidth 10).toNat := by
  rw [BitVec.toNat_setWidth]

theorem val_hashFunction_little (rest : BitVec 16) :
    (hashFunction .little rest mac vid).val = (vid.setWidth 10 ^^^ (mac[1] ++ mac[0]).setWidth 10
      ^^^ (ofBytes mac[2] mac[3] mac[4] mac[5]).setWidth 10).toNat := by
  unfold hashFunction
  simp only [toNat_mod_hashSize, BitVec.setWidth_xor]
  rw [BitVec.setWidth_append]
  rfl

theorem val_hashFunction_big (rest : BitVec 16) :
    (hashFunction .big rest mac vid).val = (vid.setWidth 10 ^^^ rest.setWidth 10
      ^^^ (ofBytes mac[5] mac[4] mac[3] mac[2]).setWidth 10).toNat := by
  unfold hashFunction
  simp only [toNat_mod_hashSize, BitVec.setWidth_xor]
  rw [BitVec.setWidth_append]
  rfl

theorem hashFunction_eq_iff {order : ByteOrder} {rest rest' : BitVec 16} :
    hashFunction order rest mac vid = hashFunction order rest' mac vid
      ↔ order = .little ∨ rest.setWidth 10 = rest'.setWidth 10 := by
  rw [Fin.ext_iff]
  cases order with
  | little =>
    rw [val_hashFunction_little, val_hashFunction_little]
    exact iff_of_true rfl (.inl rfl)
  | big =>
    rw [val_hashFunction_big, val_hashFunction_big, BitVec.toNat_inj, BitVec.xor_left_inj,
      BitVec.xor_right_inj]
    simp

theorem hashFunction_little (rest : BitVec 16) :
    hashFunction .little rest = hashFunction .little 0 := by
  funext mac vid
  exact hashFunction_eq_iff.2 (.inl rfl)

theorem hashFunction_big : hashFunction .big 1 mac vid ≠ hashFunction .big 0 mac vid := by
  rw [Ne, hashFunction_eq_iff]
  decide

end Bits

/-! ## Runs in which every call finds other bytes -/

section Runs

/-- `piRun`, where each call comes with what its `hmac` holds. -/
def piRunOn (order : ByteOrder) (db : Pi.PiDbMacInfo) (calls : List (Pi.PiOp × BitVec 16)) :
    Pi.PiDbMacInfo :=
  calls.foldl (fun db call => call.1.run (hashFunction order call.2) db) (Pi.piDefaultArgsInit db)

def sscRunOn (order : ByteOrder) (db : Ssc.MacOpraClass) (calls : List (Ssc.SscOp × BitVec 16)) :
    Except Ssc.Fault Ssc.MacOpraClass :=
  calls.foldlM (fun db call => call.1.run (hashFunction order call.2) db) (Ssc.sscDbInit db)

/-- The bucket of each entry is the one a later call for its key visits. -/
def Visited (order : ByteOrder) (head : HashTbl) : Prop :=
  ∀ i, ∀ x ∈ head i, ∀ rest, hashFunction order rest x.mac x.vlanId = i

/-- Two runs of PI that differ only in what the calls find end with the same database, and later
calls visit the buckets its entries are in. -/
structure PiSettled (order : ByteOrder) : Prop where
  same : ∀ db (calls calls' : List (Pi.PiOp × BitVec 16)),
    calls.map Prod.fst = calls'.map Prod.fst → piRunOn order db calls = piRunOn order db calls'
  dyn : ∀ db calls, Visited order (piRunOn order db calls).dynMacTblHead
  stat : ∀ db calls, Visited order (piRunOn order db calls).staticMacTblHead

structure SscSettled (order : ByteOrder) : Prop where
  same : ∀ db (calls calls' : List (Ssc.SscOp × BitVec 16)),
    calls.map Prod.fst = calls'.map Prod.fst → sscRunOn order db calls = sscRunOn order db calls'
  dyn : ∀ db calls db', sscRunOn order db calls = .ok db' → Visited order db'.dynMacTblHead
  stat : ∀ db calls db', sscRunOn order db calls = .ok db' → Visited order db'.staticMacTblHead

/-- Low byte first, the calls all use one hash. -/
theorem piRunOn_little (db : Pi.PiDbMacInfo) (calls : List (Pi.PiOp × BitVec 16)) :
    piRunOn .little db calls = Pi.piRun (hashFunction .little 0) db (calls.map Prod.fst) := by
  unfold piRunOn Pi.piRun
  simp only [hashFunction_little, List.foldl_map]

theorem sscRunOn_little (db : Ssc.MacOpraClass) (calls : List (Ssc.SscOp × BitVec 16)) :
    sscRunOn .little db calls = Ssc.sscRun (hashFunction .little 0) db (calls.map Prod.fst) := by
  unfold sscRunOn Ssc.sscRun
  simp only [hashFunction_little, List.foldlM_map]

theorem visited_little {head : HashTbl} (h : WF (layout (hashFunction .little 0)) head) :
    Visited .little head := by
  intro i x hx rest
  rw [hashFunction_little]
  exact h.placed i x hx

theorem piSettled_little : PiSettled .little where
  same db calls calls' h := by
    rw [piRunOn_little, piRunOn_little, h]
  dyn db calls := by
    rw [piRunOn_little]
    exact visited_little (Pi.piRun_inv _ db _).dyn.wf
  stat db calls := by
    rw [piRunOn_little]
    exact visited_little (Pi.piRun_inv _ db _).stat.wf

theorem sscSettled_little : SscSettled .little where
  same db calls calls' h := by
    rw [sscRunOn_little, sscRunOn_little, h]
  dyn db calls db' hrun := by
    rw [sscRunOn_little] at hrun
    exact visited_little (Ssc.sscRun_inv hrun).dyn
  stat db calls db' hrun := by
    rw [sscRunOn_little] at hrun
    exact visited_little (Ssc.sscRun_inv hrun).stat

/-- High byte first, the first entry of a table is in the bucket its insertion found. -/
theorem not_visited_big (x : PiMacEntry) :
    ¬ Visited .big (Function.update empty (hashFunction .big 0 x.mac x.vlanId) [x]) := by
  intro h
  have hx := h (hashFunction .big 0 x.mac x.vlanId) x (by simp) 1
  exact hashFunction_big hx

theorem not_piSettled_big : ¬ PiSettled .big := fun h =>
  not_visited_big .zero (h.dyn .blank [(.piAddLocalDyn true .zero, 0)])

theorem not_sscSettled_big : ¬ SscSettled .big := by
  intro h
  obtain ⟨db, hrun, hdyn⟩ : ∃ db, sscRunOn .big .blank [(.sscAddDynAddr true .zero, 0)] = .ok db
      ∧ db.dynMacTblHead = Function.update empty
        (hashFunction .big 0 PiMacEntry.zero.mac PiMacEntry.zero.vlanId) [.zero] := by
    unfold sscRunOn
    rw [List.foldlM_cons, Ssc.SscOp.run, Ssc.sscAddDynAddr_ok rfl]
    exact ⟨_, rfl, rfl⟩
  have hvisited := h.dyn _ _ _ hrun
  rw [hdyn] at hvisited
  exact not_visited_big .zero hvisited

/-- What the unset bytes hold does not decide the bucket of a key exactly where they are the high
ones, or agree in the bits of the bucket; so it decides nothing in a run of PI or of SSC exactly
where words are stored low byte first. -/
theorem bucket_settled_iff (order : ByteOrder) :
    (∀ mac vid rest rest', hashFunction order rest mac vid = hashFunction order rest' mac vid
        ↔ order = .little ∨ rest.setWidth 10 = rest'.setWidth 10)
      ∧ (PiSettled order ↔ order = .little) ∧ (SscSettled order ↔ order = .little) := by
  refine ⟨fun _ _ _ _ => hashFunction_eq_iff, ?_, ?_⟩
  · cases order with
    | little => exact iff_of_true piSettled_little rfl
    | big => exact iff_of_false not_piSettled_big nofun
  · cases order with
    | little => exact iff_of_true sscSettled_little rfl
    | big => exact iff_of_false not_sscSettled_big nofun

/-- High byte first, a deletion does not find the entry that has just been inserted. -/
theorem bucket_garbage_decides :
    let x : PiMacEntry := ⟨#v[2, 0, 0, 0, 0, 1], 1, 10, 3, 0⟩
    hashFunction .big 0 x.mac x.vlanId ≠ hashFunction .big 1 x.mac x.vlanId
      ∧ (Pi.delHashEntry (hashFunction .big 1) x
        (Pi.insertHashTable (hashFunction .big 0) x empty).2).1 = ERR := by
  decide

end Runs

end RookieMac
