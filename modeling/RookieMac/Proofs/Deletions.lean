import RookieMac.Proofs.SscTable

/-!
# SSC's deletions are filters

Three of the deletions walk every chain of the dynamic table, the one for an aged entry only the
chain of its key, where every entry of that key is. Each leaves what it does not match, in its
order; so deletions that follow one another leave what none of them matches, whatever their order.
All of them wait for the mutex.
-/

namespace RookieMac.Ssc

open CMem Chained

inductive Deletion
  | sscDelAgeEntry (entry : PiMacEntry)
  | sscDelVlanAddr (vlan : U32)
  | sscDelIntAddr (phyId : U32)
  | sscDelDynAddr

namespace Deletion

def op : Deletion → SscOp
  | sscDelAgeEntry entry => .sscDelAgeEntry entry
  | sscDelVlanAddr vlan => .sscDelVlanAddr vlan
  | sscDelIntAddr phyId => .sscDelIntAddr phyId
  | sscDelDynAddr => .sscDelDynAddr

def run (hash : HashFn) (db : MacOpraClass) (d : Deletion) : Except Fault MacOpraClass :=
  d.op.run hash db

/-- What the deletion is to remove. -/
def hits (x : PiMacEntry) : Deletion → Bool
  | sscDelAgeEntry entry => x.mac = entry.mac ∧ x.vlanId = entry.vlanId
  | sscDelVlanAddr vlan => x.vlanId = vlan
  | sscDelIntAddr phyId => x.portId = phyId
  | sscDelDynAddr => true

end Deletion

/-- The database with the dynamic entries that none of the deletions matches. -/
def without (db : MacOpraClass) (ds : List Deletion) : MacOpraClass :=
  { db with dynMacTblHead := fun i =>
      (db.dynMacTblHead i).filter fun x => ds.all fun d => !d.hits x }

section Run

variable {hash : HashFn} {db : MacOpraClass}

theorem without_nil (db : MacOpraClass) : without db [] = db := by
  simp [without]

theorem without_cons (db : MacOpraClass) (d : Deletion) (ds : List Deletion) :
    without (without db [d]) ds = without db (d :: ds) := by
  unfold without
  congr 1
  funext i
  rw [List.filter_filter]
  refine List.filter_congr fun x _ => ?_
  rw [List.all_cons, List.all_cons, List.all_nil, Bool.and_true, Bool.and_comm]

theorem without_perm (db : MacOpraClass) {ds ds' : List Deletion} (h : ds'.Perm ds) :
    without db ds' = without db ds := by
  unfold without
  congr 1
  funext i
  exact List.filter_congr fun x _ => h.all_eq

/-- An aged entry's key is in no chain but its own. -/
theorem filter_age (h : WF (layout hash) db.dynMacTblHead) (entry : PiMacEntry) :
    Function.update db.dynMacTblHead (hash entry.mac entry.vlanId)
        ((db.dynMacTblHead (hash entry.mac entry.vlanId)).filter fun x =>
          !sameKey entry.mac entry.vlanId x)
      = (without db [.sscDelAgeEntry entry]).dynMacTblHead := by
  have hsame : ∀ x, sameKey entry.mac entry.vlanId x
      = Deletion.hits x (.sscDelAgeEntry entry) := by
    intro x
    rw [Bool.eq_iff_iff, sameKey_iff]
    simp [Deletion.hits, PiMacEntry.key]
  funext i
  simp only [without, List.all_cons, List.all_nil, Bool.and_true, hsame]
  rcases eq_or_ne i (hash entry.mac entry.vlanId) with rfl | hi
  · rw [Function.update_self]
  · rw [Function.update_of_ne hi, eq_comm, List.filter_eq_self]
    intro x hx
    have hplace : hash x.mac x.vlanId = i := h.placed i x hx
    simp only [Deletion.hits, Bool.not_eq_true', decide_eq_false_iff_not]
    rintro ⟨hmac, hvlan⟩
    rw [hmac, hvlan] at hplace
    exact hi hplace.symm

theorem Deletion.run_free (h : WF (layout hash) db.dynMacTblHead) (hm : db.mutex = false)
    (d : Deletion) : d.run hash db = .ok (without db [d]) := by
  have hdel : ∀ p : PiMacEntry → Bool, (∀ x, p x = d.hits x) →
      delFromDyn p db = .ok (without db [d]) := by
    intro p hp
    rw [delFromDyn_ok hm]
    simp [without, hp]
  cases d with
  | sscDelAgeEntry entry =>
    rw [Deletion.run, Deletion.op, SscOp.run, sscDelAgeEntry_ok hm, filter_age h]
    rfl
  | sscDelVlanAddr vlan => exact hdel _ fun _ => rfl
  | sscDelIntAddr phyId => exact hdel _ fun _ => rfl
  | sscDelDynAddr => exact hdel _ fun _ => rfl

theorem deletions_free : ∀ (ds : List Deletion) {db : MacOpraClass},
    WF (layout hash) db.dynMacTblHead → db.mutex = false →
    ds.foldlM (Deletion.run hash) db = .ok (without db ds)
  | [], db, _, _ => by
    rw [without_nil]
    rfl
  | d :: ds, db, h, hm => by
    have h' : WF (layout hash) (without db [d]).dynMacTblHead := h.filter _
    have ih := deletions_free ds h' hm
    rw [without_cons] at ih
    rw [List.foldlM_cons, d.run_free h hm]
    exact ih

end Run

/-- On a reachable database deletions in any order leave in each dynamic bucket the entries that
none of them matches, in their order, and the rest of the database as it is, exactly where the mutex
is free; where it is not the first of them waits for ever. -/
theorem deletions_exact_iff (hash : HashFn) (db₀ : MacOpraClass) (ops : List SscOp)
    (db : MacOpraClass) (hr : sscRun hash db₀ ops = .ok db) (ds : List Deletion) :
    (∀ ds' : List Deletion, ds'.Perm ds → ds'.foldlM (Deletion.run hash) db = .ok (without db ds))
      ↔ ds = [] ∨ db.mutex = false := by
  have h := (sscRun_inv hr).dyn
  constructor
  · intro hall
    rcases ds with _ | ⟨d, ds⟩
    · exact .inl rfl
    · refine .inr (Bool.eq_false_iff.2 fun hm => ?_)
      have hrun := hall (d :: ds) (.refl _)
      rw [List.foldlM_cons, Deletion.run, SscOp.run_held hm] at hrun
      cases hrun
  · rintro (rfl | hm) ds' hperm
    · rw [List.perm_nil.1 hperm, without_nil]
      rfl
    · rw [deletions_free ds' h hm, without_perm db hperm]

/-- Two addresses of one bucket, the first of them aged out and the second cleared with its VLAN. -/
theorem deletions_exact_iff_two :
    let hash := hashFunction .little 0
    let x : PiMacEntry := ⟨#v[2, 0x11, 0x22, 0x33, 0x44, 0x55], 1, 10, 3, 0⟩
    let y : PiMacEntry := ⟨#v[2, 0x11, 0x22, 0x33, 0x44, 0x66], 1, 10, 4, 0⟩
    ∃ db, sscRun hash .blank [.sscAddDynAddr true x, .sscAddDynAddr true y] = .ok db
      ∧ db.dynMacTblHead (hash x.mac x.vlanId) = [y, x]
      ∧ [.sscDelVlanAddr 10, .sscDelAgeEntry x].foldlM (Deletion.run hash) db
        = .ok (without db [.sscDelAgeEntry x, .sscDelVlanAddr 10]) := by
  intro hash x y
  have hi : ∀ z ∈ [x, y], hash z.mac z.vlanId = hash x.mac x.vlanId := by decide
  have hchain : [x, y].foldl learnChain [] = [y, x] := by decide
  clear_value hash x y
  have hrun : sscRun hash .blank [.sscAddDynAddr true x, .sscAddDynAddr true y] = _ :=
    sscRun_addDyn [x, y] hi
  rw [hchain] at hrun
  exact ⟨_, hrun, Function.update_self _ _ _,
    (deletions_exact_iff hash .blank _ _ hrun _).2 (.inr rfl) _ (.swap _ _ _)⟩

/-- The addition of a static address has found no memory and left the mutex held: the deletion of
the VLAN waits for ever, and the entry stays. -/
theorem deletion_blocks :
    let hash := hashFunction .little 0
    let x : PiMacEntry := ⟨#v[2, 0, 0, 0, 0, 1], 1, 10, 3, 0⟩
    ∃ db, sscRun hash .blank
        [.sscAddDynAddr true x, .sscLocalAddAddr false ⟨#v[2, 0, 0, 0, 0, 2], 10, 4⟩] = .ok db
      ∧ x ∈ db.dynMacTblHead (hash x.mac x.vlanId)
      ∧ Deletion.hits x (.sscDelVlanAddr 10) = true
      ∧ sscDelVlanAddr 10 db = .error .deadlock := by
  intro hash x
  have hhits : Deletion.hits x (.sscDelVlanAddr 10) = true := rfl
  clear_value hash x
  refine ⟨_, rfl, ?_, hhits, rfl⟩
  change x ∈ Function.update empty (hash x.mac x.vlanId) [x] (hash x.mac x.vlanId)
  rw [Function.update_self]
  exact .head _

end RookieMac.Ssc
