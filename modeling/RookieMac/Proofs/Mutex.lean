import RookieMac.Proofs.SscTable

/-!
# The mutex of SSC's database

Nine functions take the database mutex. Each of them releases it on every path but one: the addition
of a static address that is new and for which there is no memory. From then on every one of them
waits for ever.
-/

namespace RookieMac.Ssc

open CMem Chained

/-- The functions that take the mutex: those that change the tables and those that send. -/
inductive DbOp
  | table (op : SscOp)
  | sscDsConfInfo (mem : ℕ → Bool)
  | sscDsStaticInfo (mem : ℕ → Bool)
  | sscDsDynInfo (mem : ℕ → Bool)

namespace DbOp

def run (env : SscEnv) (db : MacOpraClass) : DbOp → Except Fault MacOpraClass
  | .table op => op.run env.hash db
  | .sscDsConfInfo mem => (Ssc.sscDsConfInfo env mem db).map Prod.fst
  | .sscDsStaticInfo mem => (Ssc.sscDsStaticInfo mem db).map Prod.fst
  | .sscDsDynInfo mem => (Ssc.sscDsDynInfo mem db).map Prod.fst

/-- The function comes to an allocation that fails. -/
def AllocFails (hash : HashFn) (db : MacOpraClass) : DbOp → Prop
  | .table (.sscAddDynAddr mem e) =>
    mem = false ∧ ∀ x ∈ db.dynMacTblHead (hash e.mac e.vlanId), sameKeyDyn e x = false
  | .table (.sscLocalAddAddr mem e) =>
    mem = false ∧ ∀ x ∈ db.staticMacTblHead (hash e.mac e.vlanId), sameKey e.mac e.vlanId x = false
  | .table _ => False
  | .sscDsConfInfo mem | .sscDsStaticInfo mem | .sscDsDynInfo mem => ∃ i, mem i = false

end DbOp

/-- The function starts with the mutex free, returns, leaves it free, and changes no table where its
allocation fails. -/
structure Releases (env : SscEnv) (db : MacOpraClass) (op : DbOp) : Prop where
  free : db.mutex = false
  returns : ∃ db', op.run env db = .ok db' ∧ db'.mutex = false
    ∧ (op.AllocFails env.hash db → db'.staticMacTblHead = db.staticMacTblHead
      ∧ db'.dynMacTblHead = db.dynMacTblHead)

def dbStep (env : SscEnv) (s : Except Fault MacOpraClass) (op : DbOp) : Except Fault MacOpraClass :=
  s >>= fun db => op.run env db

def ReleasesAt (env : SscEnv) (s : Except Fault MacOpraClass) (op : DbOp) : Prop :=
  ∃ db, s = .ok db ∧ Releases env db op

/-! ## The static addresses that are stored -/

section Stored

/-- The keys a look-up by `memcmp` finds in the static table. -/
def staticKeys (hash : HashFn) (db : MacOpraClass) : Set Key :=
  {k | ∃ x ∈ db.staticMacTblHead (hash k.1 k.2), x.key = k}

def storeKey (stored : Set Key) : DbOp → Set Key
  | .table (.sscLocalAddAddr _ e) => insert (e.mac, e.vlanId) stored
  | _ => stored

/-- A static address for which there is no memory is stored already. -/
def Affordable (stored : Set Key) : DbOp → Prop
  | .table (.sscLocalAddAddr mem e) => mem = false → (e.mac, e.vlanId) ∈ stored
  | _ => True

variable {hash : HashFn} {db : MacOpraClass}

theorem mem_staticKeys_iff {e : BaseStaticMac} : (e.mac, e.vlanId) ∈ staticKeys hash db
    ↔ ∃ x ∈ db.staticMacTblHead (hash e.mac e.vlanId), sameKey e.mac e.vlanId x = true := by
  simp only [staticKeys, Set.mem_ofPred_eq, sameKey_iff]

/-- An insertion stores its key and drops none. -/
theorem staticKeys_upsert (e : BaseStaticMac) {db' : MacOpraClass}
    (h : db'.staticMacTblHead = upsert (sameKey e.mac e.vlanId) (setPort e.portId)
      ⟨e.mac, 0, e.vlanId, e.portId, staticType⟩ (hash e.mac e.vlanId) db.staticMacTblHead) :
    staticKeys hash db' = insert (e.mac, e.vlanId) (staticKeys hash db) := by
  ext k
  simp only [staticKeys, h, upsert, Set.mem_insert_iff, Set.mem_ofPred_eq]
  by_cases hi : hash k.1 k.2 = hash e.mac e.vlanId
  · rw [hi, Function.update_self]
    rcases modifyFirst_cases (sameKey e.mac e.vlanId) (setPort e.portId)
      (db.staticMacTblHead (hash e.mac e.vlanId)) with ⟨hn, -⟩ | ⟨l₁, a, l₂, hl, ha, hs⟩
    · simp only [hn, Option.getD_none, List.mem_cons, exists_eq_or_imp]
      exact or_congr_left eq_comm
    · rw [sameKey_iff] at ha
      rw [hs, Option.getD_some, hl]
      simp only [List.mem_append, List.mem_cons, or_and_right, exists_or, exists_eq_left,
        key_setPort, ha, eq_comm (a := k)]
      refine ⟨.inr, ?_⟩
      rintro (hk | hk)
      · exact .inr (.inl hk)
      · exact hk
  · have hk : k ≠ (e.mac, e.vlanId) := fun hk => hi (by rw [hk])
    rw [Function.update_of_ne hi]
    exact (or_iff_right hk).symm

end Stored

/-! ## One function -/

section Step

variable {env : SscEnv} {db : MacOpraClass}

theorem releases_add (hm : db.mutex = false) (mem : Bool) (e : PiMacEntry) :
    ∃ db', sscAddDynAddr env.hash mem e db = .ok db' ∧ db'.mutex = false
      ∧ db'.staticMacTblHead = db.staticMacTblHead
      ∧ ((DbOp.table (.sscAddDynAddr mem e)).AllocFails env.hash db →
        db'.dynMacTblHead = db.dynMacTblHead) := by
  by_cases h : mem = true ∨ ∃ x ∈ db.dynMacTblHead (env.hash e.mac e.vlanId), sameKeyDyn e x = true
  · have hrun : sscAddDynAddr env.hash mem e db = sscAddDynAddr env.hash true e db := by
      cases mem with
      | true => rfl
      | false => exact sscAddDynAddr_found hm (h.resolve_left Bool.false_ne_true)
    refine ⟨_, hrun.trans (sscAddDynAddr_ok hm e), hm, rfl, ?_⟩
    rintro ⟨rfl, hno⟩
    obtain ⟨x, hx, hs⟩ := h.resolve_left Bool.false_ne_true
    rw [hno x hx] at hs
    cases hs
  · push Not at h
    obtain ⟨hmem, hno⟩ := h
    rw [ne_eq, Bool.not_eq_true] at hmem
    subst hmem
    exact ⟨db, sscAddDynAddr_new hm fun x hx => by simpa using hno x hx, hm, rfl, fun _ => rfl⟩

/-- The functions that send leave the database as it is. -/
theorem run_send (hm : db.mutex = false) {op : DbOp} (hop : ∀ t, op ≠ .table t) :
    op.run env db = .ok db := by
  have lock : ∀ {β : Type} (f : MacOpraClass → β), (do
      let db ← pthreadMutexLock db
      return (pthreadMutexUnlock db, f db) : Except Fault (MacOpraClass × β))
      = .ok (db, f { db with mutex := true }) := by
    intro β f
    simp only [lock_free hm, bind, Except.bind, pure, Except.pure, unlock_lock hm]
  cases op with
  | table t => exact absurd rfl (hop t)
  | sscDsConfInfo mem =>
    rw [DbOp.run, Ssc.sscDsConfInfo]
    split_ifs
    · exact congrArg (Except.map Prod.fst) (lock _)
    · rfl
  | sscDsStaticInfo mem =>
    rw [DbOp.run, Ssc.sscDsStaticInfo]
    split_ifs
    · exact congrArg (Except.map Prod.fst) (lock _)
    · rfl
  | sscDsDynInfo mem =>
    rw [DbOp.run, Ssc.sscDsDynInfo]
    split_ifs
    · exact congrArg (Except.map Prod.fst) (lock _)
    · rfl

variable {op : DbOp} {db' : MacOpraClass}

/-- A function that returns with the mutex free and the static table as it was. -/
theorem releases_of_static (hm : db.mutex = false) (ha : Affordable (staticKeys env.hash db) op)
    (hk : storeKey (staticKeys env.hash db) op = staticKeys env.hash db)
    (hr : op.run env db = .ok db') (hm' : db'.mutex = false)
    (hs : db'.staticMacTblHead = db.staticMacTblHead)
    (hd : op.AllocFails env.hash db → db'.dynMacTblHead = db.dynMacTblHead) :
    (Releases env db op ↔ Affordable (staticKeys env.hash db) op)
      ∧ (Releases env db op → ∃ db', op.run env db = .ok db' ∧ db'.mutex = false
        ∧ staticKeys env.hash db' = storeKey (staticKeys env.hash db) op) := by
  refine ⟨iff_of_true ⟨hm, db', hr, hm', fun hf => ⟨hs, hd hf⟩⟩ ha, fun _ => ⟨db', hr, hm', ?_⟩⟩
  rw [hk, staticKeys, hs]
  rfl

theorem releases_static (hm : db.mutex = false) (mem : Bool) (e : BaseStaticMac) :
    (Releases env db (.table (.sscLocalAddAddr mem e))
        ↔ (mem = false → (e.mac, e.vlanId) ∈ staticKeys env.hash db))
      ∧ (Releases env db (.table (.sscLocalAddAddr mem e)) →
        ∃ db', sscLocalAddAddr env.hash mem e db = .ok db' ∧ db'.mutex = false
          ∧ staticKeys env.hash db' = insert (e.mac, e.vlanId) (staticKeys env.hash db)) := by
  by_cases h : mem = false → (e.mac, e.vlanId) ∈ staticKeys env.hash db
  · have hrun : sscLocalAddAddr env.hash mem e db = sscLocalAddAddr env.hash true e db := by
      cases mem with
      | true => rfl
      | false => exact sscLocalAddAddr_found hm (mem_staticKeys_iff.1 (h rfl))
    have hok := hrun.trans (sscLocalAddAddr_ok hm e)
    refine ⟨iff_of_true ⟨hm, _, hok, hm, ?_⟩ h, fun _ => ⟨_, hok, hm, staticKeys_upsert e rfl⟩⟩
    rintro ⟨hmem, hno⟩
    obtain ⟨x, hx, hs⟩ := mem_staticKeys_iff.1 (h hmem)
    rw [hno x hx] at hs
    cases hs
  · -- no memory for a new address: the mutex stays held
    have hnot : ¬ Releases env db (.table (.sscLocalAddAddr mem e)) := by
      rintro ⟨-, db', hr, hm', -⟩
      push Not at h
      obtain ⟨rfl, hnew⟩ := h
      rw [mem_staticKeys_iff] at hnew
      push Not at hnew
      have hheld := sscLocalAddAddr_new hm fun x hx => Bool.eq_false_iff.2 (hnew x hx)
      obtain rfl := Except.ok.inj (hheld.symm.trans hr)
      cases hm'
    exact ⟨iff_of_false hnot h, fun hr => absurd hr hnot⟩

/-- While the mutex is free, a function releases it exactly when it can afford its address, and
stores that address. -/
theorem releases_iff (hm : db.mutex = false) (op : DbOp) :
    (Releases env db op ↔ Affordable (staticKeys env.hash db) op)
      ∧ (Releases env db op → ∃ db', op.run env db = .ok db' ∧ db'.mutex = false
        ∧ staticKeys env.hash db' = storeKey (staticKeys env.hash db) op) := by
  have del : ∀ {op : SscOp} {p : PiMacEntry → Bool},
      Affordable (staticKeys env.hash db) (.table op) →
      storeKey (staticKeys env.hash db) (.table op) = staticKeys env.hash db →
      op.run env.hash db = delFromDyn p db → ¬ (DbOp.table op).AllocFails env.hash db → _ :=
    fun {op p} ha hk hr hf => releases_of_static hm ha hk
      (hr.trans (delFromDyn_ok hm p)) hm rfl fun h => absurd h hf
  cases op with
  | table op =>
    cases op with
    | sscAddDynAddr mem e =>
      obtain ⟨db', hr, hm', hs, hd⟩ := releases_add hm mem e
      exact releases_of_static hm trivial rfl hr hm' hs hd
    | sscLocalAddAddr mem e => exact releases_static hm mem e
    | sscDelAgeEntry e =>
      exact releases_of_static hm trivial rfl (sscDelAgeEntry_ok hm e) hm rfl False.elim
    | sscDelDynAddr => exact del trivial rfl rfl id
    | sscDelVlanAddr vlan => exact del trivial rfl rfl id
    | sscDelIntAddr phyId => exact del trivial rfl rfl id
  | sscDsConfInfo mem =>
    exact releases_of_static hm trivial rfl (run_send hm (by simp)) hm rfl fun _ => rfl
  | sscDsStaticInfo mem =>
    exact releases_of_static hm trivial rfl (run_send hm (by simp)) hm rfl fun _ => rfl
  | sscDsDynInfo mem =>
    exact releases_of_static hm trivial rfl (run_send hm (by simp)) hm rfl fun _ => rfl

end Step

/-! ## Every run -/

section Run

def MutexFree (s : Except Fault MacOpraClass) : Prop := ∃ db, s = .ok db ∧ db.mutex = false

def storedAt (hash : HashFn) : Except Fault MacOpraClass → Set Key
  | .ok db => staticKeys hash db
  | .error _ => ∅

/-- In a run from any database with the mutex free, every function finds the mutex free, returns
with it free and changes no table where its allocation fails, exactly when there is memory for every
static address that is not stored before. -/
theorem mutex_released_iff (env : SscEnv) (db₀ : MacOpraClass) (ops : List DbOp) :
    Runs.Each (dbStep env) (ReleasesAt env) (.ok { db₀ with mutex := false }) ops
      ↔ Runs.Each storeKey Affordable (staticKeys env.hash db₀) ops := by
  have hC : ∀ s op, MutexFree s → (ReleasesAt env s op ↔ Affordable (storedAt env.hash s) op) := by
    rintro _ op ⟨db, rfl, hm⟩
    rw [storedAt, ← (releases_iff hm op).1, ReleasesAt]
    exact ⟨fun ⟨_, heq, h⟩ => Except.ok.inj heq ▸ h, fun h => ⟨db, rfl, h⟩⟩
  have hstep : ∀ s op, MutexFree s → ReleasesAt env s op → MutexFree (dbStep env s op)
      ∧ storedAt env.hash (dbStep env s op) = storeKey (storedAt env.hash s) op := by
    rintro _ op ⟨db, rfl, hm⟩ ⟨_, heq, h⟩
    obtain rfl := Except.ok.inj heq
    obtain ⟨db', hr, hm', hk⟩ := (releases_iff hm op).2 h
    have hs : dbStep env (.ok db) op = .ok db' := hr
    rw [hs]
    exact ⟨⟨db', rfl, hm'⟩, hk⟩
  have hfree : MutexFree (.ok { db₀ with mutex := false }) := ⟨_, rfl, rfl⟩
  rw [Runs.each_image (g := id) (fun s op hs hc => (hstep s op hs hc).1) hC
    (fun s op hs hc => (hstep s op hs hc).2) ops _ hfree, List.map_id]
  rfl

/-- A static address for which there is no memory; the next function waits for ever. -/
theorem mutex_stays_held :
    let e : BaseStaticMac := ⟨#v[2, 0, 0, 0, 0, 1], 10, 3⟩
    sscLocalAddAddr (hashFunction .little 0) false e .blank
        = .ok { MacOpraClass.blank with mutex := true }
      ∧ ¬ Runs.Each (dbStep littleEnv) (ReleasesAt littleEnv) (.ok .blank)
        [.table (.sscLocalAddAddr false e), .table .sscDelDynAddr] := by
  intro e
  have hheld : sscLocalAddAddr (hashFunction .little 0) false e .blank
      = .ok { MacOpraClass.blank with mutex := true } :=
    sscLocalAddAddr_new rfl fun x hx => absurd hx (List.not_mem_nil)
  refine ⟨hheld, ?_⟩
  rintro ⟨⟨db, heq, -, db', hr, hm', -⟩, -⟩
  obtain rfl := Except.ok.inj heq
  obtain rfl := Except.ok.inj (hheld.symm.trans hr)
  cases hm'

end Run

end RookieMac.Ssc
