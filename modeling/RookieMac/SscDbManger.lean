import RookieMac.Public

/-!
# SSC's tables

`ssc_db_manger.c`. The database mutex is part of the state: taking it while it is held blocks for
ever, which is the fault `deadlock`. Each function takes and releases it where the source does, so
a path that returns without the release leaves it held. A function that allocates takes the outcome
of its allocation (`mem`).
-/

namespace RookieMac.Ssc

open CMem

/-- What can stop a component: waiting for a mutex nobody releases, indexing a handler table out of
bounds, calling a null handler. -/
inductive Fault
  | deadlock | outOfBounds | nullCall
  deriving DecidableEq

inductive SscMacFunc
  | sscAddStaticFunc | sscClearDynFunc | sscClearVlanFunc | sscClearInterFunc
  | sscModifyInterLeanSta | sscModifyAgeTime | sscRecePiDsStart | sscRecePiDsData | sscRecePiDsEnd
  deriving DecidableEq

structure MacOpraClass where
  ageTime : U32
  portStatus : Fin (portNum + 1) → U32
  dynAddrCount : U32
  staticAddrCount : U32
  staticMacTblHead : HashTbl
  dynMacTblHead : HashTbl
  sscMacFunc : Fin piMsgidMacIdNum → Option SscMacFunc
  mutex : Bool

def pthreadMutexLock (dbInfo : MacOpraClass) : Except Fault MacOpraClass :=
  if dbInfo.mutex then .error .deadlock else .ok { dbInfo with mutex := true }

def pthreadMutexUnlock (dbInfo : MacOpraClass) : MacOpraClass := { dbInfo with mutex := false }

/-- The comparison of `find_hash_key`. -/
def sameKey (mac : Mac) (vlanId : U32) (assist : PiMacEntry) : Bool :=
  memcmp macLen assist.mac.toList mac.toList = 0 ∧ assist.vlanId = vlanId

/-- The comparison of `find_hash_key_dyn`. -/
def sameKeyDyn (entry assist : PiMacEntry) : Bool :=
  strncmp macLen assist.mac.toList entry.mac.toList = 0 ∧ assist.vlanId = entry.vlanId

def findHashKey (index : Fin hashSize) (entry : BaseStaticMac) (head : HashTbl) : ℤ × HashTbl :=
  match Chained.modifyFirst (sameKey entry.mac entry.vlanId) (setPort entry.portId)
      (head index) with
  | some chain => (SUCC, Function.update head index chain)
  | none => (ERR, head)

def findHashKeyDyn (index : Fin hashSize) (entry : PiMacEntry) (head : HashTbl) : ℤ × HashTbl :=
  match Chained.modifyFirst (sameKeyDyn entry) (setPort entry.portId) (head index) with
  | some chain => (SUCC, Function.update head index chain)
  | none => (ERR, head)

section Insert

variable (hash : HashFn)

def sscAddDynAddr (mem : Bool) (entry : PiMacEntry) (dbInfo : MacOpraClass) :
    Except Fault MacOpraClass := do
  let index := hash entry.mac entry.vlanId
  let dbInfo ← pthreadMutexLock dbInfo
  let (ret, head) := findHashKeyDyn index entry dbInfo.dynMacTblHead
  if ret = SUCC then
    return pthreadMutexUnlock { dbInfo with dynMacTblHead := head }
  else if mem then
    return pthreadMutexUnlock
      { dbInfo with dynMacTblHead := Function.update head index (entry :: head index) }
  else return pthreadMutexUnlock dbInfo

def sscLocalAddAddr (mem : Bool) (entry : BaseStaticMac) (dbInfo : MacOpraClass) :
    Except Fault MacOpraClass := do
  let index := hash entry.mac entry.vlanId
  let dbInfo ← pthreadMutexLock dbInfo
  let (ret, head) := findHashKey index entry dbInfo.staticMacTblHead
  if ret = SUCC then
    return pthreadMutexUnlock { dbInfo with staticMacTblHead := head }
  else if mem then
    let tmp : PiMacEntry := ⟨entry.mac, 0, entry.vlanId, entry.portId, staticType⟩
    return pthreadMutexUnlock
      { dbInfo with staticMacTblHead := Function.update head index (tmp :: head index) }
  -- this branch does not release the mutex
  else return dbInfo

def sscDelAgeEntry (entry : PiMacEntry) (dbInfo : MacOpraClass) : Except Fault MacOpraClass := do
  let index := hash entry.mac entry.vlanId
  let dbInfo ← pthreadMutexLock dbInfo
  let chain := (dbInfo.dynMacTblHead index).filter fun assist =>
    !sameKey entry.mac entry.vlanId assist
  return pthreadMutexUnlock
    { dbInfo with dynMacTblHead := Function.update dbInfo.dynMacTblHead index chain }

end Insert

/-- The loop of the three functions below: each chain loses the entries `p` picks. -/
def delFromDyn (p : PiMacEntry → Bool) (dbInfo : MacOpraClass) : Except Fault MacOpraClass := do
  let dbInfo ← pthreadMutexLock dbInfo
  return pthreadMutexUnlock
    { dbInfo with dynMacTblHead := fun i =>
        (dbInfo.dynMacTblHead i).filter fun assist => !p assist }

def sscDelDynAddr (dbInfo : MacOpraClass) : Except Fault MacOpraClass :=
  delFromDyn (fun _ => true) dbInfo

def sscDelVlanAddr (vlan : U32) (dbInfo : MacOpraClass) : Except Fault MacOpraClass :=
  delFromDyn (fun assist => assist.vlanId = vlan) dbInfo

def sscDelIntAddr (phyId : U32) (dbInfo : MacOpraClass) : Except Fault MacOpraClass :=
  delFromDyn (fun assist => assist.portId = phyId) dbInfo

def sscDbInit (dbInfo : MacOpraClass) : MacOpraClass :=
  { dbInfo with
    dynAddrCount := 0
    staticAddrCount := 0
    staticMacTblHead := Chained.empty
    dynMacTblHead := Chained.empty
    mutex := false }

/-! ## What the functions do while the mutex is free -/

section Spec

variable {hash : HashFn} {db : MacOpraClass}

@[simp] theorem sameKey_iff {mac : Mac} {vlanId : U32} {assist : PiMacEntry} :
    sameKey mac vlanId assist = true ↔ assist.key = (mac, vlanId) := by
  simp only [sameKey, decide_eq_true_eq, PiMacEntry.key, Prod.mk.injEq]
  rw [memcmp_eq_zero_iff (by simp) (by simp), Vector.toList_inj]

/-- The MAC comparison of a dynamic insertion stops at a zero byte. -/
theorem sameKeyDyn_iff {entry assist : PiMacEntry} : sameKeyDyn entry assist = true
    ↔ cstr assist.mac.toList = cstr entry.mac.toList ∧ assist.vlanId = entry.vlanId := by
  simp only [sameKeyDyn, decide_eq_true_eq]
  rw [strncmp_eq_zero_iff (by simp) (by simp)]

theorem lock_free (hm : db.mutex = false) :
    pthreadMutexLock db = .ok { db with mutex := true } := by
  simp [pthreadMutexLock, hm]

theorem lock_held (hm : db.mutex = true) : pthreadMutexLock db = .error .deadlock := by
  simp [pthreadMutexLock, hm]

theorem lock_eq {db' : MacOpraClass} (h : pthreadMutexLock db = .ok db') :
    db.mutex = false ∧ db' = { db with mutex := true } := by
  rcases hm : db.mutex with _ | _
  · rw [lock_free hm, Except.ok.injEq] at h
    exact ⟨rfl, h.symm⟩
  · rw [lock_held hm] at h
    cases h

/-- What follows the lock runs with the mutex held. -/
theorem lock_bind {β : Type} {body : MacOpraClass → Except Fault β} {b : β}
    (h : pthreadMutexLock db >>= body = .ok b) :
    db.mutex = false ∧ body { db with mutex := true } = .ok b := by
  rcases hl : pthreadMutexLock db with fault | db₁
  · rw [hl] at h
    cases h
  · rw [hl] at h
    obtain ⟨hm, rfl⟩ := lock_eq hl
    exact ⟨hm, h⟩

theorem lock_bind_error {β : Type} {f : MacOpraClass → β} {fault : Fault}
    (h : (pthreadMutexLock db >>= fun db => Except.ok (f db)) = .error fault) :
    fault = .deadlock := by
  rcases hm : db.mutex with _ | _
  · rw [lock_free hm] at h
    cases h
  · rw [lock_held hm] at h
    cases h
    rfl

theorem unlock_lock (hm : db.mutex = false) :
    pthreadMutexUnlock { db with mutex := true } = db := by
  rw [pthreadMutexUnlock, ← hm]

theorem sscAddDynAddr_ok (hm : db.mutex = false) (entry : PiMacEntry) :
    sscAddDynAddr hash true entry db = .ok { db with
      dynMacTblHead := Chained.upsert (sameKeyDyn entry) (setPort entry.portId) entry
        (hash entry.mac entry.vlanId) db.dynMacTblHead } := by
  unfold sscAddDynAddr findHashKeyDyn Chained.upsert
  rw [lock_free hm]
  rcases hc : Chained.modifyFirst (sameKeyDyn entry) (setPort entry.portId)
    (db.dynMacTblHead (hash entry.mac entry.vlanId)) with _ | chain <;>
    simp [hc, hm, bind, Except.bind, pure, Except.pure, pthreadMutexUnlock, SUCC, ERR]

/-- Without memory a new entry is not added. -/
theorem sscAddDynAddr_new (hm : db.mutex = false) {entry : PiMacEntry}
    (hno : ∀ x ∈ db.dynMacTblHead (hash entry.mac entry.vlanId), sameKeyDyn entry x = false) :
    sscAddDynAddr hash false entry db = .ok db := by
  unfold sscAddDynAddr findHashKeyDyn
  rw [lock_free hm]
  simp [Chained.modifyFirst_eq_none.2 hno, bind, Except.bind, pure, Except.pure, SUCC, ERR,
    unlock_lock hm]

/-- Where an entry is found no memory is needed. -/
theorem sscAddDynAddr_found (hm : db.mutex = false) {entry : PiMacEntry}
    (hsome : ∃ x ∈ db.dynMacTblHead (hash entry.mac entry.vlanId), sameKeyDyn entry x = true) :
    sscAddDynAddr hash false entry db = sscAddDynAddr hash true entry db := by
  unfold sscAddDynAddr findHashKeyDyn
  rw [lock_free hm]
  rcases hc : Chained.modifyFirst (sameKeyDyn entry) (setPort entry.portId)
    (db.dynMacTblHead (hash entry.mac entry.vlanId)) with _ | chain
  · obtain ⟨x, hx, hs⟩ := hsome
    rw [Chained.modifyFirst_eq_none.1 hc x hx] at hs
    cases hs
  · simp [hc, bind, Except.bind, pure, Except.pure, SUCC]

theorem sscAddDynAddr_noMem (hm : db.mutex = false) (entry : PiMacEntry) :
    sscAddDynAddr hash false entry db = .ok db
      ∨ sscAddDynAddr hash false entry db = sscAddDynAddr hash true entry db := by
  by_cases h : ∃ x ∈ db.dynMacTblHead (hash entry.mac entry.vlanId), sameKeyDyn entry x = true
  · exact .inr (sscAddDynAddr_found hm h)
  · push Not at h
    exact .inl (sscAddDynAddr_new hm fun x hx => Bool.eq_false_iff.2 (h x hx))

theorem sscLocalAddAddr_ok (hm : db.mutex = false) (entry : BaseStaticMac) :
    sscLocalAddAddr hash true entry db = .ok { db with
      staticMacTblHead := Chained.upsert (sameKey entry.mac entry.vlanId) (setPort entry.portId)
        ⟨entry.mac, 0, entry.vlanId, entry.portId, staticType⟩
        (hash entry.mac entry.vlanId) db.staticMacTblHead } := by
  unfold sscLocalAddAddr findHashKey Chained.upsert
  rw [lock_free hm]
  rcases hc : Chained.modifyFirst (sameKey entry.mac entry.vlanId) (setPort entry.portId)
    (db.staticMacTblHead (hash entry.mac entry.vlanId)) with _ | chain <;>
    simp [hc, hm, bind, Except.bind, pure, Except.pure, pthreadMutexUnlock, SUCC, ERR]

/-- Without memory a new entry is not added, and the mutex stays held. -/
theorem sscLocalAddAddr_new (hm : db.mutex = false) {entry : BaseStaticMac}
    (hno : ∀ x ∈ db.staticMacTblHead (hash entry.mac entry.vlanId),
      sameKey entry.mac entry.vlanId x = false) :
    sscLocalAddAddr hash false entry db = .ok { db with mutex := true } := by
  unfold sscLocalAddAddr findHashKey
  rw [lock_free hm]
  simp [Chained.modifyFirst_eq_none.2 hno, bind, Except.bind, pure, Except.pure, SUCC, ERR]

theorem sscLocalAddAddr_found (hm : db.mutex = false) {entry : BaseStaticMac}
    (hsome : ∃ x ∈ db.staticMacTblHead (hash entry.mac entry.vlanId),
      sameKey entry.mac entry.vlanId x = true) :
    sscLocalAddAddr hash false entry db = sscLocalAddAddr hash true entry db := by
  unfold sscLocalAddAddr findHashKey
  rw [lock_free hm]
  rcases hc : Chained.modifyFirst (sameKey entry.mac entry.vlanId) (setPort entry.portId)
    (db.staticMacTblHead (hash entry.mac entry.vlanId)) with _ | chain
  · obtain ⟨x, hx, hs⟩ := hsome
    rw [Chained.modifyFirst_eq_none.1 hc x hx] at hs
    cases hs
  · simp [hc, bind, Except.bind, pure, Except.pure, SUCC]

/-- Without memory the function overwrites an entry it finds, or leaves the mutex held. -/
theorem sscLocalAddAddr_noMem (hm : db.mutex = false) (entry : BaseStaticMac) :
    sscLocalAddAddr hash false entry db = .ok { db with mutex := true }
      ∨ sscLocalAddAddr hash false entry db = sscLocalAddAddr hash true entry db := by
  by_cases h : ∃ x ∈ db.staticMacTblHead (hash entry.mac entry.vlanId),
      sameKey entry.mac entry.vlanId x = true
  · exact .inr (sscLocalAddAddr_found hm h)
  · push Not at h
    exact .inl (sscLocalAddAddr_new hm fun x hx => Bool.eq_false_iff.2 (h x hx))

theorem sscDelAgeEntry_ok (hm : db.mutex = false) (entry : PiMacEntry) :
    sscDelAgeEntry hash entry db = .ok { db with
      dynMacTblHead := Function.update db.dynMacTblHead (hash entry.mac entry.vlanId)
        ((db.dynMacTblHead (hash entry.mac entry.vlanId)).filter fun assist =>
          !sameKey entry.mac entry.vlanId assist) } := by
  unfold sscDelAgeEntry
  rw [lock_free hm]
  simp [hm, bind, Except.bind, pure, Except.pure, pthreadMutexUnlock]

theorem delFromDyn_ok (hm : db.mutex = false) (p : PiMacEntry → Bool) :
    delFromDyn p db = .ok { db with
      dynMacTblHead := fun i => (db.dynMacTblHead i).filter fun assist => !p assist } := by
  unfold delFromDyn
  rw [lock_free hm]
  simp [hm, bind, Except.bind, pure, Except.pure, pthreadMutexUnlock]

/-! What each does if it returns. -/

section Returned

variable {db' : MacOpraClass}

/-- An insertion that returns has found the mutex free; without memory it may do nothing. -/
theorem sscAddDynAddr_cases {mem : Bool} {entry : PiMacEntry}
    (h : sscAddDynAddr hash mem entry db = .ok db') :
    db.mutex = false ∧ (db' = db ∨ db' = { db with
      dynMacTblHead := Chained.upsert (sameKeyDyn entry) (setPort entry.portId) entry
        (hash entry.mac entry.vlanId) db.dynMacTblHead }) := by
  have hm := (lock_bind h).1
  have hok : sscAddDynAddr hash true entry db = _ := sscAddDynAddr_ok hm entry
  refine ⟨hm, ?_⟩
  cases mem with
  | true => exact .inr (Except.ok.inj (h.symm.trans hok))
  | false =>
    rcases sscAddDynAddr_noMem hm entry with hn | hn
    · exact .inl (Except.ok.inj (h.symm.trans hn))
    · exact .inr (Except.ok.inj (h.symm.trans (hn.trans hok)))

/-- An addition that returns has found the mutex free; without memory it finds its key, or leaves the
mutex held. -/
theorem sscLocalAddAddr_cases {mem : Bool} {entry : BaseStaticMac}
    (h : sscLocalAddAddr hash mem entry db = .ok db') :
    db.mutex = false ∧ (mem = false ∧ db' = { db with mutex := true } ∨ db' = { db with
        staticMacTblHead := Chained.upsert (sameKey entry.mac entry.vlanId) (setPort entry.portId)
          ⟨entry.mac, 0, entry.vlanId, entry.portId, staticType⟩
          (hash entry.mac entry.vlanId) db.staticMacTblHead }
      ∧ (mem = false → ∃ x ∈ db.staticMacTblHead (hash entry.mac entry.vlanId),
        sameKey entry.mac entry.vlanId x = true)) := by
  have hm := (lock_bind h).1
  have hok : sscLocalAddAddr hash true entry db = _ := sscLocalAddAddr_ok hm entry
  refine ⟨hm, ?_⟩
  cases mem with
  | true => exact .inr ⟨Except.ok.inj (h.symm.trans hok), nofun⟩
  | false =>
    by_cases hsome : ∃ x ∈ db.staticMacTblHead (hash entry.mac entry.vlanId),
        sameKey entry.mac entry.vlanId x = true
    · have hfound := sscLocalAddAddr_found hm hsome
      exact .inr ⟨Except.ok.inj (h.symm.trans (hfound.trans hok)), fun _ => hsome⟩
    · push Not at hsome
      have hnew := sscLocalAddAddr_new hm fun x hx => Bool.eq_false_iff.2 (hsome x hx)
      exact .inl ⟨rfl, Except.ok.inj (h.symm.trans hnew)⟩

theorem sscDelAgeEntry_eq {entry : PiMacEntry} (h : sscDelAgeEntry hash entry db = .ok db') :
    db.mutex = false ∧ db' = { db with
      dynMacTblHead := Function.update db.dynMacTblHead (hash entry.mac entry.vlanId)
        ((db.dynMacTblHead (hash entry.mac entry.vlanId)).filter fun assist =>
          !sameKey entry.mac entry.vlanId assist) } := by
  have hm := (lock_bind h).1
  exact ⟨hm, Except.ok.inj (h.symm.trans (sscDelAgeEntry_ok hm entry))⟩

theorem delFromDyn_eq {p : PiMacEntry → Bool} (h : delFromDyn p db = .ok db') :
    db.mutex = false ∧ db' = { db with
      dynMacTblHead := fun i => (db.dynMacTblHead i).filter fun assist => !p assist } := by
  have hm := (lock_bind h).1
  exact ⟨hm, Except.ok.inj (h.symm.trans (delFromDyn_ok hm p))⟩

end Returned

end Spec

end RookieMac.Ssc
