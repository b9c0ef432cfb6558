import RookieMac.HashTabMem
import RookieMac.Proofs.PiTable
import RookieMac.System

/-!
# PI's tables in memory are PI's tables

Every function does to the lists in memory what its counterpart does to the chains, and touches only
nodes that are allocated: a loop that frees the node at hand has read the next one, an insertion
that finds its key frees the node it was given, and one that does not links it. So in every run the
allocated nodes are those of the tables.
-/

namespace RookieMac.Pi

open CMem Hlist

variable {α : Type} [DecidableEq α]

namespace TblMem

variable {env : TblEnv α} {m : NodeMem α} {held : Finset α} {tbl : HeadId → List PiMacEntry}

/-! ## Insertion and deletion -/

section Table

theorem findHashKeyBody_overwrites {entry : α} (h : entry ∈ m.live) :
    Overwrites m (sameKey (m.val entry)) (setPort (m.val entry).portId) (fun _ => (1 : ℤ))
      (findHashKeyBody entry) := by
  intro a s ha
  have hassist : m.entry a = .ok (m.val a) := if_pos ha
  have hentry : m.entry entry = .ok (m.val entry) := if_pos h
  simp only [findHashKeyBody, hassist, hentry, bind, Except.bind]

variable (env) in
/-- A new node is linked, or freed where its key is found. -/
theorem insertHashTable_mem {entry : α} (h : Represents m {entry} tbl) (head : MacTblHead) :
    ∃ m', insertHashTable env entry head m
        = .ok (m', (Pi.insertHashTable env.hash (m.val entry) fun i => tbl (head, i)).1)
      ∧ Represents m' ∅ (setHead tbl head
        (Pi.insertHashTable env.hash (m.val entry) fun i => tbl (head, i)).2) := by
  have hlive : entry ∈ m.live := h.live_of_held (Finset.mem_singleton_self entry)
  have hentry : m.entry entry = .ok (m.val entry) := if_pos hlive
  set e := m.val entry with he
  set i := env.hash e.mac e.vlanId with hi
  unfold insertHashTable Pi.insertHashTable Pi.findHashKey
  simp only [hentry, bind, Except.bind, ← hi]
  rw [TblMem.findHashKey, h.checkWalk]
  rcases h.walk_overwrite (findHashKeyBody_overwrites hlive) (head, i) 0 with
    ⟨hnone, hw⟩ | ⟨chain, m', hsome, hw, hl, hv, h'⟩
  · obtain ⟨m', hm', h'⟩ := h.push (head, i) (Finset.mem_singleton_self entry)
    rw [hw, hnone]
    refine ⟨m', by simp [hm'], ?_⟩
    rw [Finset.erase_singleton, ← he, update_head] at h'
    simpa using h'
  · obtain ⟨m'', hm'', h''⟩ := h'.free (Finset.mem_singleton_self entry)
    rw [hw, hsome]
    refine ⟨m'', by simp [hm''], ?_⟩
    rw [Finset.erase_singleton, update_head] at h''
    simpa using h''

theorem findHashKeyDelBody_unlinks (entry : PiMacEntry) :
    Unlinks (sameEntryDel entry) true env.poison₁ env.poison₂ (fun _ => SUCC)
      (findHashKeyDelBody env entry) := by
  intro a m s ha
  have hassist : m.entry a = .ok (m.val a) := if_pos ha
  simp only [findHashKeyDelBody, hassist, bind, Except.bind]

variable (env) in
theorem delHashEntry_mem (h : Represents m held tbl) (entry : PiMacEntry) (head : MacTblHead) :
    ∃ m', delHashEntry env entry head m
        = .ok (m', (Pi.delHashEntry env.hash entry fun i => tbl (head, i)).1)
      ∧ Represents m' held (setHead tbl head
        (Pi.delHashEntry env.hash entry fun i => tbl (head, i)).2) := by
  obtain ⟨h2, h1⟩ := delHashEntry_eq env.hash entry fun i => tbl (head, i)
  rw [h1, h2]
  set i := env.hash entry.mac entry.vlanId with hi
  have hw : delHashEntry env entry head m
      = walk (head, i) (findHashKeyDelBody env entry) (m, ERR) := h.checkWalk _ _ _
  rw [hw]
  rcases h.walk_erase (findHashKeyDelBody_unlinks entry) (head, i) ERR with
    ⟨hno, hr⟩ | ⟨m', hsome, hr, h'⟩
  · refine ⟨m, ?_, ?_⟩
    · rw [hr, if_neg]
      rintro ⟨v, hv, hp⟩
      rw [hno v hv] at hp
      cases hp
    · rw [Chained.eraseFirst, List.eraseP_of_forall_not fun v hv => by simp [hno v hv],
        ← update_head, Function.update_eq_self]
      exact h
  · refine ⟨m', by rw [hr, if_pos hsome], ?_⟩
    rw [update_head] at h'
    exact h'

end Table

/-! ## Clearing -/

section Clear

/-- A callback that takes an entry out and frees it, as the other says. -/
def Clears (env : TblEnv α) (fn : ClearFn α) (data : List U8) (fn' : PiMacEntry → ℤ × Bool) :
    Prop :=
  ∀ a (m : NodeMem α), a ∈ m.live → fn data a m = if (fn' (m.val a)).2 then
    (do let m ← del env.poison₁ env.poison₂ a m; let m ← m.free a; .ok (m, SUCC))
    else .ok (m, ERR)

theorem clearDynMac_clears (data : List U8) :
    Clears env (clearDynMac env) data (Pi.clearDynMac data) :=
  fun _ _ _ => rfl

theorem clearVlanMac_clears (data : List U8) :
    Clears env (clearVlanMac env) data (Pi.clearVlanMac data) := by
  intro a m ha
  have hentry : m.entry a = .ok (m.val a) := if_pos ha
  simp only [clearVlanMac, Pi.clearVlanMac, hentry, bind, Except.bind]
  split_ifs <;> simp_all

theorem clearInterMac_clears (data : List U8) :
    Clears env (clearInterMac env) data (Pi.clearInterMac data) := by
  intro a m ha
  have hentry : m.entry a = .ok (m.val a) := if_pos ha
  simp only [clearInterMac, Pi.clearInterMac, hentry, bind, Except.bind]
  split_ifs <;> simp_all

variable {fn : ClearFn α} {data : List U8} {fn' : PiMacEntry → ℤ × Bool}

theorem clearBody_unlinks (h : Clears env fn data fn') :
    Unlinks (fun v => (fn' v).2) false env.poison₁ env.poison₂ (fun c : U32 => c - 1)
      (clearBody fn data) := by
  intro a m s ha
  have hfn := h a m ha
  rcases hp : (fn' (m.val a)).2 with _ | _
  · rw [hp] at hfn
    simp [clearBody, hfn, hp, bind, Except.bind, ERR]
  · rw [hp] at hfn
    rcases hd : del env.poison₁ env.poison₂ a m with f | m₁
    · simp [clearBody, hfn, hp, hd, bind, Except.bind]
    · rcases hf : m₁.free a with f | m₂ <;>
        simp [clearBody, hfn, hp, hd, hf, bind, Except.bind, SUCC]

/-- The counter goes down once for every entry taken out. -/
theorem clearChain_count (hfn : ∀ x, (fn' x).1 = 0 ↔ (fn' x).2 = true) :
    ∀ (chain : List PiMacEntry) (count : U32), (clearChain fn' chain count).2
      = (fun c : U32 => c - 1)^[chain.countP fun v => (fn' v).2] count
  | [], _ => rfl
  | x :: chain, count => by
    simp only [clearChain, clearChain_count hfn chain, List.countP_cons]
    by_cases hx : (fn' x).2 = true
    · rw [if_pos ((hfn x).2 hx), if_pos hx, Function.iterate_succ_apply]
    · rw [if_neg (mt (hfn x).1 hx), if_neg hx, Nat.add_zero]

theorem clearHeads_foldlM (h : Clears env fn data fn') (hfn : ∀ x, (fn' x).1 = 0 ↔ (fn' x).2 = true)
    (head : MacTblHead) :
    ∀ (is : List (Fin hashSize)) (m : NodeMem α) (tbl : HeadId → List PiMacEntry) (count : U32),
      Represents m held tbl →
      ∃ m', is.foldlM (fun s i => checkWalk (head, i) (clearBody fn data) s) (m, count)
          = .ok (m', (is.foldl (clearStep fn') (fun i => tbl (head, i), count)).2)
        ∧ Represents m' held (setHead tbl head
          (is.foldl (clearStep fn') (fun i => tbl (head, i), count)).1)
  | [], m, tbl, count, hr => by
    refine ⟨m, rfl, ?_⟩
    rw [List.foldl_nil, setHead_get]
    exact hr
  | i :: is, m, tbl, count, hr => by
    obtain ⟨m₁, hw, h₁⟩ := hr.walk_filter (clearBody_unlinks h) (head, i) count
    rw [update_head] at h₁
    obtain ⟨m', hm', h'⟩ := clearHeads_foldlM h hfn head is m₁ _
      ((fun c : U32 => c - 1)^[(tbl (head, i)).countP fun v => (fn' v).2] count) h₁
    rw [setHead_self] at hm' h'
    have hstep : clearStep fn' (fun i => tbl (head, i), count) i
        = (Function.update (fun i => tbl (head, i)) i ((tbl (head, i)).filter fun v => !(fn' v).2),
          (fun c : U32 => c - 1)^[(tbl (head, i)).countP fun v => (fn' v).2] count) := by
      rw [clearStep, clearChain_fst, clearChain_count hfn]
    refine ⟨m', ?_, ?_⟩
    · rw [List.foldlM_cons, List.foldl_cons, hr.checkWalk, hw, hstep, ← hm']
      rfl
    · rw [List.foldl_cons, hstep]
      simpa using h'

theorem clearHeads_mem (h : Clears env fn data fn') (hfn : ∀ x, (fn' x).1 = 0 ↔ (fn' x).2 = true)
    (head : MacTblHead) (count : U32) (hr : Represents m held tbl) :
    ∃ m', clearHeads fn data head (m, count)
        = .ok (m', (clearTable fn' (fun i => tbl (head, i)) count).2)
      ∧ Represents m' held (setHead tbl head (clearTable fn' (fun i => tbl (head, i)) count).1) := by
  rw [clearTable_eq, clearHeads]
  exact clearHeads_foldlM h hfn head (List.finRange hashSize) m tbl count hr

end Clear

/-! ## The callers -/

section Callers

variable {s : TblMem α} {db : PiDbMacInfo}

/-- The counters are those of the database, the lists in memory are its chains, and nothing else is
allocated. -/
structure Refines (s : TblMem α) (db : PiDbMacInfo) : Prop where
  dynCount : s.dynAddrCount = db.dynAddrCount
  staticCount : s.staticAddrCount = db.staticAddrCount
  mem : Represents s.mem ∅ (tables db.staticMacTblHead db.dynMacTblHead)

omit [DecidableEq α] in
theorem refines_init (m₀ : NodeMem α) (db₀ : PiDbMacInfo) :
    Refines (TblMem.piDefaultArgsInit m₀) (Pi.piDefaultArgsInit db₀) := by
  refine ⟨rfl, rfl, ?_⟩
  have htbl : tables (Pi.piDefaultArgsInit db₀).staticMacTblHead
      (Pi.piDefaultArgsInit db₀).dynMacTblHead = fun _ => [] := by
    funext ⟨head, i⟩
    cases head <;> rfl
  rw [htbl]
  exact .init m₀

variable (env) in
theorem insert_new (h : Represents m ∅ tbl) {tmp : α} (hx : tmp ∉ m.live) (e : PiMacEntry)
    (head : MacTblHead) :
    ∃ m', insertHashTable env tmp head (m.malloc tmp e)
        = .ok (m', (Pi.insertHashTable env.hash e fun i => tbl (head, i)).1)
      ∧ Represents m' ∅ (setHead tbl head
        (Pi.insertHashTable env.hash e fun i => tbl (head, i)).2) := by
  have hnew := h.malloc hx e
  rw [insert_empty_eq] at hnew
  have hval : (m.malloc tmp e).val tmp = e := Function.update_self _ _ _
  have hins := insertHashTable_mem env hnew head
  rwa [hval] at hins

variable (env) in
theorem addStatic_refines (h : Refines s db) {tmp : α} (hx : tmp ∉ s.mem.live) (e : PiMacEntry) :
    let r := Pi.insertHashTable env.hash e db.staticMacTblHead
    ∃ m', insertHashTable env tmp .static (s.mem.malloc tmp e) = .ok (m', r.1)
      ∧ Refines { s with
          mem := m', staticAddrCount := if r.1 = 0 then s.staticAddrCount + 1 else s.staticAddrCount }
        { db with
          staticMacTblHead := r.2
          staticAddrCount := if r.1 = 0 then db.staticAddrCount + 1 else db.staticAddrCount } := by
  intro r
  obtain ⟨m', hm', h'⟩ := insert_new env h.mem hx e .static
  rw [setHead_static] at h'
  exact ⟨m', hm', h.dynCount, by simp only [h.staticCount], h'⟩

theorem piLocalSetStaticAddr_refines (h : Refines s db) {tmp : α} (hx : tmp ∉ s.mem.live)
    (mem : Bool) (data : List U8) :
    ∃ s', piLocalSetStaticAddr env (if mem then some tmp else none) data s = .ok s'
      ∧ Refines s' (Pi.piLocalSetStaticAddr env.hash mem data db) := by
  cases mem with
  | false => exact ⟨s, rfl, h⟩
  | true =>
    obtain ⟨m', hm', h'⟩ := addStatic_refines env h hx { PiMacEntry.zero with
      portId := (BaseStaticMac.read data).portId, vlanId := (BaseStaticMac.read data).vlanId,
      mac := (BaseStaticMac.read data).mac }
    refine ⟨_, ?_, h'⟩
    simp only [piLocalSetStaticAddr, if_true, hm', bind, Except.bind]

theorem dealStaticInfo_refines (h : Refines s db) {tmp : α} (hx : tmp ∉ s.mem.live) (mem : Bool)
    (data : List U8) :
    ∃ s', dealStaticInfo env (if mem then some tmp else none) data s = .ok s'
      ∧ Refines s' (Pi.dealStaticInfo env.hash mem data db) := by
  cases mem with
  | false => exact ⟨s, rfl, h⟩
  | true =>
    obtain ⟨m', hm', h'⟩ := addStatic_refines env h hx
      (PiMacEntry.read (zeroFirst sizeofPiMacEntry (data.drop 4)))
    refine ⟨_, ?_, h'⟩
    simp only [dealStaticInfo, if_true, hm', bind, Except.bind]

theorem piAddLocalDyn_refines (h : Refines s db) {tmp : α} (hx : tmp ∉ s.mem.live) (mem : Bool)
    (data : PiMacEntry) :
    ∃ s', piAddLocalDyn env (if mem then some tmp else none) data s = .ok s'
      ∧ Refines s' (Pi.piAddLocalDyn env.hash mem data db) := by
  cases mem with
  | false => exact ⟨s, rfl, h⟩
  | true =>
    obtain ⟨m', hm', h'⟩ := insert_new env h.mem hx data .dyn
    rw [setHead_dyn] at h'
    have href : Refines
        { s with
          mem := m'
          dynAddrCount := if (Pi.insertHashTable env.hash data db.dynMacTblHead).1 = 0
            then s.dynAddrCount + 1 else s.dynAddrCount }
        (Pi.piAddLocalDyn env.hash true data db) :=
      ⟨by simp only [h.dynCount, Pi.piAddLocalDyn, if_true], h.staticCount, h'⟩
    refine ⟨_, ?_, href⟩
    simp only [piAddLocalDyn, if_true, hm', bind, Except.bind]
    rfl

theorem piDelLocalDyn_refines (h : Refines s db) (data : PiMacEntry) :
    ∃ s', piDelLocalDyn env data s = .ok s' ∧ Refines s' (Pi.piDelLocalDyn env.hash data db) := by
  obtain ⟨m', hm', h'⟩ := delHashEntry_mem env h.mem data .dyn
  rw [setHead_dyn] at h'
  have href : Refines
      { s with
        mem := m'
        dynAddrCount := if (Pi.delHashEntry env.hash data db.dynMacTblHead).1 = 0
          then s.dynAddrCount - 1 else s.dynAddrCount }
      (Pi.piDelLocalDyn env.hash data db) :=
    ⟨by simp only [h.dynCount, Pi.piDelLocalDyn], h.staticCount, h'⟩
  refine ⟨_, ?_, href⟩
  simp only [piDelLocalDyn, hm', bind, Except.bind]
  rfl

omit [DecidableEq α] in
theorem Refines.setDyn (h : Refines s db) {dyn : HashTbl × U32} {m₁ : NodeMem α}
    (h₁ : Represents m₁ ∅ (tables db.staticMacTblHead dyn.1)) :
    Refines { s with mem := m₁, dynAddrCount := dyn.2 } (db.setDyn dyn) :=
  ⟨rfl, h.staticCount, h₁⟩

omit [DecidableEq α] in
variable (db) in
theorem refines_setStatic {dyn stat : HashTbl × U32} {m₂ : NodeMem α}
    (h₂ : Represents m₂ ∅ (tables stat.1 dyn.1)) :
    Refines ⟨m₂, dyn.2, stat.2⟩ ((db.setDyn dyn).setStatic stat) :=
  ⟨rfl, rfl, h₂⟩

theorem callClearLocalMac_refines (h : Refines s db) (type : PiMacMsgid) {data : List U8}
    {fn : ClearFn α} {fn' : ClearMac} (hc : Clears env fn data (fn' data))
    (hfn : ∀ x, (fn' data x).1 = 0 ↔ (fn' data x).2 = true) :
    ∃ s', callClearLocalMac type data fn s = .ok s'
      ∧ Refines s' (Pi.callClearLocalMac type data fn' db) := by
  obtain ⟨m₁, hm₁, h₁⟩ := clearHeads_mem hc hfn .dyn s.dynAddrCount h.mem
  rw [tables_dyn, h.dynCount] at hm₁ h₁
  rw [setHead_dyn] at h₁
  obtain ⟨m₂, hm₂, h₂⟩ := clearHeads_mem hc hfn .static s.staticAddrCount h₁
  rw [tables_static, h.staticCount] at hm₂ h₂
  rw [setHead_static] at h₂
  by_cases ht : type = .macClearDyn
  · have href := h.setDyn h₁
    have hrun : callClearLocalMac type data fn s = .ok { s with
        mem := m₁
        dynAddrCount := (clearTable (fn' data) db.dynMacTblHead db.dynAddrCount).2 } := by
      rw [callClearLocalMac, h.dynCount, hm₁]
      simp only [bind, Except.bind, if_pos ht]
    rw [Pi.callClearLocalMac, if_pos ht]
    exact ⟨_, hrun, href⟩
  · have href := refines_setStatic db h₂
    have hrun : callClearLocalMac type data fn s = .ok ⟨m₂,
        (clearTable (fn' data) db.dynMacTblHead db.dynAddrCount).2,
        (clearTable (fn' data) db.staticMacTblHead db.staticAddrCount).2⟩ := by
      rw [callClearLocalMac, h.dynCount, hm₁]
      simp only [bind, Except.bind, if_neg ht, h.staticCount, hm₂]
    rw [Pi.callClearLocalMac, if_neg ht]
    exact ⟨_, hrun, href⟩

theorem clearLocalMac_refines (h : Refines s db) (type : PiMacMsgid) (data : List U8) :
    ∃ s', clearLocalMac env type data s = .ok s'
      ∧ Refines s' (Pi.clearLocalMac type data db) := by
  cases type with
  | macClearDyn =>
    exact callClearLocalMac_refines h _ (clearDynMac_clears data) (clearDynMac_freed data)
  | clearVlanMac =>
    exact callClearLocalMac_refines h _ (clearVlanMac_clears data) (clearVlanMac_freed data)
  | clearInterDyn =>
    exact callClearLocalMac_refines h _ (clearInterMac_clears data) (clearInterMac_freed data)
  | _ => exact ⟨s, rfl, h⟩

theorem showHead_mem (h : Represents m held tbl) (isStatic : Bool) (hd : HeadId)
    (rows : List MacRow) :
    showHead isStatic hd m rows = .ok (rows ++ (tbl hd).map (macRow isStatic)) := by
  have hv : Valid m.live (.first hd : Loc HeadId α) := trivial
  have hload : m.load (.first hd) = .ok (m.ptr (.first hd)) := if_pos hv
  have happend : ∀ (chain : List PiMacEntry) (rows : List MacRow),
      chain.foldl (fun rows assist => rows ++ [macRow isStatic assist]) rows
        = rows ++ chain.map (macRow isStatic) := by
    intro chain
    induction chain with
    | nil => simp
    | cons x chain ih => simp [ih]
  rw [showHead, hload, ← happend]
  exact h.forEach hd _ rows

theorem piShowAllMac_refines (h : Refines s db) :
    piShowAllMac s = .ok (Pi.piShowAllMac db) := by
  have hfold : ∀ (is : List (Fin hashSize)) (rows : List MacRow),
      is.foldlM (fun rows i => do
          let rows ← showHead true (.static, i) s.mem rows
          showHead false (.dyn, i) s.mem rows) rows
        = .ok (rows ++ is.flatMap fun i =>
          (db.staticMacTblHead i).map (macRow true) ++ (db.dynMacTblHead i).map (macRow false)) := by
    intro is
    induction is with
    | nil => exact fun rows => by simp [pure, Except.pure]
    | cons i is ih =>
      intro rows
      have hi : (showHead true (.static, i) s.mem rows >>= showHead false (.dyn, i) s.mem)
          = .ok (rows ++ (db.staticMacTblHead i).map (macRow true)
            ++ (db.dynMacTblHead i).map (macRow false)) := by
        rw [showHead_mem h.mem]
        exact showHead_mem h.mem false (.dyn, i) _
      rw [List.foldlM_cons, hi, List.flatMap_cons, ← List.append_assoc, ← List.append_assoc]
      exact ih _
  rw [piShowAllMac, hfold, List.nil_append, Pi.piShowAllMac]

end Callers

end TblMem

/-! ## Runs -/

section Runs

variable {env : TblEnv α}

/-- A call, with the address its `malloc` returns if there is memory. -/
def tblRun (env : TblEnv α) (s : TblMem α) (tmp : α) : PiOp → Except Hlist.Fault (TblMem α)
  | .piLocalSetStaticAddr mem data =>
    TblMem.piLocalSetStaticAddr env (if mem then some tmp else none) data s
  | .piAddLocalDyn mem data => TblMem.piAddLocalDyn env (if mem then some tmp else none) data s
  | .piDelLocalDyn data => TblMem.piDelLocalDyn env data s
  | .dealStaticInfo mem data => TblMem.dealStaticInfo env (if mem then some tmp else none) data s
  | .clearLocalMac type data => TblMem.clearLocalMac env type data s
  -- these do not touch the tables
  | .piLocalLearnSta _ | .piLocalSetAgetime _ | .dealConfInfo _ => .ok s

/-- `malloc` does not return the address of a node that is allocated. -/
def tblStep (env : TblEnv α) :
    Except Hlist.Fault (TblMem α) → α × PiOp → Option (Except Hlist.Fault (TblMem α))
  | .error _, _ => none
  | .ok s, (tmp, op) => if tmp ∈ s.mem.live then none else some (tblRun env s tmp op)

variable (env) in
theorem tblRun_refines {s : TblMem α} {db : PiDbMacInfo} (h : s.Refines db) {tmp : α}
    (hx : tmp ∉ s.mem.live) (op : PiOp) :
    ∃ s', tblRun env s tmp op = .ok s' ∧ s'.Refines (op.run env.hash db) := by
  cases op with
  | piLocalSetStaticAddr mem data => exact TblMem.piLocalSetStaticAddr_refines h hx mem data
  | piAddLocalDyn mem data => exact TblMem.piAddLocalDyn_refines h hx mem data
  | piDelLocalDyn data => exact TblMem.piDelLocalDyn_refines h data
  | dealStaticInfo mem data => exact TblMem.dealStaticInfo_refines h hx mem data
  | clearLocalMac type data => exact TblMem.clearLocalMac_refines h type data
  | piLocalLearnSta str => exact ⟨s, rfl, h.dynCount, h.staticCount, h.mem⟩
  | piLocalSetAgetime data => exact ⟨s, rfl, h.dynCount, h.staticCount, h.mem⟩
  | dealConfInfo data => exact ⟨s, rfl, h.dynCount, h.staticCount, h.mem⟩

theorem tblPath_refines {r r' : Except Hlist.Fault (TblMem α)} {es : List (α × PiOp)}
    (hp : Runs.Path (tblStep env) r es r') :
    ∀ (s : TblMem α) (db : PiDbMacInfo), r = .ok s → s.Refines db →
      ∃ s', r' = .ok s' ∧ s'.Refines ((es.map Prod.snd).foldl (PiOp.run env.hash) db) := by
  induction hp with
  | nil r => exact fun s db hr h => ⟨s, hr, h⟩
  | @cons r r₁ r₂ e es hstep _ ih =>
    rintro s db rfl h
    obtain ⟨tmp, op⟩ := e
    simp only [tblStep] at hstep
    split_ifs at hstep with hx
    obtain ⟨s₁, hs₁, h₁⟩ := tblRun_refines env h hx op
    exact ih s₁ _ ((Option.some.inj hstep).symm.trans hs₁) h₁

/-- In every run of PI's table functions no function touches a node that is not allocated or goes
round a cycle. The allocated nodes are those linked into the two tables, each in one place, so none
leaks and none is freed twice; they hold the chains, and the counters and the rows shown are those,
of the run on chains. -/
theorem tables_in_memory (env : TblEnv α) (m₀ : NodeMem α) (db₀ : PiDbMacInfo)
    {es : List (α × PiOp)} {r : Except Hlist.Fault (TblMem α)}
    (hp : Runs.Path (tblStep env) (.ok (.piDefaultArgsInit m₀)) es r) :
    let db := piRun env.hash db₀ (es.map Prod.snd)
    ∃ s t, r = .ok s ∧ Holds s.mem ∅ t
      ∧ (∀ h, (t h).map s.mem.val = tables db.staticMacTblHead db.dynMacTblHead h)
      ∧ s.dynAddrCount = db.dynAddrCount ∧ s.staticAddrCount = db.staticAddrCount
      ∧ s.piShowAllMac = .ok (piShowAllMac db) := by
  intro db
  obtain ⟨s, rfl, hs⟩ := tblPath_refines hp _ _ rfl (TblMem.refines_init m₀ db₀)
  obtain ⟨t, ht, hval⟩ := hs.mem
  exact ⟨s, t, rfl, ht, hval, hs.dynCount, hs.staticCount, TblMem.piShowAllMac_refines hs⟩

variable (env) in
theorem exists_tblPath [Infinite α] : ∀ (ops : List PiOp) (s : TblMem α) (db : PiDbMacInfo),
    s.Refines db → ∃ es r, es.map Prod.snd = ops ∧ Runs.Path (tblStep env) (.ok s) es r
  | [], s, _, _ => ⟨[], .ok s, rfl, .nil _⟩
  | op :: ops, s, db, h => by
    obtain ⟨tmp, hx⟩ := Infinite.exists_notMem_finset s.mem.live
    obtain ⟨s₁, hs₁, h₁⟩ := tblRun_refines env h hx op
    obtain ⟨es, r, hes, hp⟩ := exists_tblPath ops s₁ _ h₁
    have hstep : tblStep env (.ok s) (tmp, op) = some (.ok s₁) := by
      rw [tblStep, if_neg hx, hs₁]
    exact ⟨(tmp, op) :: es, r, by rw [List.map_cons, hes], .cons hstep hp⟩

/-- An address is learnt, moves to another port, and is aged out. -/
theorem tables_in_memory_learn :
    let env : TblEnv ℕ := ⟨hashFunction .little 0, 0, .next 0⟩
    let e : PiMacEntry := ⟨#v[2, 0, 0, 0, 0, 1], 1, 10, 3, 0⟩
    let m₀ : NodeMem ℕ := ⟨fun _ => none, fun _ => .next 0, ∅, fun _ => .zero⟩
    ∃ es r, es.map Prod.snd = [.piAddLocalDyn true e, .piAddLocalDyn true { e with portId := 4 },
        .piDelLocalDyn { e with portId := 4 }]
      ∧ Runs.Path (tblStep env) (.ok (.piDefaultArgsInit m₀)) es r
      ∧ ∃ s t, r = .ok s ∧ Holds s.mem ∅ t
        ∧ (∀ h, (t h).map s.mem.val = tables (piRun env.hash .blank (es.map Prod.snd)).staticMacTblHead
          (piRun env.hash .blank (es.map Prod.snd)).dynMacTblHead h) := by
  intro env e m₀
  obtain ⟨es, r, hes, hp⟩ := exists_tblPath env [.piAddLocalDyn true e,
    .piAddLocalDyn true { e with portId := 4 }, .piDelLocalDyn { e with portId := 4 }] _ _
    (TblMem.refines_init m₀ .blank)
  obtain ⟨s, t, hr, ht, hval, -⟩ := tables_in_memory env m₀ .blank hp
  exact ⟨es, r, hes, hp, s, t, hr, ht, hval⟩

end Runs

end RookieMac.Pi
