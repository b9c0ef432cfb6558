import RookieMac.SscDbMem
import RookieMac.Proofs.SscTable

/-!
# SSC's tables in memory are SSC's tables

The functions of SSC's database do to the lists in memory what they do to the chains, and block for
ever on the mutex where those do. A function that finds the mutex free touches only nodes that are
allocated, and leaves the nodes of the tables as the only ones allocated.
-/

namespace RookieMac.Ssc

open CMem Hlist

variable {α : Type} [DecidableEq α] {env : TblEnv α}

namespace DbMem

structure Refines (s : DbMem α) (db : MacOpraClass) : Prop where
  mutex : s.mutex = db.mutex
  mem : Represents s.mem ∅ (tables db.staticMacTblHead db.dynMacTblHead)

section Nodes

variable {m : NodeMem α} {tbl : HeadId → List PiMacEntry}

theorem findBody_overwrites (m : NodeMem α) (same : PiMacEntry → Bool) (port : U32) :
    Overwrites m same (setPort port) (fun _ => SUCC) (findBody same port) := by
  intro a s ha
  have hassist : m.entry a = .ok (m.val a) := if_pos ha
  simp only [findBody, hassist, bind, Except.bind]

variable (env) in
theorem delBody_unlinks (p : PiMacEntry → Bool) :
    Unlinks p false env.poison₁ env.poison₂ id (delBody env p) := by
  intro a m s ha
  have hassist : m.entry a = .ok (m.val a) := if_pos ha
  simp only [delBody, hassist, bind, Except.bind, id]

/-- What a search does: it overwrites what it finds. -/
theorem find_mem (h : Represents m ∅ tbl) (head : MacTblHead) (i : Fin hashSize)
    (same : PiMacEntry → Bool) (port : U32) :
    (Chained.modifyFirst same (setPort port) (tbl (head, i)) = none
        ∧ checkWalk (head, i) (findBody same port) (m, ERR) = .ok (m, ERR))
      ∨ ∃ chain m', Chained.modifyFirst same (setPort port) (tbl (head, i)) = some chain
        ∧ checkWalk (head, i) (findBody same port) (m, ERR) = .ok (m', SUCC)
        ∧ Represents m' ∅
          (setHead tbl head (Function.update (fun i => tbl (head, i)) i chain)) := by
  rw [h.checkWalk]
  rcases h.walk_overwrite (findBody_overwrites m same port) (head, i) ERR with
    hn | ⟨chain, m', hsome, hw, -, -, h'⟩
  · exact .inl hn
  · rw [update_head] at h'
    exact .inr ⟨chain, m', hsome, hw, h'⟩

theorem push_mem (h : Represents m ∅ tbl) {tmp : α} (hx : tmp ∉ m.live) (head : MacTblHead)
    (i : Fin hashSize) (e : PiMacEntry) :
    ∃ m', push tmp (head, i) (m.malloc tmp e) = .ok m'
      ∧ Represents m' ∅ (setHead tbl head
        (Function.update (fun i => tbl (head, i)) i (e :: tbl (head, i)))) := by
  have hnew := h.malloc hx e
  have hval : (m.malloc tmp e).val tmp = e := Function.update_self _ _ _
  obtain ⟨m', hm', h'⟩ := hnew.push (head, i) (Finset.mem_insert_self tmp ∅)
  rw [insert_empty_eq, Finset.erase_singleton, hval, update_head] at h'
  exact ⟨m', hm', h'⟩

variable (env) in
theorem delete_mem (h : Represents m ∅ tbl) (head : MacTblHead) (i : Fin hashSize)
    (p : PiMacEntry → Bool) (u : Unit) :
    ∃ m', checkWalk (head, i) (delBody env p) (m, u) = .ok (m', ())
      ∧ Represents m' ∅ (setHead tbl head (Function.update (fun i => tbl (head, i)) i
        ((tbl (head, i)).filter fun v => !p v))) := by
  obtain ⟨m', hw, h'⟩ := h.walk_filter (delBody_unlinks env p) (head, i) u
  rw [update_head] at h'
  exact ⟨m', by rw [h.checkWalk, hw], h'⟩

variable (env) in
theorem deleteAll_mem (p : PiMacEntry → Bool) (head : MacTblHead) :
    ∀ (is : List (Fin hashSize)) (m : NodeMem α) (tbl : HeadId → List PiMacEntry), is.Nodup →
      Represents m ∅ tbl →
      ∃ m', is.foldlM (fun r i => checkWalk (head, i) (delBody env p) r) (m, ()) = .ok (m', ())
        ∧ Represents m' ∅ (setHead tbl head fun i =>
          if i ∈ is then (tbl (head, i)).filter fun v => !p v else tbl (head, i))
  | [], m, tbl, _, h => by
    refine ⟨m, rfl, ?_⟩
    simpa [setHead_get] using h
  | i :: is, m, tbl, hnd, h => by
    obtain ⟨hi, hnd⟩ := List.nodup_cons.1 hnd
    obtain ⟨m₁, hm₁, h₁⟩ := delete_mem env h head i p ()
    obtain ⟨m', hm', h'⟩ := deleteAll_mem p head is m₁ _ hnd h₁
    refine ⟨m', ?_, ?_⟩
    · rw [List.foldlM_cons, hm₁]
      exact hm'
    · convert h' using 1
      rw [setHead_setHead]
      congr 1
      funext j
      rcases eq_or_ne j i with rfl | hj
      · simp [setHead, hi]
      · simp [setHead, hj]

end Nodes

/-! ## The functions -/

section Functions

variable {s : DbMem α} {db : MacOpraClass}

/-- Where a function leads in memory and on the chains: to states that refine one another, or to the
same wait for the mutex. -/
def Agrees (r : Except DbFault (DbMem α)) (r' : Except Fault MacOpraClass) : Prop :=
  (∃ s' db', r = .ok s' ∧ r' = .ok db' ∧ Refines s' db')
    ∨ r = .error .deadlock ∧ r' = .error .deadlock

theorem err_ne_succ : ERR ≠ SUCC := by decide

omit [DecidableEq α] in
theorem lock_free_mem (hm : s.mutex = false) : s.lock = .ok { s with mutex := true } := by
  simp [lock, hm]

omit [DecidableEq α] in
theorem lock_held_mem (hm : s.mutex = true) : s.lock = .error .deadlock := by
  simp [lock, hm]

theorem sscAddDynAddr_agrees (h : Refines s db) {tmp : α} (hx : tmp ∉ s.mem.live) (mem : Bool)
    (entry : PiMacEntry) :
    Agrees (sscAddDynAddr env (if mem then some tmp else none) entry s)
      (Ssc.sscAddDynAddr env.hash mem entry db) := by
  unfold sscAddDynAddr Ssc.sscAddDynAddr findHashKeyDyn Ssc.findHashKeyDyn
  rcases hm : db.mutex with _ | _
  · rw [lock_free_mem (h.mutex.trans hm), lock_free hm]
    rcases find_mem h.mem .dyn (env.hash entry.mac entry.vlanId) (sameKeyDyn entry) entry.portId with
      ⟨hn, hw⟩ | ⟨chain, m', hs, hw, h'⟩
    · simp only [tables] at hn
      cases mem with
      | false =>
        refine .inl ⟨{ s with mutex := false }, { db with mutex := false }, ?_, ?_, rfl, h.mem⟩
        · simp [hw, err_ne_succ, onMem, Except.mapError, bind, Except.bind, pure, Except.pure, unlock]
        · simp [hn, err_ne_succ, bind, Except.bind, pure, Except.pure, pthreadMutexUnlock]
      | true =>
        obtain ⟨m', hm', h'⟩ := push_mem h.mem hx .dyn (env.hash entry.mac entry.vlanId) entry
        rw [setHead_dyn, tables_dyn] at h'
        refine .inl ⟨⟨m', false⟩, { db with
          dynMacTblHead := Function.update db.dynMacTblHead (env.hash entry.mac entry.vlanId)
            (entry :: db.dynMacTblHead (env.hash entry.mac entry.vlanId))
          mutex := false }, ?_, ?_, rfl, h'⟩
        · simp [hw, hm', err_ne_succ, onMem, Except.mapError, bind, Except.bind, pure, Except.pure,
            unlock]
        · simp [hn, err_ne_succ, bind, Except.bind, pure, Except.pure, pthreadMutexUnlock]
    · simp only [tables] at hs
      rw [setHead_dyn, tables_dyn] at h'
      refine .inl ⟨⟨m', false⟩, { db with
        dynMacTblHead := Function.update db.dynMacTblHead (env.hash entry.mac entry.vlanId) chain
        mutex := false }, ?_, ?_, rfl, h'⟩
      · simp [hw, onMem, Except.mapError, bind, Except.bind, pure, Except.pure, unlock]
      · simp [hs, bind, Except.bind, pure, Except.pure, pthreadMutexUnlock]
  · rw [lock_held_mem (h.mutex.trans hm), lock_held hm]
    exact .inr ⟨rfl, rfl⟩

theorem sscLocalAddAddr_agrees (h : Refines s db) {tmp : α} (hx : tmp ∉ s.mem.live) (mem : Bool)
    (entry : BaseStaticMac) :
    Agrees (sscLocalAddAddr env (if mem then some tmp else none) entry s)
      (Ssc.sscLocalAddAddr env.hash mem entry db) := by
  unfold sscLocalAddAddr Ssc.sscLocalAddAddr findHashKey Ssc.findHashKey
  generalize (⟨entry.mac, 0, entry.vlanId, entry.portId, staticType⟩ : PiMacEntry) = e
  rcases hm : db.mutex with _ | _
  · rw [lock_free_mem (h.mutex.trans hm), lock_free hm]
    rcases find_mem h.mem .static (env.hash entry.mac entry.vlanId)
      (sameKey entry.mac entry.vlanId) entry.portId with ⟨hn, hw⟩ | ⟨chain, m', hs, hw, h'⟩
    · simp only [tables] at hn
      cases mem with
      | false =>
        refine .inl ⟨{ s with mutex := true }, { db with mutex := true }, ?_, ?_, rfl, h.mem⟩
        · simp [hw, err_ne_succ, onMem, Except.mapError, bind, Except.bind, pure, Except.pure]
        · simp [hn, err_ne_succ, bind, Except.bind, pure, Except.pure]
      | true =>
        obtain ⟨m', hm', h'⟩ := push_mem h.mem hx .static (env.hash entry.mac entry.vlanId) e
        rw [setHead_static, tables_static] at h'
        refine .inl ⟨⟨m', false⟩, { db with
          staticMacTblHead := Function.update db.staticMacTblHead (env.hash entry.mac entry.vlanId)
            (e :: db.staticMacTblHead (env.hash entry.mac entry.vlanId))
          mutex := false }, ?_, ?_, rfl, h'⟩
        · simp [hw, hm', err_ne_succ, onMem, Except.mapError, bind, Except.bind, pure, Except.pure,
            unlock]
        · simp [hn, err_ne_succ, bind, Except.bind, pure, Except.pure, pthreadMutexUnlock]
    · simp only [tables] at hs
      rw [setHead_static, tables_static] at h'
      refine .inl ⟨⟨m', false⟩, { db with
        staticMacTblHead := Function.update db.staticMacTblHead (env.hash entry.mac entry.vlanId)
          chain
        mutex := false }, ?_, ?_, rfl, h'⟩
      · simp [hw, onMem, Except.mapError, bind, Except.bind, pure, Except.pure, unlock]
      · simp [hs, bind, Except.bind, pure, Except.pure, pthreadMutexUnlock]
  · rw [lock_held_mem (h.mutex.trans hm), lock_held hm]
    exact .inr ⟨rfl, rfl⟩

theorem sscDelAgeEntry_agrees (h : Refines s db) (entry : PiMacEntry) :
    Agrees (sscDelAgeEntry env entry s) (Ssc.sscDelAgeEntry env.hash entry db) := by
  unfold sscDelAgeEntry Ssc.sscDelAgeEntry
  rcases hm : db.mutex with _ | _
  · rw [lock_free_mem (h.mutex.trans hm), lock_free hm]
    obtain ⟨m', hw, h'⟩ := delete_mem env h.mem .dyn (env.hash entry.mac entry.vlanId)
      (sameKey entry.mac entry.vlanId) ()
    rw [setHead_dyn, tables_dyn] at h'
    refine .inl ⟨⟨m', false⟩, { db with
      dynMacTblHead := Function.update db.dynMacTblHead (env.hash entry.mac entry.vlanId)
        ((db.dynMacTblHead (env.hash entry.mac entry.vlanId)).filter fun assist =>
          !sameKey entry.mac entry.vlanId assist)
      mutex := false }, ?_, rfl, rfl, h'⟩
    simp [hw, onMem, Except.mapError, bind, Except.bind, pure, Except.pure, unlock]
  · rw [lock_held_mem (h.mutex.trans hm), lock_held hm]
    exact .inr ⟨rfl, rfl⟩

theorem delFromDyn_agrees (h : Refines s db) (p : PiMacEntry → Bool) :
    Agrees (delFromDyn env p s) (Ssc.delFromDyn p db) := by
  unfold delFromDyn Ssc.delFromDyn
  rcases hm : db.mutex with _ | _
  · rw [lock_free_mem (h.mutex.trans hm), lock_free hm]
    obtain ⟨m', hw, h'⟩ := deleteAll_mem env p .dyn (List.finRange hashSize) s.mem _
      (List.nodup_finRange hashSize) h.mem
    simp only [List.mem_finRange, if_true] at h'
    rw [setHead_dyn] at h'
    refine .inl ⟨⟨m', false⟩, { db with
      dynMacTblHead := fun i => (db.dynMacTblHead i).filter fun assist => !p assist
      mutex := false }, ?_, rfl, rfl, h'⟩
    simp only [bind, Except.bind, hw, onMem, Except.mapError, pure, Except.pure, unlock]
  · rw [lock_held_mem (h.mutex.trans hm), lock_held hm]
    exact .inr ⟨rfl, rfl⟩

theorem readHead_mem {m : NodeMem α} {tbl : HeadId → List PiMacEntry} (h : Represents m ∅ tbl)
    (hd : HeadId) (es : List PiMacEntry) : readHead hd m es = .ok (es ++ tbl hd) := by
  have hv : Valid m.live (.first hd : Loc HeadId α) := trivial
  have hload : m.load (.first hd) = .ok (m.ptr (.first hd)) := if_pos hv
  have happend : ∀ chain es : List PiMacEntry,
      chain.foldl (fun es assist => es ++ [assist]) es = es ++ chain := by
    intro chain
    induction chain with
    | nil => simp
    | cons x chain ih => simp [ih]
  rw [readHead, hload, ← happend]
  exact h.forEach hd _ es

/-- A transfer reads the entries of the table, chain after chain. -/
theorem dsEntries_mem {m : NodeMem α} {tbl : HeadId → List PiMacEntry} (h : Represents m ∅ tbl)
    (head : MacTblHead) :
    dsEntries head m = .ok (Chained.entries fun i => tbl (head, i)) := by
  have hfold : ∀ (is : List (Fin hashSize)) (es : List PiMacEntry),
      is.foldlM (fun es i => readHead (head, i) m es) es
        = .ok (es ++ is.flatMap fun i => tbl (head, i)) := by
    intro is
    induction is with
    | nil => exact fun es => by simp [pure, Except.pure]
    | cons i is ih =>
      intro es
      rw [List.foldlM_cons, readHead_mem h, List.flatMap_cons, ← List.append_assoc]
      exact ih _
  rw [dsEntries, hfold, List.nil_append, Chained.entries]

end Functions

end DbMem

/-! ## Runs -/

section Runs

/-- A call, with the address its `malloc` returns if there is memory. -/
def dbRun (env : TblEnv α) (s : DbMem α) (tmp : α) : SscOp → Except DbFault (DbMem α)
  | .sscAddDynAddr mem entry => DbMem.sscAddDynAddr env (if mem then some tmp else none) entry s
  | .sscLocalAddAddr mem entry => DbMem.sscLocalAddAddr env (if mem then some tmp else none) entry s
  | .sscDelAgeEntry entry => DbMem.sscDelAgeEntry env entry s
  | .sscDelDynAddr => DbMem.sscDelDynAddr env s
  | .sscDelVlanAddr vlan => DbMem.sscDelVlanAddr env vlan s
  | .sscDelIntAddr phyId => DbMem.sscDelIntAddr env phyId s

/-- `malloc` does not return the address of a node that is allocated. -/
def dbMemStep (env : TblEnv α) :
    Except DbFault (DbMem α) → α × SscOp → Option (Except DbFault (DbMem α))
  | .error _, _ => none
  | .ok s, (tmp, op) => if tmp ∈ s.mem.live then none else some (dbRun env s tmp op)

variable (env) in
theorem dbRun_agrees {s : DbMem α} {db : MacOpraClass} (h : s.Refines db) {tmp : α}
    (hx : tmp ∉ s.mem.live) (op : SscOp) :
    DbMem.Agrees (dbRun env s tmp op) (op.run env.hash db) := by
  cases op with
  | sscAddDynAddr mem entry => exact DbMem.sscAddDynAddr_agrees h hx mem entry
  | sscLocalAddAddr mem entry => exact DbMem.sscLocalAddAddr_agrees h hx mem entry
  | sscDelAgeEntry entry => exact DbMem.sscDelAgeEntry_agrees h entry
  | sscDelDynAddr => exact DbMem.delFromDyn_agrees h _
  | sscDelVlanAddr vlan => exact DbMem.delFromDyn_agrees h _
  | sscDelIntAddr phyId => exact DbMem.delFromDyn_agrees h _

theorem dbPath_agrees {r r' : Except DbFault (DbMem α)} {es : List (α × SscOp)}
    (hp : Runs.Path (dbMemStep env) r es r') :
    ∀ (s : DbMem α) (db : MacOpraClass), r = .ok s → s.Refines db →
      DbMem.Agrees r' ((es.map Prod.snd).foldlM (SscOp.run env.hash) db) := by
  induction hp with
  | nil r => exact fun s db hr h => .inl ⟨s, db, hr, rfl, h⟩
  | @cons r r₁ r₂ e es hstep hp ih =>
    rintro s db rfl h
    obtain ⟨tmp, op⟩ := e
    simp only [dbMemStep] at hstep
    split_ifs at hstep with hx
    obtain rfl := Option.some.inj hstep
    rw [List.map_cons, List.foldlM_cons]
    rcases dbRun_agrees env h hx op with ⟨s₁, db₁, hs₁, hdb₁, h₁⟩ | ⟨hs₁, hdb₁⟩
    · rw [hdb₁]
      exact ih s₁ db₁ hs₁ h₁
    · -- the run ends where a call waits for ever
      rw [hs₁] at hp
      cases hp with
      | nil => exact .inr ⟨rfl, by rw [hdb₁]; rfl⟩
      | cons hstep _ => cases hstep

omit [DecidableEq α] in
theorem refines_init (m₀ : NodeMem α) (db₀ : MacOpraClass) :
    (DbMem.sscDbInit m₀).Refines (sscDbInit db₀) := by
  refine ⟨rfl, ?_⟩
  have htbl : tables (sscDbInit db₀).staticMacTblHead (sscDbInit db₀).dynMacTblHead
      = fun _ => [] := by
    funext ⟨head, i⟩
    cases head <;> rfl
  rw [htbl]
  exact .init m₀

/-- In every run of SSC's table functions no function touches a node that is not allocated or goes
round a cycle. While none waits for the mutex for ever, the allocated nodes are those linked into the
two tables, each in one place, and they hold the chains of the run on chains, whose entries a
transfer of a table reads in order; and where one waits for ever, the run on chains does at the same
call. -/
theorem ssc_tables_in_memory (env : TblEnv α) (m₀ : NodeMem α) (db₀ : MacOpraClass)
    {es : List (α × SscOp)} {r : Except DbFault (DbMem α)}
    (hp : Runs.Path (dbMemStep env) (.ok (.sscDbInit m₀)) es r) :
    (∃ s db t, r = .ok s ∧ sscRun env.hash db₀ (es.map Prod.snd) = .ok db ∧ s.mutex = db.mutex
        ∧ Holds s.mem ∅ t
        ∧ (∀ h, (t h).map s.mem.val = tables db.staticMacTblHead db.dynMacTblHead h)
        ∧ DbMem.dsEntries .static s.mem = .ok (Chained.entries db.staticMacTblHead)
        ∧ DbMem.dsEntries .dyn s.mem = .ok (Chained.entries db.dynMacTblHead))
      ∨ r = .error .deadlock ∧ sscRun env.hash db₀ (es.map Prod.snd) = .error .deadlock := by
  rcases dbPath_agrees hp _ _ rfl (refines_init m₀ db₀) with ⟨s, db, rfl, hdb, hs⟩ | hblock
  · have hstat := DbMem.dsEntries_mem hs.mem .static
    have hdyn := DbMem.dsEntries_mem hs.mem .dyn
    rw [tables_static] at hstat
    rw [tables_dyn] at hdyn
    obtain ⟨t, ht, hval⟩ := hs.mem
    exact .inl ⟨s, db, t, rfl, hdb, hs.mutex, ht, hval, hstat, hdyn⟩
  · exact .inr hblock

variable (env) in
/-- Where no call waits for ever, every list of calls is a run. -/
theorem exists_dbPath [Infinite α] : ∀ (ops : List SscOp) (s : DbMem α) (db db' : MacOpraClass),
    s.Refines db → ops.foldlM (SscOp.run env.hash) db = .ok db' →
    ∃ es r, es.map Prod.snd = ops ∧ Runs.Path (dbMemStep env) (.ok s) es r
  | [], s, _, _, _, _ => ⟨[], .ok s, rfl, .nil _⟩
  | op :: ops, s, db, db', h, hr => by
    obtain ⟨tmp, hx⟩ := Infinite.exists_notMem_finset s.mem.live
    rcases dbRun_agrees env h hx op with ⟨s₁, db₁, hs₁, hdb₁, h₁⟩ | ⟨-, hdb₁⟩
    · rw [List.foldlM_cons, hdb₁] at hr
      obtain ⟨es, r, hes, hp⟩ := exists_dbPath ops s₁ db₁ db' h₁ hr
      have hstep : dbMemStep env (.ok s) (tmp, op) = some (.ok s₁) := by
        rw [dbMemStep, if_neg hx, hs₁]
      exact ⟨(tmp, op) :: es, r, by rw [List.map_cons, hes], .cons hstep hp⟩
    · rw [List.foldlM_cons, hdb₁] at hr
      cases hr

/-- A static and a dynamic address are stored, and the dynamic one goes with its VLAN. -/
theorem ssc_tables_in_memory_vlan :
    let env : TblEnv ℕ := ⟨hashFunction .little 0, 0, .next 0⟩
    let e : PiMacEntry := ⟨#v[2, 0, 0, 0, 0, 1], 1, 10, 3, 0⟩
    let m₀ : NodeMem ℕ := ⟨fun _ => none, fun _ => .next 0, ∅, fun _ => .zero⟩
    ∃ es r, es.map Prod.snd = [.sscLocalAddAddr true ⟨e.mac, 10, 5⟩, .sscAddDynAddr true e,
        .sscDelVlanAddr 10]
      ∧ Runs.Path (dbMemStep env) (.ok (.sscDbInit m₀)) es r
      ∧ ∃ s db t, r = .ok s ∧ sscRun env.hash .blank (es.map Prod.snd) = .ok db
        ∧ Holds s.mem ∅ t
        ∧ ∀ h, (t h).map s.mem.val = tables db.staticMacTblHead db.dynMacTblHead h := by
  intro env e m₀
  have hrun : ∃ db', sscRun env.hash .blank [.sscLocalAddAddr true ⟨e.mac, 10, 5⟩,
      .sscAddDynAddr true e, .sscDelVlanAddr 10] = .ok db' := by
    apply Exists.intro
    simp only [sscRun, List.foldlM_cons, List.foldlM_nil, SscOp.run, sscDelVlanAddr]
    rw [sscLocalAddAddr_ok rfl]
    simp only [bind, Except.bind]
    rw [sscAddDynAddr_ok rfl]
    simp only
    rw [delFromDyn_ok rfl]
    rfl
  obtain ⟨db', hrun⟩ := hrun
  obtain ⟨es, r, hes, hp⟩ := exists_dbPath env _ _ _ _ (refines_init m₀ .blank) hrun
  refine ⟨es, r, hes, hp, ?_⟩
  rcases ssc_tables_in_memory env m₀ .blank hp with ⟨s, db, t, hr, hdb, -, ht, hval, -⟩ | ⟨-, hdb⟩
  · exact ⟨s, db, t, hr, hdb, ht, hval⟩
  · rw [hes, hrun] at hdb
    cases hdb

end Runs

end RookieMac.Ssc
