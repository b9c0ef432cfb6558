import RookieMac.PiAccess
import RookieMac.System
import RookieMac.Proofs.CliShow

/-!
# PI's calls take effect at once

Each function on PI's tables, its accesses one after the other, is the function on the database. So
in every run of PI's threads the tables are those of the calls in the order in which they took the
mutex, and a table that is shown is the one at a point of the run.
-/

namespace RookieMac.Pi

open CMem Atomic Runs

namespace PiTables

variable {s : PiTables} {h : MacTblHead}

def setTbl (h : MacTblHead) (t : HashTbl × U32) (s : PiTables) : PiTables :=
  ⟨Function.update s.head h t.1, Function.update s.count h t.2⟩

section SetTbl

variable {t t' : HashTbl × U32}

@[simp] theorem setTbl_head : (s.setTbl h t).head h = t.1 := Function.update_self ..

@[simp] theorem setTbl_count : (s.setTbl h t).count h = t.2 := Function.update_self ..

@[simp] theorem setTbl_setTbl : (s.setTbl h t).setTbl h t' = s.setTbl h t' := by
  simp [setTbl]

@[simp] theorem setTbl_self : s.setTbl h (s.head h, s.count h) = s := by
  simp [setTbl]

theorem setChain_eq (i : Fin hashSize) (chain : List PiMacEntry) :
    s.setChain h i chain = s.setTbl h (Function.update (s.head h) i chain, s.count h) := by
  simp [setChain, setTbl]

theorem setCount_eq (f : U32 → U32) : s.setCount h f = s.setTbl h (s.head h, f (s.count h)) := by
  simp [setCount, setTbl]

theorem ext {s' : PiTables} (hhead : ∀ h, s.head h = s'.head h)
    (hcount : ∀ h, s.count h = s'.count h) : s = s' := by
  rcases s with ⟨_, _⟩
  rw [PiTables.mk.injEq]
  exact ⟨funext hhead, funext hcount⟩

variable {db : PiDbMacInfo}

@[simp] theorem tables_head_dyn : db.tables.head .dyn = db.dynMacTblHead := rfl

@[simp] theorem tables_head_static : db.tables.head .static = db.staticMacTblHead := rfl

@[simp] theorem tables_count_dyn : db.tables.count .dyn = db.dynAddrCount := rfl

@[simp] theorem tables_count_static : db.tables.count .static = db.staticAddrCount := rfl

theorem tables_setDyn : db.tables.setTbl .dyn t = (db.setDyn t).tables := by
  refine ext (fun h => ?_) fun h => ?_ <;> rcases h with _ | _ <;> rfl

theorem tables_setStatic : db.tables.setTbl .static t = (db.setStatic t).tables := by
  refine ext (fun h => ?_) fun h => ?_ <;> rcases h with _ | _ <;> rfl

end SetTbl

/-! ## The table functions -/

section Table

variable (hash : HashFn) (entry : PiMacEntry)

theorem exec_findHashKey (index : Fin hashSize) : (findHashKey index entry h).exec s
    = ((Pi.findHashKey index entry (s.head h)).1,
      s.setTbl h ((Pi.findHashKey index entry (s.head h)).2, s.count h)) := by
  unfold findHashKey Pi.findHashKey
  simp only [Accesses.exec_bind, Accesses.exec_read]
  rcases Chained.modifyFirst (sameKey entry) (setPort entry.portId) (s.head h index) with _ | chain
  · simp
  · simp [setChain_eq]

theorem exec_insertHashTable : (insertHashTable hash entry h).exec s
    = ((Pi.insertHashTable hash entry (s.head h)).1,
      s.setTbl h ((Pi.insertHashTable hash entry (s.head h)).2, s.count h)) := by
  unfold insertHashTable Pi.insertHashTable
  simp only [Accesses.exec_bind, exec_findHashKey, Accesses.exec_ite, Accesses.exec_pure,
    Accesses.exec_read, Accesses.exec_write, setChain_eq, setTbl_head, setTbl_count, setTbl_setTbl]
  split_ifs <;> rfl

theorem exec_delHashEntry : (delHashEntry hash entry h).exec s
    = ((Pi.delHashEntry hash entry (s.head h)).1,
      s.setTbl h ((Pi.delHashEntry hash entry (s.head h)).2, s.count h)) := by
  unfold delHashEntry Pi.delHashEntry Pi.findHashKeyDel Chained.eraseFirst
  by_cases hany : (s.head h (hash entry.mac entry.vlanId)).any (sameEntryDel entry) = true <;>
    simp only [Accesses.exec_bind, Accesses.exec_read, hany, if_true]
  · simp [setChain_eq]
  · simp

theorem exec_counted {f : U32 → U32} {p : TblAccesses ℤ} {ret : ℤ} {head : HashTbl}
    (hp : p.exec s = (ret, s.setTbl h (head, s.count h))) : (counted h f p).exec s
      = ((), s.setTbl h (head, if ret = 0 then f (s.count h) else s.count h)) := by
  unfold counted
  simp only [Accesses.exec_bind, hp, Accesses.exec_ite, Accesses.exec_write, Accesses.exec_pure,
    setCount_eq, setTbl_head, setTbl_count, setTbl_setTbl]
  split_ifs <;> rfl

end Table

/-! ## Clearing -/

section Clear

variable {fn : PiMacEntry → ℤ × Bool}

theorem exec_clearChain {i : Fin hashSize} : ∀ {chain kept : List PiMacEntry} {s : PiTables},
    s.head h i = kept ++ chain → (clearChain fn h i kept chain).exec s
      = ((), s.setTbl h (Function.update (s.head h) i (kept
        ++ (Pi.clearChain fn chain (s.count h)).1), (Pi.clearChain fn chain (s.count h)).2))
  | [], kept, s, hi => by
    have hself : Function.update (s.head h) i kept = s.head h := by
      rw [Function.update_eq_iff]
      exact ⟨by simpa using hi.symm, fun _ _ => rfl⟩
    simp [clearChain, Pi.clearChain, hself]
  | assist :: chain, kept, s, hi => by
    rcases hfn : fn assist with ⟨ret, freed⟩
    set kept' := if freed then kept else kept ++ [assist] with hkept
    set count := if ret = 0 then s.count h - 1 else s.count h with hcount
    set s' := s.setTbl h (Function.update (s.head h) i (kept' ++ chain), count) with hs'
    -- the entry is unlinked, or stays where it is
    have hunlink : (if freed then s.setChain h i (kept ++ chain) else s)
        = s.setTbl h (Function.update (s.head h) i (kept' ++ chain), s.count h) := by
      cases freed with
      | true => simp [hkept, setChain_eq]
      | false =>
        have hself : Function.update (s.head h) i (kept' ++ chain) = s.head h := by
          rw [Function.update_eq_iff]
          exact ⟨by simp [hkept, hi], fun _ _ => rfl⟩
        simp [hself]
    have hbody : (clearChain fn h i kept (assist :: chain)).exec s
        = (clearChain fn h i kept' chain).exec s' := by
      have hcounted : ∀ x : PiTables, x = s.setTbl h (Function.update (s.head h) i
          (kept' ++ chain), s.count h) → (if ret = 0 then x.setCount h (· - 1) else x) = s' := by
        rintro x rfl
        split_ifs with hret <;> simp [hs', hcount, hret, setCount_eq]
      rw [← hcounted _ hunlink]
      simp only [clearChain, hfn, Accesses.exec_bind, Accesses.exec_ite, Accesses.exec_write]
      cases freed <;> split_ifs <;> first | rfl | contradiction
    rw [hbody, exec_clearChain (by simp [hs'])]
    cases freed <;> simp [hs', hkept, Pi.clearChain, hfn, hcount]

theorem exec_clearHeads : ∀ {is : List (Fin hashSize)} {s : PiTables},
    (clearHeads fn h is).exec s = ((), s.setTbl h (is.foldl (fun s i =>
      let (chain, count) := Pi.clearChain fn (s.1 i) s.2
      (Function.update s.1 i chain, count)) (s.head h, s.count h)))
  | [], s => by simp [clearHeads]
  | i :: is, s => by
    simp only [clearHeads, Accesses.exec_bind, Accesses.exec_read]
    rw [exec_clearChain (by simp), exec_clearHeads]
    simp

theorem exec_clearTable : (clearHeads fn h (List.finRange hashSize)).exec s
    = ((), s.setTbl h (clearTable fn (s.head h) (s.count h))) := by
  rw [exec_clearHeads, clearTable]

theorem exec_callClearLocalMac (db : PiDbMacInfo) (type : PiMacMsgid) (data : List U8)
    (fn : ClearMac) : (callClearLocalMac type data fn).exec db.tables
      = ((), (Pi.callClearLocalMac type data fn db).tables) := by
  have hdyn : (clearHeads (fn data) .dyn (List.finRange hashSize)).exec db.tables
      = ((), (db.setDyn (clearTable (fn data) db.dynMacTblHead db.dynAddrCount)).tables) := by
    rw [exec_clearTable, tables_setDyn, tables_head_dyn, tables_count_dyn]
  have hstat : ∀ db : PiDbMacInfo, (clearHeads (fn data) .static (List.finRange hashSize)).exec
      db.tables = ((), (db.setStatic (clearTable (fn data) db.staticMacTblHead
        db.staticAddrCount)).tables) := by
    intro db
    rw [exec_clearTable, tables_setStatic, tables_head_static, tables_count_static]
  have hcount : ∀ t, (db.setDyn t).staticAddrCount = db.staticAddrCount := fun _ => rfl
  unfold callClearLocalMac Pi.callClearLocalMac
  rw [Accesses.exec_bind, hdyn, Accesses.exec_ite, hstat, setDyn_static, hcount]
  generalize clearTable (fn data) db.dynMacTblHead db.dynAddrCount = dyn
  generalize clearTable (fn data) db.staticMacTblHead db.staticAddrCount = stat
  split_ifs <;> rfl

end Clear

/-! ## Showing -/

section Show

theorem exec_showTable {lines : Fin hashSize → TblAccesses (List MacRow)}
    {g : Fin hashSize → List MacRow} (hl : ∀ i, (lines i).exec s = (g i, s)) :
    (showTable lines).exec s = (printTable ((List.finRange hashSize).flatMap g), s) := by
  have hheads : ∀ is : List (Fin hashSize), (showHeads lines is).exec s = (is.flatMap g, s) := by
    intro is
    induction is with
    | nil => rfl
    | cons i is ih => simp [showHeads, hl, ih]
  simp [showTable, hheads]

theorem exec_piShowVlanMac (db : PiDbMacInfo) (numVlan : U32) :
    (piShowVlanMac numVlan).exec db.tables = (printTable (Pi.piShowVlanMac numVlan db), db.tables) :=
  exec_showTable fun _ => rfl

theorem exec_piShowStaticMac (db : PiDbMacInfo) :
    piShowStaticMac.exec db.tables = (printTable (Pi.piShowStaticMac db), db.tables) :=
  exec_showTable fun _ => rfl

theorem exec_piShowAllMac (db : PiDbMacInfo) :
    piShowAllMac.exec db.tables = (printTable (Pi.piShowAllMac db), db.tables) :=
  exec_showTable fun _ => rfl

end Show

/-- The configuration is not among the tables. -/
theorem exec_dealConfInfo (data : List U8) : (dealConfInfo data).exec s = ((), s) := by
  have hports : ∀ (f : Fin (portNum + 1) → PiBeside → PiBeside) (is : List (Fin (portNum + 1))),
      (is.forM fun i => (.writeBeside (f i) : TblAccesses Unit)).exec s = ((), s) := by
    intro f is
    induction is with
    | nil => rfl
    | cons i is ih => simpa [List.forM_cons] using ih
  unfold dealConfInfo
  simp only [Accesses.exec_bind, Accesses.exec_writeBeside]
  exact hports _ _

end PiTables

/-! ## The calls -/

section Calls

/-- The function that the call is of, where it is one that can change the database. -/
def PiCall.op : PiCall → Option PiOp
  | .piLocalSetStaticAddr mem data => some (.piLocalSetStaticAddr mem data)
  | .piAddLocalDyn mem data => some (.piAddLocalDyn mem data)
  | .piDelLocalDyn data => some (.piDelLocalDyn data)
  | .dealStaticInfo mem data => some (.dealStaticInfo mem data)
  | .clearLocalMac type data => some (.clearLocalMac type data)
  | .dealConfInfo data => some (.dealConfInfo data)
  | .piShowAllMac | .piShowVlanMac _ | .piShowStaticMac => none

/-- What a call prints. -/
def PiCall.shows (db : PiDbMacInfo) : PiCall → List Char
  | .piLocalSetStaticAddr mem _ | .piAddLocalDyn mem _ | .dealStaticInfo mem _ =>
    if mem then [] else "no mem \n".toList
  | .clearLocalMac type _ =>
    match type with
    | .macClearDyn | .clearVlanMac | .clearInterDyn => []
    | _ => "unknew order! \n".toList
  | .piDelLocalDyn _ | .dealConfInfo _ => []
  | .piShowAllMac => printTable (Pi.piShowAllMac db)
  | .piShowVlanMac numVlan => printTable (Pi.piShowVlanMac numVlan db)
  | .piShowStaticMac => printTable (Pi.piShowStaticMac db)

def PiCall.run (hash : HashFn) (db : PiDbMacInfo) (c : PiCall) : PiDbMacInfo :=
  (c.op.map (PiOp.run hash db)).getD db

variable {hash : HashFn} {db : PiDbMacInfo}

/-- What a call does when its accesses come one after the other. -/
structure Alone (hash : HashFn) (db : PiDbMacInfo) (c : PiCall)
    (call : List Char ⊕ TblAccesses (Bool × List Char)) : Prop where
  direct : ∀ text, call = .inl text → text = c.shows db ∧ (c.run hash db).tables = db.tables
  accesses : ∀ p, call = .inr p → p.exec db.tables = ((false, c.shows db), (c.run hash db).tables)

theorem alone_direct {c : PiCall} {text : List Char} (htext : text = c.shows db)
    (hrun : (c.run hash db).tables = db.tables) : Alone hash db c (.inl text) where
  direct := by
    rintro _ ⟨⟩
    exact ⟨htext, hrun⟩
  accesses := by rintro _ ⟨⟩

theorem alone_silent {c : PiCall} {p : TblAccesses Unit} (hshows : c.shows db = [])
    (hp : p.exec db.tables = ((), (c.run hash db).tables)) :
    Alone hash db c (PiTables.silent p) where
  direct := by rintro _ ⟨⟩
  accesses := by
    rintro _ ⟨⟩
    simp [hp, hshows]

theorem alone_showing {c : PiCall} {p : TblAccesses (List Char)}
    (hp : p.exec db.tables = (c.shows db, (c.run hash db).tables)) :
    Alone hash db c (PiTables.showing p) where
  direct := by rintro _ ⟨⟩
  accesses := by
    rintro _ ⟨⟩
    simp [hp]

open PiTables in
theorem alone (c : PiCall) : Alone hash db c ((piSystem hash).call c) := by
  have hinsert : ∀ (entry : PiMacEntry) (h : MacTblHead) (s : PiTables),
      (counted h (· + 1) (PiTables.insertHashTable hash entry h)).exec s = _ :=
    fun entry h s => exec_counted (exec_insertHashTable hash entry)
  cases c with
  | piLocalSetStaticAddr mem data =>
    cases mem with
    | false => exact alone_direct rfl rfl
    | true => exact alone_silent rfl ((hinsert _ _ _).trans (by rw [tables_setStatic]; rfl))
  | piAddLocalDyn mem data =>
    cases mem with
    | false => exact alone_direct rfl rfl
    | true => exact alone_silent rfl ((hinsert _ _ _).trans (by rw [tables_setDyn]; rfl))
  | piDelLocalDyn data =>
    refine alone_silent rfl ((exec_counted (exec_delHashEntry hash data)).trans ?_)
    rw [tables_setDyn]
    rfl
  | dealStaticInfo mem data =>
    cases mem with
    | false => exact alone_direct rfl rfl
    | true => exact alone_silent rfl ((hinsert _ _ _).trans (by rw [tables_setStatic]; rfl))
  | clearLocalMac type data =>
    cases type with
    | macClearDyn => exact alone_silent rfl (exec_callClearLocalMac db _ data _)
    | clearVlanMac => exact alone_silent rfl (exec_callClearLocalMac db _ data _)
    | clearInterDyn => exact alone_silent rfl (exec_callClearLocalMac db _ data _)
    | _ => exact alone_direct rfl rfl
  | dealConfInfo data => exact alone_silent rfl (exec_dealConfInfo data)
  | piShowAllMac => exact alone_showing (exec_piShowAllMac db)
  | piShowVlanMac numVlan => exact alone_showing (exec_piShowVlanMac db numVlan)
  | piShowStaticMac => exact alone_showing (exec_piShowStaticMac db)

theorem answer_eq (c : PiCall) : (piSystem hash).answer c db.tables = c.shows db := by
  have h : Alone hash db c _ := alone c
  unfold System.answer
  rcases hc : (piSystem hash).call c with text | p
  · exact (h.direct text hc).1
  · simp only [h.accesses p hc]

variable {τ : Type}

theorem take_eq (y : τ × PiCall) : (piSystem hash).take (false, db.tables) y
    = (false, (y.2.run hash db).tables) := by
  have h : Alone hash db y.2 _ := alone y.2
  unfold System.take
  rcases hc : (piSystem hash).call y.2 with text | p
  · rw [(h.direct text hc).2]
  · simp only [h.accesses p hc]

/-- The calls of a log that can change the database. -/
def ops (log : List (τ × PiCall)) : List PiOp := log.filterMap fun y => y.2.op

theorem replay_eq (db₀ : PiDbMacInfo) (log : List (τ × PiCall)) :
    (piSystem hash).replay (piDefaultArgsInit db₀).tables log
      = (false, (piRun hash db₀ (ops log)).tables) := by
  induction log using List.reverseRecOn with
  | nil => rfl
  | append_singleton log y ih =>
    have hops : ops (log ++ [y]) = ops log ++ y.2.op.toList := by
      rcases hop : y.2.op with _ | op <;> simp [ops, hop]
    rw [replay_concat, ih, take_eq, hops, piRun, piRun, List.foldl_append]
    unfold PiCall.run
    rcases y.2.op with _ | op <;> rfl

end Calls

section Run

variable {τ : Type} [DecidableEq τ] {hash : HashFn}
  {es : List (Event τ PiCall PiBareCall)} {s : State τ PiTables PiBeside PiCall (List Char)}

/-- In every run of PI's threads the tables are, while no thread is between the lock and the unlock,
those of the calls on them one after the other, in the order in which they took the mutex, whatever
the functions do that do not take it. What a call prints is what it prints when it is made at once
at some point between its beginning and its end. -/
theorem pi_calls_atomic (db₀ : PiDbMacInfo) (hp : Path (step (piSystem hash))
      (.start (piDefaultArgsInit db₀).tables (piDefaultArgsInit db₀).beside) es s) :
    ((∀ t, (s.doing t).Outside) →
        s.holder = none ∧ s.shared = (piRun hash db₀ (ops s.log)).tables)
      ∧ ∀ t, s.doing t = .idle → ∀ es' s', Path (step (piSystem hash)) s es' s' →
        ∃ new, s'.returned t = s.returned t ++ new ∧ ∀ c text, (c, text) ∈ new →
          ∃ log, s.log <+: log ∧ log ++ [(t, c)] <+: s'.log
            ∧ text = c.shows (piRun hash db₀ (ops log)) := by
  have h : Linear (piSystem hash) (piDefaultArgsInit db₀).tables s := (Linear.start _ _).path hp
  refine ⟨fun hout => ?_, fun t hidle es' s' hp' => ?_⟩
  · have hend := h.replay_eq hout
    rw [replay_eq, Prod.mk.injEq] at hend
    exact ⟨by simpa using hend.1.symm, hend.2.symm⟩
  · obtain ⟨new, hnew, hmem⟩ := returned_between h hp' hidle
    refine ⟨new, hnew, fun c text hc => ?_⟩
    obtain ⟨log, hlow, hhigh, htext⟩ := hmem c text hc
    rw [replay_eq, answer_eq] at htext
    exact ⟨log, hlow, hhigh, htext⟩

/-- A deletion waits for an insertion of the other thread, which sets the ageing time meanwhile. -/
theorem pi_calls_atomic_aged : ∃ s : State Bool PiTables PiBeside PiCall (List Char),
    (∀ t, s.doing t = .idle) ∧ s.beside.ageTime = 1
      ∧ s.shared = (piRun (hashFunction .little 0) .blank [.piAddLocalDyn true .zero,
        .piDelLocalDyn .zero]).tables := by
  let es : List (Event Bool PiCall PiBareCall) :=
    [.call false (.piAddLocalDyn true .zero), .run false, .run false,
      .callBare true (.piLocalSetAgetime [1, 0, 0, 0]), .run true, .run true,
      .call true (.piDelLocalDyn .zero), .run false, .run false, .run false, .run false]
      ++ List.replicate 5 (.run true)
  obtain ⟨s, hs, hidle, hage, hops⟩ : ∃ s, es.foldlM (step (piSystem (hashFunction .little 0)))
      (.start (piDefaultArgsInit .blank).tables (piDefaultArgsInit .blank).beside) = some s
        ∧ (∀ t, s.doing t = .idle) ∧ s.beside.ageTime = 1
        ∧ ops s.log = [.piAddLocalDyn true .zero, .piDelLocalDyn .zero] :=
    ⟨_, rfl, fun t => by cases t <;> rfl, rfl, rfl⟩
  have h := (pi_calls_atomic .blank (.of_foldlM hs)).1 fun t c p hd => by
    cases (hidle t).symm.trans hd
  rw [hops] at h
  exact ⟨s, hidle, hage, h.2⟩

end Run

end RookieMac.Pi
