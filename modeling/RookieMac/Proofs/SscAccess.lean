import RookieMac.SscAccess
import RookieMac.System

/-!
# SSC's calls take effect at once

Each function on SSC's database, its accesses one after the other, is the function that takes the
mutex. So in every run of SSC's threads the database is that of the calls in the order in which they
took the mutex, and what a transfer sends is the database at a point of the run.
-/

namespace RookieMac.Ssc

open CMem Chained Atomic Runs

namespace DbAccesses

variable {db : MacOpraClass}

/-! ## The loops -/

theorem exec_delChain (p : PiMacEntry → Bool) {i : Fin hashSize} :
    ∀ {chain kept : List PiMacEntry} {db : MacOpraClass}, db.dynMacTblHead i = kept ++ chain →
      (delChain p i kept chain).exec db
        = ((), setDynChain i (kept ++ chain.filter fun assist => !p assist) db)
  | [], kept, db, hi => by
    have hself : Function.update db.dynMacTblHead i kept = db.dynMacTblHead := by
      rw [Function.update_eq_iff]
      exact ⟨by simpa using hi.symm, fun _ _ => rfl⟩
    simp [delChain, setDynChain, hself]
  | assist :: chain, kept, db, hi => by
    cases hp : p assist with
    | true =>
      have hnext : (setDynChain i (kept ++ chain) db).dynMacTblHead i = kept ++ chain := by
        simp [setDynChain]
      have := exec_delChain p hnext
      simp only [delChain, Accesses.exec_bind, Accesses.exec_write, hp, if_true, this]
      simp [setDynChain, hp]
    | false =>
      have hnext : db.dynMacTblHead i = (kept ++ [assist]) ++ chain := by simp [hi]
      have := exec_delChain p hnext
      simp [delChain, hp, this]

theorem exec_delHeads {p : PiMacEntry → Bool} : ∀ {is : List (Fin hashSize)} {db : MacOpraClass},
    (delHeads p is).exec db = ((), { db with dynMacTblHead := fun i =>
      if i ∈ is then (db.dynMacTblHead i).filter fun assist => !p assist else db.dynMacTblHead i })
  | [], db => by simp [delHeads]
  | i :: is, db => by
    simp only [delHeads, Accesses.exec_bind, Accesses.exec_read]
    rw [exec_delChain p (by simp), exec_delHeads]
    congr 2
    funext j
    by_cases hj : j = i
    · subst hj
      by_cases hm : j ∈ is <;> simp [setDynChain, hm]
    · by_cases hm : j ∈ is <;> simp [setDynChain, hm, hj]

theorem exec_writePorts {status : Fin (portNum + 1) → U32} :
    ∀ {is : List (Fin (portNum + 1))} {db : MacOpraClass}, (writePorts status is).exec db
      = ((), { db with
        portStatus := fun i => if i ∈ is then status i else db.portStatus i })
  | [], db => by simp [writePorts]
  | i :: is, db => by
    simp only [writePorts, Accesses.exec_bind, Accesses.exec_write, exec_writePorts]
    congr 2
    funext j
    by_cases hj : j = i
    · subst hj
      by_cases hm : j ∈ is <;> simp [setPortStatus, hm]
    · by_cases hm : j ∈ is <;> simp [setPortStatus, hm, hj]

theorem exec_readPorts : ∀ {is : List (Fin (portNum + 1))} {status : Fin (portNum + 1) → U32},
    (readPorts is status).exec db = ((fun i => if i ∈ is then db.portStatus i else status i), db)
  | [], status => by simp [readPorts]
  | i :: is, status => by
    simp only [readPorts, Accesses.exec_bind, Accesses.exec_read, exec_readPorts]
    congr 1
    funext j
    by_cases hj : j = i
    · subst hj
      by_cases hm : j ∈ is <;> simp [hm]
    · by_cases hm : j ∈ is <;> simp [hm, hj]

theorem exec_dsHeads {mem : ℕ → Bool} {type : U32} {head : MacOpraClass → HashTbl} :
    ∀ {is : List (Fin hashSize)} {n : ℕ}, (dsHeads mem type head is n).exec db
      = (((is.flatMap (head db)).zipIdx n).filterMap fun (assist, j) =>
        sscSendMsgPi (mem (j + 1)) .macUpIng (dsInfo type assist.bytes), db)
  | [], n => rfl
  | i :: is, n => by
    simp only [dsHeads, Accesses.exec_bind, Accesses.exec_read, Accesses.exec_pure, exec_dsHeads,
      List.flatMap_cons, List.zipIdx_append, List.filterMap_append]

end DbAccesses

/-! ## The calls -/

section Calls

variable {env : SscEnv} {db : MacOpraClass}

/-- What a call does when its accesses come one after the other, from a database whose mutex is
free. -/
structure Alone (env : SscEnv) (db : MacOpraClass) (c : SscDbCall)
    (call : List (List U8) ⊕ DbAccesses (Bool × List (List U8))) : Prop where
  direct : ∀ sent, call = .inl sent → ∀ db', c.run env db' = .ok (db', sent)
  accesses : ∀ p, call = .inr p → ∃ kept sent db', p.exec db = ((kept, sent), db')
    ∧ db'.mutex = false ∧ c.run env db = .ok ({ db' with mutex := kept }, sent)

theorem alone_inr {c : SscDbCall} {p : DbAccesses (Bool × List (List U8))} {kept : Bool}
    {sent : List (List U8)} {db' : MacOpraClass} (hp : p.exec db = ((kept, sent), db'))
    (hm : db'.mutex = false) (hrun : c.run env db = .ok ({ db' with mutex := kept }, sent)) :
    Alone env db c (.inr p) where
  direct := by rintro _ ⟨⟩
  accesses := by
    rintro _ ⟨⟩
    exact ⟨kept, sent, db', hp, hm, hrun⟩

theorem with_mutex (hm : db.mutex = false) : { db with mutex := false } = db := by
  rw [← hm]

theorem map_ok {α β : Type} {r : Except Fault α} {a : α} (h : r = .ok a) (f : α → β) :
    r.map f = .ok (f a) := by
  rw [h]
  rfl

theorem exists_of_modifyFirst {p : PiMacEntry → Bool} {f : PiMacEntry → PiMacEntry}
    {l chain : List PiMacEntry} (h : modifyFirst p f l = some chain) : ∃ x ∈ l, p x = true := by
  by_contra hno
  push Not at hno
  rw [modifyFirst_eq_none.2 fun x hx => Bool.eq_false_iff.2 (hno x hx)] at h
  cases h

open DbAccesses in
theorem alone_sscAddDynAddr (hm : db.mutex = false) (mem : Bool) (entry : PiMacEntry) :
    Alone env db (.sscAddDynAddr mem entry)
      (.inr (DbAccesses.sscAddDynAddr env.hash mem entry)) := by
  set index := env.hash entry.mac entry.vlanId with hindex
  have hok : Ssc.sscAddDynAddr env.hash true entry db = _ := sscAddDynAddr_ok hm entry
  rcases hc : modifyFirst (sameKeyDyn entry) (setPort entry.portId)
    (db.dynMacTblHead index) with _ | chain
  · cases mem with
    | false =>
      have hexec : (DbAccesses.sscAddDynAddr env.hash false entry).exec db = ((false, []), db) := by
        simp [DbAccesses.sscAddDynAddr, ← hindex, hc]
      refine alone_inr hexec hm ?_
      rw [with_mutex hm]
      exact map_ok (sscAddDynAddr_new hm (modifyFirst_eq_none.1 hc)) _
    | true =>
      have hexec : (DbAccesses.sscAddDynAddr env.hash true entry).exec db
          = ((false, []), setDynChain index (entry :: db.dynMacTblHead index) db) := by
        simp [DbAccesses.sscAddDynAddr, ← hindex, hc]
      refine alone_inr hexec hm ((map_ok hok _).trans ?_)
      simp [upsert, ← hindex, hc, setDynChain, hm]
  · have hexec : (DbAccesses.sscAddDynAddr env.hash mem entry).exec db
        = ((false, []), setDynChain index chain db) := by
      simp [DbAccesses.sscAddDynAddr, ← hindex, hc]
    have hmem : Ssc.sscAddDynAddr env.hash mem entry db
        = Ssc.sscAddDynAddr env.hash true entry db := by
      cases mem with
      | false => exact sscAddDynAddr_found hm (exists_of_modifyFirst hc)
      | true => rfl
    refine alone_inr hexec hm ((map_ok (hmem.trans hok) _).trans ?_)
    simp [upsert, ← hindex, hc, setDynChain, hm]

open DbAccesses in
theorem alone_sscLocalAddAddr (hm : db.mutex = false) (mem : Bool) (entry : BaseStaticMac) :
    Alone env db (.sscLocalAddAddr mem entry)
      (.inr (DbAccesses.sscLocalAddAddr env.hash mem entry)) := by
  set index := env.hash entry.mac entry.vlanId with hindex
  have hok : Ssc.sscLocalAddAddr env.hash true entry db = _ := sscLocalAddAddr_ok hm entry
  rcases hc : modifyFirst (sameKey entry.mac entry.vlanId) (setPort entry.portId)
    (db.staticMacTblHead index) with _ | chain
  · cases mem with
    | false =>
      have hexec : (DbAccesses.sscLocalAddAddr env.hash false entry).exec db
          = ((true, []), db) := by
        simp [DbAccesses.sscLocalAddAddr, ← hindex, hc]
      exact alone_inr hexec hm (map_ok (sscLocalAddAddr_new hm (modifyFirst_eq_none.1 hc)) _)
    | true =>
      have hexec : (DbAccesses.sscLocalAddAddr env.hash true entry).exec db
          = ((false, []), setStaticChain index (⟨entry.mac, 0, entry.vlanId, entry.portId,
            staticType⟩ :: db.staticMacTblHead index) db) := by
        simp [DbAccesses.sscLocalAddAddr, ← hindex, hc]
      refine alone_inr hexec hm ((map_ok hok _).trans ?_)
      simp [upsert, ← hindex, hc, setStaticChain, hm]
  · have hexec : (DbAccesses.sscLocalAddAddr env.hash mem entry).exec db
        = ((false, []), setStaticChain index chain db) := by
      simp [DbAccesses.sscLocalAddAddr, ← hindex, hc]
    have hmem : Ssc.sscLocalAddAddr env.hash mem entry db
        = Ssc.sscLocalAddAddr env.hash true entry db := by
      cases mem with
      | false => exact sscLocalAddAddr_found hm (exists_of_modifyFirst hc)
      | true => rfl
    refine alone_inr hexec hm ((map_ok (hmem.trans hok) _).trans ?_)
    simp [upsert, ← hindex, hc, setStaticChain, hm]

theorem alone_sscDelAgeEntry (hm : db.mutex = false) (entry : PiMacEntry) :
    Alone env db (.sscDelAgeEntry entry) (.inr (DbAccesses.sscDelAgeEntry env.hash entry)) := by
  set index := env.hash entry.mac entry.vlanId with hindex
  have hexec : (DbAccesses.sscDelAgeEntry env.hash entry).exec db
      = ((false, []), DbAccesses.setDynChain index ((db.dynMacTblHead index).filter fun assist =>
        !sameKey entry.mac entry.vlanId assist) db) := by
    simp only [DbAccesses.sscDelAgeEntry, Accesses.exec_bind, Accesses.exec_read,
      Accesses.exec_pure, ← hindex]
    rw [DbAccesses.exec_delChain _ (by simp)]
    rfl
  refine alone_inr hexec hm ((map_ok (sscDelAgeEntry_ok hm entry) _).trans ?_)
  simp [DbAccesses.setDynChain, hm, ← hindex]

theorem exec_delFromDyn (p : PiMacEntry → Bool) : (DbAccesses.delFromDyn p).exec db
    = ((false, []), { db with
      dynMacTblHead := fun i => (db.dynMacTblHead i).filter fun assist => !p assist }) := by
  simp [DbAccesses.delFromDyn, DbAccesses.exec_delHeads]

theorem alone_delFromDyn (hm : db.mutex = false) {c : SscDbCall} (p : PiMacEntry → Bool)
    (hc : c.run env db = (Ssc.delFromDyn p db).map (·, [])) :
    Alone env db c (.inr (DbAccesses.delFromDyn p)) := by
  refine alone_inr (exec_delFromDyn p) hm ((hc.trans (map_ok (delFromDyn_ok hm p) _)).trans ?_)
  simp [hm]

/-- A transfer without memory for its message. -/
theorem alone_inl {c : SscDbCall} {sent : List (List U8)}
    (hrun : ∀ db', c.run env db' = .ok (db', sent)) : Alone env db c (.inl sent) where
  direct := by
    rintro _ ⟨⟩
    exact hrun
  accesses := by rintro _ ⟨⟩

theorem alone_sscModifyAgeTime (hm : db.mutex = false) (mem : ℕ → Bool) (data : List U8) :
    Alone env db (.sscModifyAgeTime mem data) (.inr (DbAccesses.sscModifyAgeTime data)) := by
  have hexec : (DbAccesses.sscModifyAgeTime data).exec db
      = ((false, []), { db with ageTime := readU32 (msgBody data) 0 }) := by
    simp [DbAccesses.sscModifyAgeTime]
  refine alone_inr hexec hm ?_
  simp [SscDbCall.run, Ssc.sscModifyAgeTime, lock_free hm, bind, Except.bind, pure, Except.pure,
    Except.map, pthreadMutexUnlock]

theorem alone_sscModifyInterLeanSta (hm : db.mutex = false) (mem : ℕ → Bool) (data : List U8) :
    Alone env db (.sscModifyInterLeanSta mem data)
      (.inr (DbAccesses.sscModifyInterLeanSta data)) := by
  have hexec : (DbAccesses.sscModifyInterLeanSta data).exec db
      = ((false, []), { db with portStatus := fun _ => readU32 (msgBody data) 0 }) := by
    simp [DbAccesses.sscModifyInterLeanSta, DbAccesses.exec_writePorts]
  refine alone_inr hexec hm ?_
  simp [SscDbCall.run, Ssc.sscModifyInterLeanSta, lock_free hm, bind, Except.bind, pure,
    Except.pure, Except.map, pthreadMutexUnlock]

theorem alone_sscRecePiDsData (hm : db.mutex = false) (data : List U8) :
    Alone env db (.sscRecePiDsData data) (.inr (DbAccesses.sscRecePiDsData data)) := by
  set tmp := ConfInfo.read (msgBody data) with htmp
  have hexec : (DbAccesses.sscRecePiDsData data).exec db = ((false, []), { db with
      ageTime := tmp.ageTime
      portStatus := fun i =>
        if 1 ≤ i.val ∧ i.val < portNum then tmp.portStatus i else db.portStatus i }) := by
    simp [DbAccesses.sscRecePiDsData, DbAccesses.exec_writePorts, ← htmp]
  refine alone_inr hexec hm ?_
  simp [SscDbCall.run, Ssc.sscRecePiDsData, lock_free hm, bind, Except.bind, pure, Except.pure,
    Except.map, pthreadMutexUnlock, ← htmp]

theorem alone_sscDsConfInfo (hm : db.mutex = false) (mem : ℕ → Bool) :
    Alone env db (.sscDsConfInfo mem)
      (if mem 0 then .inr (DbAccesses.sscDsConfInfo env mem) else .inl []) := by
  split_ifs with h0
  · set confInfo : ConfInfo :=
      ⟨db.ageTime, fun i => if 1 ≤ i.val then db.portStatus i else env.stack⟩ with hconf
    have hexec : (DbAccesses.sscDsConfInfo env mem).exec db = ((false,
        (sscSendMsgPi (mem 1) .macUpIng (dsInfo sscConf confInfo.bytes)).toList), db) := by
      simp [DbAccesses.sscDsConfInfo, DbAccesses.exec_readPorts, ← hconf]
    refine alone_inr hexec hm ?_
    simp [SscDbCall.run, Ssc.sscDsConfInfo, h0, lock_free hm, bind, Except.bind, pure, Except.pure,
      pthreadMutexUnlock, ← hconf]
  · exact alone_inl fun db' => by simp [SscDbCall.run, Ssc.sscDsConfInfo, h0, pure, Except.pure]

theorem exec_dsTable (mem : ℕ → Bool) (type : U32) (head : MacOpraClass → HashTbl) :
    (DbAccesses.dsTable mem type head).exec db = ((false, dsEntries mem type (head db)), db) := by
  simp [DbAccesses.dsTable, DbAccesses.exec_dsHeads, dsEntries, entries]

theorem alone_sscDsStaticInfo (hm : db.mutex = false) (mem : ℕ → Bool) :
    Alone env db (.sscDsStaticInfo mem) (if mem 0 then
      .inr (DbAccesses.dsTable mem sscStatic (·.staticMacTblHead)) else .inl []) := by
  split_ifs with h0
  · refine alone_inr (exec_dsTable mem _ _) hm ?_
    simp [SscDbCall.run, Ssc.sscDsStaticInfo, h0, lock_free hm, bind, Except.bind, pure, Except.pure,
      pthreadMutexUnlock]
  · exact alone_inl fun db' => by simp [SscDbCall.run, Ssc.sscDsStaticInfo, h0, pure, Except.pure]

theorem alone_sscDsDynInfo (hm : db.mutex = false) (mem : ℕ → Bool) :
    Alone env db (.sscDsDynInfo mem) (if mem 0 then
      .inr (DbAccesses.dsTable mem sscDyn (·.dynMacTblHead)) else .inl []) := by
  split_ifs with h0
  · refine alone_inr (exec_dsTable mem _ _) hm ?_
    simp [SscDbCall.run, Ssc.sscDsDynInfo, h0, lock_free hm, bind, Except.bind, pure, Except.pure,
      pthreadMutexUnlock]
  · exact alone_inl fun db' => by simp [SscDbCall.run, Ssc.sscDsDynInfo, h0, pure, Except.pure]

theorem alone (hm : db.mutex = false) (c : SscDbCall) :
    Alone env db c ((sscSystem env).call c) := by
  cases c with
  | sscAddDynAddr mem entry => exact alone_sscAddDynAddr hm mem entry
  | sscLocalAddAddr mem entry => exact alone_sscLocalAddAddr hm mem entry
  | sscDelAgeEntry entry => exact alone_sscDelAgeEntry hm entry
  | sscDelDynAddr => exact alone_delFromDyn hm _ rfl
  | sscDelVlanAddr vlan => exact alone_delFromDyn hm _ rfl
  | sscDelIntAddr phyId => exact alone_delFromDyn hm _ rfl
  | sscModifyAgeTime mem data => exact alone_sscModifyAgeTime hm mem data
  | sscModifyInterLeanSta mem data => exact alone_sscModifyInterLeanSta hm mem data
  | sscRecePiDsData data => exact alone_sscRecePiDsData hm data
  | sscDsConfInfo mem => exact alone_sscDsConfInfo hm mem
  | sscDsStaticInfo mem => exact alone_sscDsStaticInfo hm mem
  | sscDsDynInfo mem => exact alone_sscDsDynInfo hm mem

end Calls

/-! ## Runs -/

section Run

/-- The calls one after the other. -/
def sscCalls (env : SscEnv) (db : MacOpraClass) (cs : List SscDbCall) : Except Fault MacOpraClass :=
  cs.foldlM (fun db c => (c.run env db).map Prod.fst) db

variable {τ : Type} {env : SscEnv} {db : MacOpraClass}

theorem sscCalls_concat (cs : List SscDbCall) (c : SscDbCall) : sscCalls env db (cs ++ [c])
    = (sscCalls env db cs).bind fun db => (c.run env db).map Prod.fst := by
  rw [sscCalls, List.foldlM_append]
  refine congrArg _ (funext fun db => ?_)
  rcases h : c.run env db with _ | _ <;>
    simp [h, Except.map, bind, Except.bind, pure, Except.pure]

/-- A call that comes to take effect, at once or by its accesses. -/
theorem run_ok {x : Bool × MacOpraClass} {y : τ × SscDbCall} (hm : x.2.mutex = false)
    (henters : (sscSystem env).Enters x y) :
    ((sscSystem env).take x y).2.mutex = false ∧ y.2.run env { x.2 with mutex := x.1 }
      = .ok ({ ((sscSystem env).take x y).2 with mutex := ((sscSystem env).take x y).1 },
        (sscSystem env).answer y.2 x.2) := by
  have h : Alone env x.2 y.2 _ := alone hm y.2
  unfold System.take System.answer
  rcases hc : (sscSystem env).call y.2 with sent | p
  · exact ⟨hm, h.direct sent hc _⟩
  · obtain ⟨kept, sent, db', hexec, hm', hrun⟩ := h.accesses p hc
    have hfree : x.1 = false := by
      refine Bool.eq_false_iff.2 fun hk => ?_
      obtain ⟨r, hr⟩ := henters hk
      cases hc.symm.trans hr
    rw [hfree, with_mutex hm]
    simp only [hexec]
    exact ⟨hm', hrun⟩

theorem replay_ok (hm : db.mutex = false) (log : List (τ × SscDbCall))
    (h : Each (sscSystem env).take (sscSystem env).Enters (false, db) log) :
    ((sscSystem env).replay db log).2.mutex = false ∧ sscCalls env db (log.map Prod.snd)
      = .ok { ((sscSystem env).replay db log).2 with
        mutex := ((sscSystem env).replay db log).1 } := by
  induction log using List.reverseRecOn with
  | nil => exact ⟨hm, congrArg Except.ok (with_mutex hm).symm⟩
  | append_singleton log y ih =>
    obtain ⟨hlog, henters⟩ := each_concat.1 h
    obtain ⟨hfree, hcalls⟩ := ih hlog
    obtain ⟨hfree', hrun⟩ := run_ok hfree henters
    rw [replay_concat, List.map_append, List.map_singleton, sscCalls_concat, hcalls]
    exact ⟨hfree', map_ok hrun _⟩

variable [DecidableEq τ] {es : List (Event τ SscDbCall Empty)}
  {s : State τ MacOpraClass Unit SscDbCall (List (List U8))}

/-- In every run of SSC's threads the database is, while no thread is between the lock and the
unlock, that of the calls one after the other, in the order in which they took the mutex, the
mutex included that a call has kept. What a call sends to PI is what it sends when it is made at
once at some point between its beginning and its end. -/
theorem ssc_calls_atomic (env : SscEnv) (ssc₀ : MacOpraClass)
    (hp : Path (step (sscSystem env)) (.start (sscDbInit ssc₀) ()) es s) :
    ((∀ t, (s.doing t).Outside) → sscCalls env (sscDbInit ssc₀) (s.log.map Prod.snd)
        = .ok { s.shared with mutex := s.holder.isSome })
      ∧ ∀ t, s.doing t = .idle → ∀ es' s', Path (step (sscSystem env)) s es' s' →
        ∃ new, s'.returned t = s.returned t ++ new ∧ ∀ c sent, (c, sent) ∈ new →
          ∃ log db db', s.log <+: log ∧ log ++ [(t, c)] <+: s'.log
            ∧ sscCalls env (sscDbInit ssc₀) (log.map Prod.snd) = .ok db
            ∧ c.run env db = .ok (db', sent) := by
  have h : Linear (sscSystem env) (sscDbInit ssc₀) s := (Linear.start _ _).path hp
  have hm : (sscDbInit ssc₀).mutex = false := rfl
  refine ⟨fun hout => ?_, fun t hidle es' s' hp' => ?_⟩
  · have hcalls := (replay_ok hm s.log h.enters).2
    rwa [h.replay_eq hout] at hcalls
  · obtain ⟨new, hnew, hmem⟩ := returned_between h hp' hidle
    refine ⟨new, hnew, fun c sent hc => ?_⟩
    obtain ⟨log, hlow, hhigh, rfl⟩ := hmem c sent hc
    -- the call has taken effect after those of `log`
    obtain ⟨rest, hrest⟩ := hhigh
    have henters := (h.path hp').enters
    rw [← hrest, each_append, each_concat] at henters
    obtain ⟨hfree, hcalls⟩ := replay_ok hm log henters.1.1
    exact ⟨log, _, _, hlow, ⟨rest, hrest⟩, hcalls, (run_ok hfree henters.1.2).2⟩

/-- A static addition waits for a dynamic one of the other thread, gets no memory and keeps the
mutex. -/
theorem ssc_calls_atomic_kept : ∃ s : State Bool MacOpraClass Unit SscDbCall (List (List U8)),
    (∀ t, s.doing t = .idle) ∧ s.holder = some true
      ∧ sscCalls littleEnv (sscDbInit .blank) [.sscAddDynAddr true .zero,
        .sscLocalAddAddr false ⟨Vector.replicate macLen 0, 0, 0⟩]
          = .ok { s.shared with mutex := true } := by
  let es : List (Event Bool SscDbCall Empty) :=
    [.call false (.sscAddDynAddr true .zero), .run false, .run false,
      .call true (.sscLocalAddAddr false ⟨Vector.replicate macLen 0, 0, 0⟩)]
      ++ List.replicate 3 (.run false) ++ List.replicate 3 (.run true)
  obtain ⟨s, hs, hidle, hheld, hlog⟩ : ∃ s, es.foldlM (step (sscSystem littleEnv))
      (.start (sscDbInit .blank) ()) = some s ∧ (∀ t, s.doing t = .idle) ∧ s.holder = some true
        ∧ s.log.map Prod.snd = [.sscAddDynAddr true .zero,
          .sscLocalAddAddr false ⟨Vector.replicate macLen 0, 0, 0⟩] :=
    ⟨_, rfl, fun t => by cases t <;> rfl, rfl, rfl⟩
  have h := (ssc_calls_atomic littleEnv .blank (.of_foldlM hs)).1 fun t c p hd => by
    cases (hidle t).symm.trans hd
  rw [hlog, hheld] at h
  exact ⟨s, hidle, hheld, h⟩

end Run

end RookieMac.Ssc
