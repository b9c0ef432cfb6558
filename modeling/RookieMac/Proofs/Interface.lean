import RookieMac.Proofs.PiTable
import RookieMac.Proofs.Notify

/-!
# Clearing an interface

A notification is stored at SSC with the interface its port belongs to; the clear of an interface
looks for the physical id of that interface. So SSC's clear and PI's take the same entries only
where the two numbers cannot be told apart in the table.
-/

namespace RookieMac

open CMem Chained

section Learnt

/-- SSC's database after `ssc_db_init` and notifications, each with the outcomes of its
allocations. -/
def notified (env : Ssc.SscEnv) (db : Ssc.MacOpraClass) (ns : List (List U8 × (ℕ → Bool))) :
    Except Ssc.Fault Ssc.MacOpraClass :=
  ns.foldlM (fun db n => (Ssc.sscMacUpdateRecv env n.2 n.1 db).map Prod.fst) (Ssc.sscDbInit db)

variable {env : Ssc.SscEnv} {db : Ssc.MacOpraClass}

/-- The ports of the dynamic table are interfaces of the ports notified. -/
def PortsFrom (env : Ssc.SscEnv) (payloads : List (List U8)) (head : HashTbl) : Prop :=
  ∀ x ∈ entries head, ∃ payload ∈ payloads, x.portId = (Ssc.notifyData env payload).portId

theorem mem_upsert {p : PiMacEntry → Bool} {e x : PiMacEntry} {i : Fin hashSize} {head : HashTbl}
    (hx : x ∈ entries (upsert p (setPort e.portId) e i head)) :
    x.portId = e.portId ∨ x ∈ entries head := by
  obtain ⟨j, hj⟩ := mem_entries.1 hx
  rcases eq_or_ne j i with rfl | hji
  · rw [upsert, Function.update_self] at hj
    rcases modifyFirst_cases p (setPort e.portId) (head j) with ⟨hn, -⟩ | ⟨l₁, a, l₂, hl, -, hs⟩
    · rw [hn, Option.getD_none, List.mem_cons] at hj
      rcases hj with rfl | hj
      · exact .inl rfl
      · exact .inr (mem_entries.2 ⟨j, hj⟩)
    · rw [hs, Option.getD_some, List.mem_append, List.mem_cons] at hj
      rcases hj with hj | rfl | hj
      · exact .inr (mem_entries.2 ⟨j, by simp [hl, hj]⟩)
      · exact .inl rfl
      · exact .inr (mem_entries.2 ⟨j, by simp [hl, hj]⟩)
  · rw [upsert, Function.update_of_ne hji] at hj
    exact .inr (mem_entries.2 ⟨j, hj⟩)

theorem mem_notifyDyn {e x : PiMacEntry} {head : HashTbl} {hash : HashFn}
    (hx : x ∈ entries (Ssc.notifyDyn hash head e)) : x.portId = e.portId ∨ x ∈ entries head := by
  unfold Ssc.notifyDyn at hx
  split_ifs at hx
  · exact mem_upsert hx
  · obtain ⟨j, hj⟩ := mem_entries.1 hx
    refine .inr (mem_entries.2 ⟨j, ?_⟩)
    rcases eq_or_ne j (hash e.mac e.vlanId) with rfl | hji
    · rw [Function.update_self] at hj
      exact (List.mem_filter.1 hj).1
    · rwa [Function.update_of_ne hji] at hj

/-- A notification is handled with the mutex free and with whatever memory there is, and the ports
it leaves are its own and those there were. -/
theorem sscMacUpdateRecv_ports (hm : db.mutex = false) (mem : ℕ → Bool) (payload : List U8) :
    ∃ db', (Ssc.sscMacUpdateRecv env mem payload db).map Prod.fst = .ok db' ∧ db'.mutex = false
      ∧ ∀ x ∈ entries db'.dynMacTblHead,
        x.portId = (Ssc.notifyData env payload).portId ∨ x ∈ entries db.dynMacTblHead := by
  set e := Ssc.notifyData env payload with he
  have fst : ∀ db', Ssc.sscNotifyUpdate env (mem 1) e db = .ok db' →
      (Ssc.sscMacUpdateRecv env mem payload db).map Prod.fst = .ok db' := by
    intro db' hu
    simp only [Ssc.sscMacUpdateRecv, ← he, hu, bind, Except.bind, pure, Except.pure, Except.map]
  have full : Ssc.sscNotifyUpdate env (mem 1) e db = Ssc.sscNotifyUpdate env true e db →
      ∃ db', (Ssc.sscMacUpdateRecv env mem payload db).map Prod.fst = .ok db' ∧ db'.mutex = false
        ∧ ∀ x ∈ entries db'.dynMacTblHead, x.portId = e.portId ∨ x ∈ entries db.dynMacTblHead :=
    fun hu => ⟨_, fst _ (hu.trans (Ssc.sscNotifyUpdate_ok hm e)), hm, fun _ => mem_notifyDyn⟩
  rcases hmem : mem 1 with _ | _
  · rw [hmem] at fst full
    by_cases hflags : e.flags ≠ 0
    · simp only [Ssc.sscNotifyUpdate, if_pos hflags] at fst full
      rcases Ssc.sscAddDynAddr_noMem hm e with hn | hn
      · exact ⟨db, fst db hn, hm, fun _ => .inr⟩
      · exact full hn
    · exact full (by simp only [Ssc.sscNotifyUpdate, if_neg hflags])
  · exact full (by rw [hmem])

theorem notified_ports (env : Ssc.SscEnv) (db₀ : Ssc.MacOpraClass)
    (ns : List (List U8 × (ℕ → Bool))) :
    ∃ db, notified env db₀ ns = .ok db ∧ db.mutex = false
      ∧ PortsFrom env (ns.map Prod.fst) db.dynMacTblHead := by
  refine Runs.foldlM_total ns (Ssc.sscDbInit db₀) ?_ ⟨rfl, ?_⟩
  · rintro db n hn ⟨hm, hp⟩
    obtain ⟨db', hr, hm', hx'⟩ := sscMacUpdateRecv_ports hm n.2 n.1
    refine ⟨db', hr, hm', fun x hx => ?_⟩
    rcases hx' x hx with hport | hold
    · exact ⟨n.1, List.mem_map_of_mem hn, hport⟩
    · exact hp x hold
  · intro x hx
    simp [Ssc.sscDbInit] at hx

end Learnt

section Clear

def withoutPort (p : U32) (head : HashTbl) : HashTbl :=
  fun i => (head i).filter fun x => !decide (x.portId = p)

theorem mem_withoutPort {p : U32} {head : HashTbl} {x : PiMacEntry} :
    x ∈ entries (withoutPort p head) ↔ x ∈ entries head ∧ x.portId ≠ p := by
  simp only [mem_entries, withoutPort, List.mem_filter, Bool.not_eq_true', decide_eq_false_iff_not,
    exists_and_right]

/-- Two ports pick the same entries only where neither picks one. -/
theorem withoutPort_eq_iff {p q : U32} {head : HashTbl} : withoutPort q head = withoutPort p head
    ↔ q = p ∨ ∀ x ∈ entries head, x.portId ≠ p ∧ x.portId ≠ q := by
  constructor
  · intro h
    refine or_iff_not_imp_left.2 fun hne x hx => ?_
    have hmem : x.portId ≠ q ↔ x.portId ≠ p := by
      have := congrArg (x ∈ entries ·) h
      simpa only [mem_withoutPort, hx, true_and, eq_iff_iff] using this
    refine ⟨fun hp => hmem.1 ?_ hp, fun hq => hmem.2 ?_ hq⟩
    · rw [hp]
      exact Ne.symm hne
    · rw [hq]
      exact hne
  · rintro (rfl | h)
    · rfl
    · funext i
      refine List.filter_congr fun x hx => ?_
      obtain ⟨hp, hq⟩ := h x (mem_entries.2 ⟨i, hx⟩)
      simp [hp, hq]

/-- The clear of interface `p`, whatever memory there is for the message to SSD and whatever follows
the message in the buffer, leaves of the dynamic table what is not on that interface, which is what
PI's clear leaves of an equal table. -/
def ClearsInterface (env : Ssc.SscEnv) (db : Ssc.MacOpraClass) (p : U32) : Prop :=
  ∀ (mem : ℕ → Bool) (rest : List U8), ∃ db' sent,
    Ssc.sscClearInterFunc env mem (Pi.piSendMsgSsc .clearInterDyn (toBytes p) ++ rest) db
      = .ok (db', sent)
    ∧ db'.dynMacTblHead = withoutPort p db.dynMacTblHead
    ∧ ∀ pi : Pi.PiDbMacInfo, pi.dynMacTblHead = db.dynMacTblHead →
      (Pi.clearLocalMac .clearInterDyn (toBytes p) pi).dynMacTblHead = db'.dynMacTblHead

theorem clearInter_dyn (p : U32) (pi : Pi.PiDbMacInfo) :
    (Pi.clearLocalMac .clearInterDyn (toBytes p) pi).dynMacTblHead
      = withoutPort p pi.dynMacTblHead := by
  simp only [Pi.clearLocalMac, Pi.callClearLocalMac_dyn, Pi.clearInterMac, readU32_toBytes_self]
  funext i
  refine List.filter_congr fun x _ => ?_
  split_ifs with hx <;> simp [hx]

variable {env : Ssc.SscEnv} {db : Ssc.MacOpraClass}

theorem sscClearInterFunc_ok (hm : db.mutex = false) (mem : ℕ → Bool) (p : U32) (rest : List U8) :
    ∃ sent, Ssc.sscClearInterFunc env mem (Pi.piSendMsgSsc .clearInterDyn (toBytes p) ++ rest) db
      = .ok ({ db with
          dynMacTblHead := withoutPort (env.ssCommIfxDbGetPhyid p) db.dynMacTblHead }, sent) := by
  simp only [Ssc.sscClearInterFunc, Pi.piSendMsgSsc, msgBody_msgInfo, readU32_toBytes,
    Ssc.sscDelIntAddr, Ssc.delFromDyn_ok hm]
  exact ⟨_, rfl⟩

theorem clearsInterface_iff (hm : db.mutex = false) (p : U32) : ClearsInterface env db p
    ↔ withoutPort (env.ssCommIfxDbGetPhyid p) db.dynMacTblHead
      = withoutPort p db.dynMacTblHead := by
  constructor
  · intro h
    obtain ⟨db', sent', hr', hd, -⟩ := h (fun _ => true) []
    obtain ⟨sent, hr⟩ := sscClearInterFunc_ok hm (fun _ => true) p []
    obtain ⟨rfl, -⟩ := Prod.mk.inj (Except.ok.inj (hr.symm.trans hr'))
    exact hd
  · intro h mem rest
    obtain ⟨sent, hr⟩ := sscClearInterFunc_ok hm mem p rest
    refine ⟨_, sent, hr, h, fun pi hpi => ?_⟩
    rw [clearInter_dyn, hpi]
    exact h.symm

/-- After any notifications the dynamic table holds ports of theirs, and a clear of interface `p`
takes from it what PI's takes exactly when `p` is its own physical id or the table has no entry on
either number. -/
theorem clear_interface_iff (env : Ssc.SscEnv) (db₀ : Ssc.MacOpraClass)
    (ns : List (List U8 × (ℕ → Bool))) :
    ∃ db, notified env db₀ ns = .ok db
      ∧ PortsFrom env (ns.map Prod.fst) db.dynMacTblHead
      ∧ ∀ p, ClearsInterface env db p ↔ env.ssCommIfxDbGetPhyid p = p
        ∨ ∀ x ∈ entries db.dynMacTblHead, x.portId ≠ p ∧ x.portId ≠ env.ssCommIfxDbGetPhyid p := by
  obtain ⟨db, hr, hm, hp⟩ := notified_ports env db₀ ns
  exact ⟨db, hr, hp, fun p => (clearsInterface_iff hm p).trans withoutPort_eq_iff⟩

/-- A target whose interface numbers are one below the physical ids. -/
def shiftedEnv : Ssc.SscEnv := ⟨hashFunction .little 0, (· + 1), (· - 1), 0⟩

/-- An address learnt on physical port 4, which is interface 3, and a clear of interface 3: the
address is not on what SSC looks for. -/
theorem clear_interface_misses :
    Function.LeftInverse shiftedEnv.ssCommIfxDbGetPhyid shiftedEnv.ssCommGetPhyidUserIfx
      ∧ Function.RightInverse shiftedEnv.ssCommIfxDbGetPhyid shiftedEnv.ssCommGetPhyidUserIfx
      ∧ ∃ db, notified shiftedEnv .blank
          [(ssdNotify ⟨#v[2, 0, 0, 0, 0, 1], 1, 10, 4, 0⟩, fun _ => true)] = .ok db
        ∧ ¬ ClearsInterface shiftedEnv db 3 := by
  refine ⟨fun x => sub_add_cancel x 1, fun x => add_sub_cancel_right x 1, ?_⟩
  set e : PiMacEntry := ⟨#v[2, 0, 0, 0, 0, 1], 1, 10, 4, 0⟩
  have hdata : Ssc.notifyData shiftedEnv (ssdNotify e) = { e with portId := 3 } := by
    simp [Ssc.notifyData, ssdNotify, shiftedEnv, e]
  have hm : (Ssc.sscDbInit .blank).mutex = false := rfl
  have hrecv : Ssc.sscMacUpdateRecv shiftedEnv (fun _ => true) (ssdNotify e) (Ssc.sscDbInit .blank)
      = _ := Ssc.sscMacUpdateRecv_ok hm (ssdNotify e)
  rw [hdata] at hrecv
  refine ⟨_, by rw [notified, List.foldlM_cons, hrecv]; rfl, ?_⟩
  intro hclears
  rcases withoutPort_eq_iff.1 ((clearsInterface_iff rfl 3).1 hclears) with h | h
  · exact absurd h (by decide)
  · have hx : ({ e with portId := 3 } : PiMacEntry) ∈ entries (Ssc.notifyDyn shiftedEnv.hash empty
        { e with portId := 3 }) := by
      rw [Ssc.notifyDyn, if_pos (by decide), upsert, show modifyFirst _ _ _ = none from rfl,
        Option.getD_none, mem_entries]
      exact ⟨_, by rw [Function.update_self]; exact List.mem_cons_self⟩
    exact (h _ hx).1 rfl

end Clear

end RookieMac
