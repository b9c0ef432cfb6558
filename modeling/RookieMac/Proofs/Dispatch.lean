import RookieMac.Downlink
import RookieMac.Proofs.Mutex
import RookieMac.Proofs.SscMacInit

/-!
# A message of an unknown type

SSC, SSD and SSA call through a table that the type in the message indexes, and none of them looks
at the type first. PI's `switch` has a branch for the types it does not know.
-/

namespace RookieMac

open CMem Ssc

/-! ## Calls through a table -/

section Table

variable {n : ℕ} {F σ : Type}

/-- The slot of the type is in the table, and holds a handler. -/
def Handled (tbl : Fin n → Option F) (type : U32) : Prop :=
  ∃ h : type.toNat < n, (tbl ⟨type.toNat, h⟩).isSome

/-- A dispatch calls nothing but a handler of the table, and does nothing where the type has none.
-/
structure Guarded (tbl : Fin n → Option F) (type : U32) (r : Except Fault σ) (same : σ) : Prop where
  inBounds : r ≠ .error .outOfBounds
  notNull : r ≠ .error .nullCall
  rejects : ¬ Handled tbl type → r = .ok same

/-- The call of the three components, with the handlers' bodies apart. -/
def callAt (tbl : Fin n → Option F) (type : U32) (call : F → Except Fault σ) : Except Fault σ :=
  if h : type.toNat < n then
    match tbl ⟨type.toNat, h⟩ with
    | some f => call f
    | none => .error .nullCall
  else .error .outOfBounds

variable {tbl : Fin n → Option F} {type : U32}

theorem callAt_handled (call : F → Except Fault σ) (h : Handled tbl type) :
    ∃ f, callAt tbl type call = call f := by
  obtain ⟨hlt, hsome⟩ := h
  obtain ⟨f, hf⟩ := Option.isSome_iff_exists.1 hsome
  refine ⟨f, ?_⟩
  rw [callAt, dif_pos hlt]
  simp only [hf]

theorem callAt_not_handled (call : F → Except Fault σ) (h : ¬ Handled tbl type) :
    callAt tbl type call = .error .outOfBounds ∨ callAt tbl type call = .error .nullCall := by
  unfold callAt
  split_ifs with hlt
  · right
    rcases hf : tbl ⟨type.toNat, hlt⟩ with _ | f
    · rfl
    · exact absurd ⟨hlt, by rw [hf]; rfl⟩ h
  · exact .inl rfl

/-- Where the handlers do not fault by themselves the dispatch is guarded for the types that have
one only. -/
theorem guarded_iff {call : F → Except Fault σ}
    (hcall : ∀ f, call f ≠ .error .outOfBounds ∧ call f ≠ .error .nullCall)
    (same : σ) : Guarded tbl type (callAt tbl type call) same ↔ Handled tbl type := by
  by_cases h : Handled tbl type
  · obtain ⟨f, hf⟩ := callAt_handled call h
    refine iff_of_true ⟨?_, ?_, fun hn => absurd h hn⟩ h
    · rw [hf]
      exact (hcall f).1
    · rw [hf]
      exact (hcall f).2
  · refine iff_of_false (fun hg => ?_) h
    rcases callAt_not_handled call h with hr | hr
    · exact hg.inBounds hr
    · exact hg.notNull hr

theorem guarded_ok_iff (g : F → σ) (same : σ) :
    Guarded tbl type (callAt tbl type fun f => .ok (g f)) same ↔ Handled tbl type := by
  refine guarded_iff (fun f => ?_) same
  constructor <;> exact nofun

theorem handled_iff {k : ℕ} (hk : k ≤ n) (h : ∀ i, (tbl i).isSome ↔ i.val < k) :
    Handled tbl type ↔ type.toNat < k := by
  refine ⟨fun ⟨hlt, hs⟩ => (h _).1 hs, fun hlt => ⟨by omega, (h _).2 hlt⟩⟩

end Table

/-! ## SSC's table over a run -/

namespace Ssc

/-- What SSC does with its database: it handles a message of PI, or one of the functions that take
the mutex runs. -/
inductive SscCall
  | sscRecevieMsgPi (mem : ℕ → Bool) (msgText : List U8)
  | db (op : DbOp)

def SscCall.run (env : SscEnv) (db : MacOpraClass) : SscCall → Except Fault MacOpraClass
  | .sscRecevieMsgPi mem msgText => (Ssc.sscRecevieMsgPi env mem msgText db).map Prod.fst
  | .db op => op.run env db

variable {env : SscEnv} {db db' : MacOpraClass}

theorem DbOp.run_func {op : DbOp} (hrun : op.run env db = .ok db') :
    db'.sscMacFunc = db.sscMacFunc := by
  have sends : ∀ {r : Except Fault (MacOpraClass × List (List U8))},
      r.map Prod.fst = .ok db' → (∀ sent, r = .ok (db', sent) → db' = db) →
      db'.sscMacFunc = db.sscMacFunc := by
    rintro (fault | ⟨db₁, sent⟩) h hr
    · cases h
    · obtain rfl := Except.ok.inj h
      rw [hr sent rfl]
  cases op with
  | table op =>
    cases op with
    | sscAddDynAddr mem entry =>
      obtain ⟨-, rfl | rfl⟩ := sscAddDynAddr_cases hrun
      · rfl
      · rfl
    | sscLocalAddAddr mem entry => exact (sscLocalAddAddr_static hrun).1
    | sscDelAgeEntry entry =>
      obtain ⟨-, rfl⟩ := sscDelAgeEntry_eq hrun
      rfl
    | sscDelDynAddr => exact (delFromDyn_static hrun).1
    | sscDelVlanAddr vlan => exact (delFromDyn_static hrun).1
    | sscDelIntAddr phyId => exact (delFromDyn_static hrun).1
  | sscDsConfInfo mem => exact sends hrun fun _ h => (send_eq h).1
  | sscDsStaticInfo mem => exact sends hrun fun _ h => (send_eq h).1
  | sscDsDynInfo mem => exact sends hrun fun _ h => (send_eq h).1

theorem exists_handler (f : SscMacFunc) : ∃ type, sscHandler type = f := by
  cases f with
  | sscAddStaticFunc => exact ⟨.macAddAddr, rfl⟩
  | sscClearDynFunc => exact ⟨.macClearDyn, rfl⟩
  | sscClearVlanFunc => exact ⟨.clearVlanMac, rfl⟩
  | sscClearInterFunc => exact ⟨.clearInterDyn, rfl⟩
  | sscModifyInterLeanSta => exact ⟨.macInterLearn, rfl⟩
  | sscModifyAgeTime => exact ⟨.macAgetime, rfl⟩
  | sscRecePiDsStart => exact ⟨.dsStart, rfl⟩
  | sscRecePiDsData => exact ⟨.dsIng, rfl⟩
  | sscRecePiDsEnd => exact ⟨.dsEnd, rfl⟩

theorem sscRecevieMsgPi_eq (mem : ℕ → Bool) (msgText : List U8) :
    sscRecevieMsgPi env mem msgText db
      = callAt db.sscMacFunc (msgType msgText) fun f => f.call env mem msgText db := by
  unfold sscRecevieMsgPi callAt
  simp only []
  congr 1
  funext h
  rcases db.sscMacFunc ⟨(msgType msgText).toNat, h⟩ with _ | f <;> rfl

/-- A handler that is called may wait for the mutex, and does not fault otherwise. -/
theorem call_not_fault (mem : ℕ → Bool) (msgText : List U8) (f : SscMacFunc) :
    f.call env mem msgText db ≠ .error .outOfBounds
      ∧ f.call env mem msgText db ≠ .error .nullCall := by
  obtain ⟨type, rfl⟩ := exists_handler f
  constructor <;>
  · intro h
    cases call_error h

theorem recv_func {mem : ℕ → Bool} {msgText : List U8} {out : List SsInfo}
    (hrun : sscRecevieMsgPi env mem msgText db = .ok (db', out)) :
    db'.sscMacFunc = db.sscMacFunc := by
  rw [sscRecevieMsgPi_eq] at hrun
  by_cases h : Handled db.sscMacFunc (msgType msgText)
  · obtain ⟨f, hf⟩ := callAt_handled (fun f => f.call env mem msgText db) h
    obtain ⟨type, rfl⟩ := exists_handler f
    rw [hf] at hrun
    exact (call_static hrun).1
  · rcases callAt_not_handled (fun f => f.call env mem msgText db) h with hr | hr
    · rw [hr] at hrun
      cases hrun
    · rw [hr] at hrun
      cases hrun

theorem SscCall.run_registered (h : Registered db) {call : SscCall}
    (hrun : call.run env db = .ok db') : Registered db' := by
  cases call with
  | sscRecevieMsgPi mem msgText =>
    rw [SscCall.run] at hrun
    rcases hr : Ssc.sscRecevieMsgPi env mem msgText db with fault | ⟨db₁, out⟩
    · rw [hr] at hrun
      cases hrun
    · rw [hr] at hrun
      obtain rfl := Except.ok.inj hrun
      exact (recv_func hr).trans h
  | db op => exact (DbOp.run_func hrun).trans h

theorem run_registered {calls : List SscCall} {db₀ : MacOpraClass}
    (hrun : calls.foldlM (SscCall.run env) (sscMacOperaInit db₀) = .ok db) : Registered db := by
  have hstep : ∀ db (call : SscCall) db', Registered db → call.run env db = .ok db' →
      Registered db' := fun _ _ _ h hr => SscCall.run_registered h hr
  have hinit : Registered (sscMacOperaInit db₀) := rfl
  exact Runs.foldlM_invariant hstep calls _ _ hinit hrun

theorem handled_ssc (h : Registered db) (type : U32) :
    Handled db.sscMacFunc type ↔ type.toNat < piMsgidMacIdNum := by
  refine handled_iff le_rfl fun i => iff_of_true ?_ i.isLt
  rw [h]
  fin_cases i <;> rfl

end Ssc

/-! ## The three tables -/

theorem Ssd.ssdMacRecvSscCommand_eq (ssPhyidCe2fe : U32 → U32) (mem : Bool) (payload : List U8) :
    ssdMacRecvSscCommand ssPhyidCe2fe mem payload
      = callAt ssdMacFuncInit (msgType payload) fun f => .ok (f.call ssPhyidCe2fe mem payload) := by
  unfold ssdMacRecvSscCommand callAt
  simp only []
  congr 1
  funext h
  rcases ssdMacFuncInit ⟨(msgType payload).toNat, h⟩ with _ | f <;> rfl

theorem Ssa.ssaMacRecvSsdComm_eq (env : SsaEnv) (payload : List U8) (log : List BcmCall) :
    ssaMacRecvSsdComm env payload log
      = callAt ssaMacDrvFuncInit (msgType payload) fun f => .ok (f.call env log payload) := by
  unfold ssaMacRecvSsdComm callAt
  simp only []
  congr 1
  funext h
  rcases ssaMacDrvFuncInit ⟨(msgType payload).toNat, h⟩ with _ | f <;> rfl

theorem handled_ssd (type : U32) :
    Handled Ssd.ssdMacFuncInit type ↔ type.toNat < ssdMsgidMacIdNum := by
  refine handled_iff (by decide) fun i => ?_
  revert i
  decide

theorem handled_ssa (type : U32) :
    Handled Ssa.ssaMacDrvFuncInit type ↔ type.toNat < ssdMsgidMacIdNum := by
  refine handled_iff le_rfl fun i => ?_
  revert i
  decide

/-- The branch of PI's `switch` for the other types. -/
theorem dealReceMsg_default {hash : HashFn} {mem : Bool} {receMsg : List U8} {db : Pi.PiDbMacInfo}
    (h : ∀ type ∈ [SscMacMsgid.macUpStart, .macUpIng, .macUpEnd, .macAddrNotify, .macFetch],
      msgType receMsg ≠ type.val) : Pi.dealReceMsg hash mem receMsg db = db := by
  unfold Pi.dealReceMsg
  simp only []
  rw [if_neg (h _ (by decide)), if_neg (h _ (by decide)), if_neg (h _ (by decide)),
    if_neg (h _ (by decide)), if_neg (h _ (by decide))]

/-- A dispatch is guarded, in whatever state a run leaves SSC, exactly for the types that have a
handler: nine at SSC, and the first six at SSD and SSA, although SSD's table has eleven slots. PI
rejects the types it does not know. -/
theorem dispatch_guarded_iff (env : SscEnv) (ssPhyidCe2fe : U32 → U32) (ssaEnv : Ssa.SsaEnv)
    (db₀ db : MacOpraClass) (calls : List SscCall)
    (hrun : calls.foldlM (SscCall.run env) (sscMacOperaInit db₀) = .ok db)
    (log : List Ssa.BcmCall) (pi : Pi.PiDbMacInfo) (mem : ℕ → Bool) (m : List U8) :
    (Guarded db.sscMacFunc (msgType m) (sscRecevieMsgPi env mem m db) (db, [])
        ↔ (msgType m).toNat < piMsgidMacIdNum)
      ∧ (Guarded Ssd.ssdMacFuncInit (msgType m)
          (Ssd.ssdMacRecvSscCommand ssPhyidCe2fe (mem 0) m) []
        ↔ (msgType m).toNat < ssdMsgidMacIdNum)
      ∧ (Guarded Ssa.ssaMacDrvFuncInit (msgType m) (Ssa.ssaMacRecvSsdComm ssaEnv m log) log
        ↔ (msgType m).toNat < ssdMsgidMacIdNum)
      ∧ ((∀ type ∈ [SscMacMsgid.macUpStart, .macUpIng, .macUpEnd, .macAddrNotify, .macFetch],
          msgType m ≠ type.val) → Pi.dealReceMsg env.hash (mem 0) m pi = pi) := by
  refine ⟨?_, ?_, ?_, dealReceMsg_default⟩
  · rw [← handled_ssc (run_registered hrun), sscRecevieMsgPi_eq]
    exact guarded_iff (call_not_fault mem m) (db, [])
  · rw [← handled_ssd]
    rw [Ssd.ssdMacRecvSscCommand_eq]
    exact guarded_ok_iff _ []
  · rw [← handled_ssa]
    rw [Ssa.ssaMacRecvSsdComm_eq]
    exact guarded_ok_iff _ log

/-- After one message, about a message of type 6: SSC has a handler for it, SSD and SSA do not. -/
theorem dispatch_guarded_iff_six :
    let db := sscMacOperaInit .blank
    let m := Pi.piSendMsgSsc .dsStart []
    (Guarded db.sscMacFunc (msgType m) (sscRecevieMsgPi littleEnv (fun _ => true) m db) (db, [])
        ↔ (msgType m).toNat < piMsgidMacIdNum)
      ∧ (Guarded Ssd.ssdMacFuncInit (msgType m) (Ssd.ssdMacRecvSscCommand id true m) []
        ↔ (msgType m).toNat < ssdMsgidMacIdNum) := by
  intro db m
  have hreg : Registered db := rfl
  have hrun : [SscCall.sscRecevieMsgPi (fun _ => true) m].foldlM (SscCall.run littleEnv)
      (sscMacOperaInit .blank) = .ok db := by
    rw [List.foldlM_cons, SscCall.run, sscRecevieMsgPi_call hreg]
    rfl
  have h := dispatch_guarded_iff littleEnv id ⟨0, 0, 0, 0, 0, 0, 0, 0, 0, 0, fun _ _ => 0,
    fun _ => (0, 0), fun _ _ _ => 0⟩ .blank db _ hrun [] .blank (fun _ => true) m
  exact ⟨h.1, h.2.1⟩

/-- SSC reads a message of PI in two parts and takes the second, the age time, for a message. A
type 6, a message of SSC to PI, finds an empty slot at SSD and none at SSA. -/
theorem dispatch_unguarded :
    let db := sscMacOperaInit .blank
    let reads := Framing.cut [8, 4] (Pi.piSendMsgSsc .macAgetime (toBytes 300))
    let m := msgInfo SscMacMsgid.macUpStart.val []
    (∀ buff₀, ∃ buff ∈ pthreadDealFunc littleEnv buff₀ reads,
        sscRecevieMsgPi littleEnv (fun _ => true) buff db = .error .outOfBounds)
      ∧ Ssd.ssdMacRecvSscCommand id true m = .error .nullCall
      ∧ ∀ ssaEnv, Ssa.ssaMacRecvSsdComm ssaEnv m [] = .error .outOfBounds := by
  intro db reads m
  refine ⟨fun buff₀ => ⟨_, .tail _ (.head _), ?_⟩, ?_, fun ssaEnv => ?_⟩
  · have htype : ∀ rest, msgType (toBytes 300 ++ rest) = 300 := readU32_toBytes 300
    have hread : ((Pi.piSendMsgSsc .macAgetime (toBytes 300)).drop 8).take 4 = toBytes 300 := rfl
    unfold sscRecevieMsgPi
    rw [hread, Framing.readInto, htype]
    exact dif_neg (by decide)
  · have htype : msgType m = 6 := by decide
    unfold Ssd.ssdMacRecvSscCommand
    rw [htype]
    rfl
  · unfold Ssa.ssaMacRecvSsdComm
    exact dif_neg (by decide)

end RookieMac
