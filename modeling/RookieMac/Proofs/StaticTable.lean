import RookieMac.Proofs.PiTable
import RookieMac.Proofs.SscTable
import RookieMac.MacMap

/-!
# The static tables under CLI commands

A command changes PI's tables and is delivered to SSC's handler. Both sides bind the key of an added
address. A clear of a VLAN or an interface filters PI's static table; SSC's handlers filter its
dynamic table only. So the static tables part at the first clear that meets a static entry, and at
no other command.
-/

namespace RookieMac

open CMem Chained

/-! ## PI's side -/

namespace Pi

variable {hash : HashFn} {db : PiDbMacInfo}

theorem execClearDynamic_static (db : PiDbMacInfo) :
    (execClearRookieMacDynamicCmd hash db).1.staticMacTblHead = db.staticMacTblHead := by
  simp only [execClearRookieMacDynamicCmd, sendAndUpdate, piUpdateLocalDb, clearLocalMac,
    callClearLocalMac_static, ↓reduceIte]

theorem clearVlan_static (vlan : U32) (db : PiDbMacInfo) :
    (sendAndUpdate hash true .clearVlanMac (toBytes vlan) db).1.staticMacTblHead
      = fun i => (db.staticMacTblHead i).filter fun x => !decide (x.vlanId = vlan) := by
  simp only [sendAndUpdate, piUpdateLocalDb, clearLocalMac, callClearLocalMac_static, reduceCtorEq,
    ↓reduceIte, clearVlanMac, readU32_toBytes_self]
  funext i
  refine List.filter_congr fun x _ => ?_
  split_ifs with hx <;> simp [hx]

theorem clearInter_static (inter : U32) (db : PiDbMacInfo) :
    (sendAndUpdate hash true .clearInterDyn (toBytes inter) db).1.staticMacTblHead
      = fun i => (db.staticMacTblHead i).filter fun x => !decide (x.portId = inter) := by
  simp only [sendAndUpdate, piUpdateLocalDb, clearLocalMac, callClearLocalMac_static, reduceCtorEq,
    ↓reduceIte, clearInterMac, readU32_toBytes_self]
  funext i
  refine List.filter_congr fun x _ => ?_
  split_ifs with hx <;> simp [hx]

theorem cfgStatic_static (tmp : BaseStaticMac) (db : PiDbMacInfo) :
    (cfgRookieMacTableStaticCmd hash true tmp db).1.staticMacTblHead
      = (insertHashTable hash ⟨tmp.mac, 0, tmp.vlanId, tmp.portId, 0⟩ db.staticMacTblHead).2 := by
  simp only [cfgRookieMacTableStaticCmd, sendAndUpdate, piUpdateLocalDb, piLocalSetStaticAddr,
    ↓reduceIte, BaseStaticMac.read_bytes_self]
  rfl

end Pi

/-! ## SSC's side -/

namespace Ssc

/-- `ssc_mac_opera_init` has run: every type of PI message has its handler. -/
def Registered (db : MacOpraClass) : Prop :=
  db.sscMacFunc = (sscMacOperaInit db).sscMacFunc

variable {env : SscEnv} {db : MacOpraClass}

/-- A message is handled by its type's handler. -/
theorem sscRecevieMsgPi_type (h : Registered db) (mem : ℕ → Bool) {type : PiMacMsgid}
    {buff : List U8} (hty : msgType buff = type.val) :
    sscRecevieMsgPi env mem buff db = (sscHandler type).call env mem buff db := by
  unfold sscRecevieMsgPi
  simp only [hty]
  rw [h]
  cases type <;> rfl

/-- What follows a message in the buffer does not change its handler. -/
theorem sscRecevieMsgPi_append (h : Registered db) (mem : ℕ → Bool) (type : PiMacMsgid)
    (msg rest : List U8) : sscRecevieMsgPi env mem (Pi.piSendMsgSsc type msg ++ rest) db
      = (sscHandler type).call env mem (Pi.piSendMsgSsc type msg ++ rest) db :=
  sscRecevieMsgPi_type h mem (msgType_msgInfo _ _ _)

theorem sscRecevieMsgPi_call (h : Registered db) (mem : ℕ → Bool) (type : PiMacMsgid)
    (msg : List U8) : sscRecevieMsgPi env mem (Pi.piSendMsgSsc type msg) db
      = (sscHandler type).call env mem (Pi.piSendMsgSsc type msg) db := by
  simpa using sscRecevieMsgPi_append h mem type msg []

theorem sscAddStaticFunc_ok (hm : db.mutex = false) (tmp : BaseStaticMac) :
    ((sscHandler .macAddAddr).call env (fun _ => true) (Pi.piSendMsgSsc .macAddAddr tmp.bytes)
      db).map Prod.fst = .ok { db with
        staticMacTblHead := upsert (sameKey tmp.mac tmp.vlanId)
          (setPort (env.ssCommIfxDbGetPhyid tmp.portId))
          ⟨tmp.mac, 0, tmp.vlanId, env.ssCommIfxDbGetPhyid tmp.portId, staticType⟩
          (env.hash tmp.mac tmp.vlanId) db.staticMacTblHead } := by
  simp only [sscHandler, SscMacFunc.call, sscAddStaticFunc, Pi.piSendMsgSsc, msgBody_msgInfo_self,
    BaseStaticMac.read_bytes_self]
  rw [sscLocalAddAddr_ok hm]
  rfl

/-- The handlers of the clears change the dynamic table only. -/
theorem clear_ok (env : SscEnv) (hm : db.mutex = false) {type : PiMacMsgid}
    (ht : type = .macClearDyn ∨ type = .clearVlanMac ∨ type = .clearInterDyn) (data : List U8) :
    ∃ dyn, ((sscHandler type).call env (fun _ => true) data db).map Prod.fst
      = .ok { db with dynMacTblHead := dyn } := by
  rcases ht with rfl | rfl | rfl
  · simp only [sscHandler, SscMacFunc.call, sscClearDynFunc, sscDelDynAddr, delFromDyn_ok hm]
    exact ⟨_, rfl⟩
  · simp only [sscHandler, SscMacFunc.call, sscClearVlanFunc, sscDelVlanAddr, delFromDyn_ok hm]
    exact ⟨_, rfl⟩
  · simp only [sscHandler, SscMacFunc.call, sscClearInterFunc, sscDelIntAddr, delFromDyn_ok hm]
    exact ⟨_, rfl⟩

end Ssc

/-! ## Both programs, command after command -/

section Run

/-- SSC has not stopped, the static tables have the same keys, and SSC's port of a key is the
physical id of PI's. -/
def SameStatic (env : Ssc.SscEnv) (s : Both) : Prop :=
  ∃ pi ssc, s = .ok (pi, ssc)
    ∧ keys (layout env.hash) pi.staticMacTblHead = keys (layout env.hash) ssc.staticMacTblHead
    ∧ ∀ x ∈ entries pi.staticMacTblHead, ∀ y ∈ entries ssc.staticMacTblHead, x.key = y.key →
      y.portId = env.ssCommIfxDbGetPhyid x.portId

/-- The command clears what has this key and port. -/
def MacCmd.hits (k : Key) (p : U32) : MacCmd → Bool
  | .tableStatic _ | .clearDynamic => false
  | .clearVlan v => vlanMinSize ≤ v.toInt ∧ v.toInt ≤ vlanMaxSize ∧ k.2 = v
  | .clearInterface i => p = i

namespace MacMap

def addStatic (m : MacMap) : MacCmd → MacMap
  | .tableStatic tmp => Function.update m (tmp.mac, tmp.vlanId) (some tmp.portId)
  | _ => m

/-- No static address is on the VLAN or the interface the command clears. -/
def Spares (m : MacMap) (cmd : MacCmd) : Prop := ∀ k p, m k = some p → cmd.hits k p = false

/-- Every command of the list spares the static addresses added before it. -/
def SparedRun (m : MacMap) (cmds : List MacCmd) : Prop := Runs.Each addStatic Spares m cmds

end MacMap

variable {env : Ssc.SscEnv} {pi : Pi.PiDbMacInfo} {ssc : Ssc.MacOpraClass}

/-- The static tables are one map but for the conversion of the ports, and SSC is ready. -/
structure StaticLockstep (env : Ssc.SscEnv) (pi : Pi.PiDbMacInfo) (ssc : Ssc.MacOpraClass) :
    Prop where
  mutex : ssc.mutex = false
  registered : Ssc.Registered ssc
  piWf : WF (layout env.hash) pi.staticMacTblHead
  sscWf : WF (layout env.hash) ssc.staticMacTblHead
  toMap_eq : toMap (layout env.hash) ssc.staticMacTblHead
    = Option.map env.ssCommIfxDbGetPhyid ∘ toMap (layout env.hash) pi.staticMacTblHead

theorem cmdStep_sent (h : Ssc.Registered ssc) {cmd : MacCmd} {type : PiMacMsgid} {data : List U8}
    {ssc' : Ssc.MacOpraClass} (hsent : (cmd.exec env.hash pi).2 = [Pi.piSendMsgSsc type data])
    (hcall : ((Ssc.sscHandler type).call env (fun _ => true) (Pi.piSendMsgSsc type data) ssc).map
      Prod.fst = .ok ssc') :
    cmdStep env (.ok (pi, ssc)) cmd = .ok ((cmd.exec env.hash pi).1, ssc') := by
  unfold cmdStep
  simp only [bind, Except.bind, hsent, List.foldlM_cons, List.foldlM_nil,
    Ssc.sscRecevieMsgPi_call h, hcall, pure, Except.pure]

theorem StaticLockstep.tableStatic (h : StaticLockstep env pi ssc) (tmp : BaseStaticMac) :
    ∃ pi' ssc', cmdStep env (.ok (pi, ssc)) (.tableStatic tmp) = .ok (pi', ssc')
      ∧ StaticLockstep env pi' ssc'
      ∧ toMap (layout env.hash) pi'.staticMacTblHead
        = MacMap.addStatic (toMap (layout env.hash) pi.staticMacTblHead) (.tableStatic tmp) := by
  obtain ⟨hwf, hmap, -⟩ :=
    Pi.insertHashTable_spec h.piWf ⟨tmp.mac, 0, tmp.vlanId, tmp.portId, 0⟩
  obtain ⟨hwf', hmap'⟩ := Ssc.sscLocalAddAddr_spec h.sscWf
    ⟨tmp.mac, tmp.vlanId, env.ssCommIfxDbGetPhyid tmp.portId⟩
  rw [← Pi.cfgStatic_static tmp pi] at hwf hmap
  refine ⟨_, _, cmdStep_sent h.registered rfl (Ssc.sscAddStaticFunc_ok h.mutex tmp),
    ⟨h.mutex, h.registered, hwf, hwf', ?_⟩, hmap⟩
  refine hmap'.trans ?_
  rw [h.toMap_eq, MacCmd.exec, hmap, Function.comp_update]
  rfl

theorem cmdStep_idle {cmd : MacCmd} (hsent : (cmd.exec env.hash pi).2 = []) :
    cmdStep env (.ok (pi, ssc)) cmd = .ok ((cmd.exec env.hash pi).1, ssc) := by
  unfold cmdStep
  simp only [bind, Except.bind, hsent, List.foldlM_nil, pure, Except.pure]

theorem cmdStep_clear (h : StaticLockstep env pi ssc) {cmd : MacCmd} {type : PiMacMsgid}
    {data : List U8} (ht : type = .macClearDyn ∨ type = .clearVlanMac ∨ type = .clearInterDyn)
    (hsent : (cmd.exec env.hash pi).2 = [Pi.piSendMsgSsc type data]) :
    ∃ ssc', cmdStep env (.ok (pi, ssc)) cmd = .ok ((cmd.exec env.hash pi).1, ssc')
      ∧ ssc'.mutex = false ∧ Ssc.Registered ssc'
      ∧ ssc'.staticMacTblHead = ssc.staticMacTblHead := by
  obtain ⟨dyn, hcall⟩ := Ssc.clear_ok env h.mutex ht (Pi.piSendMsgSsc type data)
  exact ⟨_, cmdStep_sent h.registered hsent hcall, h.mutex, h.registered, rfl⟩

/-- A clear at PI filters its static table, and SSC's stays as it is. -/
theorem StaticLockstep.clear (h : StaticLockstep env pi ssc) {cmd : MacCmd}
    (hcmd : ∀ tmp, cmd ≠ .tableStatic tmp) :
    ∃ pi' ssc', cmdStep env (.ok (pi, ssc)) cmd = .ok (pi', ssc')
      ∧ (ssc'.mutex = false ∧ Ssc.Registered ssc'
        ∧ ssc'.staticMacTblHead = ssc.staticMacTblHead)
      ∧ pi'.staticMacTblHead
        = fun i => (pi.staticMacTblHead i).filter fun x => !cmd.hits x.key x.portId := by
  cases cmd with
  | tableStatic tmp => exact absurd rfl (hcmd tmp)
  | clearDynamic =>
    have hsent : (MacCmd.clearDynamic.exec env.hash pi).2 = [Pi.piSendMsgSsc .macClearDyn []] := rfl
    obtain ⟨ssc', hstep, hssc⟩ := cmdStep_clear h (.inl rfl) hsent
    refine ⟨_, ssc', hstep, hssc, ?_⟩
    rw [MacCmd.exec, Pi.execClearDynamic_static]
    simp only [MacCmd.hits, Bool.not_false, List.filter_true]
  | clearVlan v =>
    by_cases hv : v.toInt < vlanMinSize ∨ v.toInt > vlanMaxSize
    · have hexec : (MacCmd.clearVlan v).exec env.hash pi = (pi, []) := if_pos hv
      refine ⟨pi, ssc, ?_, ⟨h.mutex, h.registered, rfl⟩, ?_⟩
      · rw [cmdStep_idle (by rw [hexec]), hexec]
      · have hno : ∀ k p, (MacCmd.clearVlan v).hits k p = false := by
          intro k p
          simp only [MacCmd.hits, decide_eq_false_iff_not]
          omega
        simp only [hno, Bool.not_false, List.filter_true]
    · have hexec : (MacCmd.clearVlan v).exec env.hash pi
          = Pi.sendAndUpdate env.hash true .clearVlanMac (toBytes v) pi := if_neg hv
      obtain ⟨ssc', hstep, hssc⟩ := cmdStep_clear h (.inr (.inl rfl)) (by rw [hexec]; rfl)
      refine ⟨_, ssc', hstep, hssc, ?_⟩
      rw [hexec, Pi.clearVlan_static]
      simp only [MacCmd.hits, PiMacEntry.key, show vlanMinSize ≤ v.toInt by omega,
        show v.toInt ≤ vlanMaxSize by omega, true_and]
  | clearInterface i =>
    have hi : i ||| (0 <<< 16) = i := by simp
    have hexec : (MacCmd.clearInterface i).exec env.hash pi
        = Pi.sendAndUpdate env.hash true .clearInterDyn (toBytes i) pi := by
      rw [MacCmd.exec, Pi.execClearRookieMacInterfaceNumCmd, hi]
    obtain ⟨ssc', hstep, hssc⟩ := cmdStep_clear h (.inr (.inr rfl)) (by rw [hexec]; rfl)
    refine ⟨_, ssc', hstep, hssc, ?_⟩
    rw [hexec, Pi.clearInter_static]
    rfl

theorem toMap_clear (h : WF (layout env.hash) pi.staticMacTblHead) {cmd : MacCmd}
    {pi' : Pi.PiDbMacInfo} (hpi : pi'.staticMacTblHead
      = fun i => (pi.staticMacTblHead i).filter fun x => !cmd.hits x.key x.portId) :
    WF (layout env.hash) pi'.staticMacTblHead
      ∧ toMap (layout env.hash) pi'.staticMacTblHead
        = fun k => (toMap (layout env.hash) pi.staticMacTblHead k).filter
          fun p => !cmd.hits k p := by
  rw [hpi]
  refine ⟨h.filter fun _ x => !cmd.hits x.key x.portId, ?_⟩
  exact h.toMap_filter (fun _ x => !cmd.hits x.key x.portId) (fun k p => !cmd.hits k p)
    fun _ _ _ => rfl

theorem StaticLockstep.step (h : StaticLockstep env pi ssc) {cmd : MacCmd}
    (hc : MacMap.Spares (toMap (layout env.hash) pi.staticMacTblHead) cmd) :
    ∃ pi' ssc', cmdStep env (.ok (pi, ssc)) cmd = .ok (pi', ssc')
      ∧ StaticLockstep env pi' ssc'
      ∧ toMap (layout env.hash) pi'.staticMacTblHead
        = MacMap.addStatic (toMap (layout env.hash) pi.staticMacTblHead) cmd := by
  by_cases hadd : ∃ tmp, cmd = .tableStatic tmp
  · obtain ⟨tmp, rfl⟩ := hadd
    exact h.tableStatic tmp
  · push Not at hadd
    obtain ⟨pi', ssc', hstep, ⟨hm, hr, hssc⟩, hpi⟩ := h.clear hadd
    obtain ⟨hwf, hmap⟩ := toMap_clear h.piWf hpi
    have hsame : toMap (layout env.hash) pi'.staticMacTblHead
        = toMap (layout env.hash) pi.staticMacTblHead := by
      rw [hmap]
      funext k
      rcases hk : toMap (layout env.hash) pi.staticMacTblHead k with _ | p
      · rfl
      · rw [Option.filter_some, hc k p hk]
        rfl
    refine ⟨pi', ssc', hstep, ⟨hm, hr, hwf, hssc ▸ h.sscWf, ?_⟩, ?_⟩
    · rw [hssc, h.toMap_eq, hsame]
    · rw [hsame]
      cases cmd with
      | tableStatic tmp => exact absurd rfl (hadd tmp)
      | clearDynamic => rfl
      | clearVlan v => rfl
      | clearInterface i => rfl

theorem StaticLockstep.same (h : StaticLockstep env pi ssc) : SameStatic env (.ok (pi, ssc)) := by
  refine ⟨pi, ssc, rfl, ?_, fun x hx y hy hk => ?_⟩
  · ext k
    rw [h.piWf.mem_keys, h.sscWf.mem_keys, h.toMap_eq, Function.comp_apply, Ne, Ne,
      Option.map_eq_none_iff]
  · obtain ⟨i, hx⟩ := mem_entries.1 hx
    obtain ⟨j, hy⟩ := mem_entries.1 hy
    have hyp := toMap_of_mem h.sscWf hy
    rw [h.toMap_eq, Function.comp_apply, ← hk, toMap_of_mem h.piWf hx, Option.map_some,
      Option.some.injEq] at hyp
    exact hyp.symm

/-- A clear that picks a static address takes it from PI only. -/
theorem StaticLockstep.diverge (h : StaticLockstep env pi ssc) {cmd : MacCmd}
    (hc : ¬ MacMap.Spares (toMap (layout env.hash) pi.staticMacTblHead) cmd) :
    ¬ SameStatic env (cmdStep env (.ok (pi, ssc)) cmd) := by
  simp only [MacMap.Spares, not_forall, Bool.not_eq_false] at hc
  obtain ⟨k, p, hk, hhit⟩ := hc
  have hadd : ∀ tmp, cmd ≠ .tableStatic tmp := by
    rintro tmp rfl
    simp [MacCmd.hits] at hhit
  obtain ⟨pi', ssc', hstep, ⟨-, -, hssc⟩, hpi⟩ := h.clear hadd
  obtain ⟨hwf, hmap⟩ := toMap_clear h.piWf hpi
  rw [hstep]
  rintro ⟨_, _, heq, hkeys, -⟩
  obtain ⟨rfl, rfl⟩ := Prod.mk.inj (Except.ok.inj heq)
  have hin : k ∈ keys (layout env.hash) ssc'.staticMacTblHead := by
    rw [hssc, h.sscWf.mem_keys, h.toMap_eq, Function.comp_apply, hk]
    exact Option.some_ne_none _
  have hgone : toMap (layout env.hash) pi'.staticMacTblHead k = none := by
    simp only [hmap, hk, Option.filter_some, hhit, Bool.not_true, Bool.false_eq_true, ↓reduceIte]
  rw [← hkeys, hwf.mem_keys] at hin
  exact hin hgone

def InStaticLockstep (env : Ssc.SscEnv) (s : Both) : Prop :=
  ∃ pi ssc, s = .ok (pi, ssc) ∧ StaticLockstep env pi ssc

def piStaticMap (hash : HashFn) : Both → MacMap
  | .ok (pi, _) => toMap (layout hash) pi.staticMacTblHead
  | .error _ => fun _ => none

def SparesAt (env : Ssc.SscEnv) (s : Both) (cmd : MacCmd) : Prop :=
  MacMap.Spares (piStaticMap env.hash s) cmd

/-- From empty static tables, PI and SSC hold the same static keys with matching ports after every
command exactly when no clear of a VLAN or an interface picks a static address added before it. -/
theorem static_tables_agree_iff (env : Ssc.SscEnv) (pi₀ : Pi.PiDbMacInfo)
    (ssc₀ : Ssc.MacOpraClass) (cmds : List MacCmd) :
    Runs.Always (cmdStep env) (SameStatic env)
        (.ok ({ pi₀ with staticMacTblHead := empty }, Ssc.sscMacOperaInit
          { ssc₀ with staticMacTblHead := empty, mutex := false })) cmds
      ↔ MacMap.SparedRun (fun _ => none) cmds := by
  have hgood : ∀ s cmd, InStaticLockstep env s → SparesAt env s cmd →
      InStaticLockstep env (cmdStep env s cmd)
        ∧ piStaticMap env.hash (cmdStep env s cmd)
          = MacMap.addStatic (piStaticMap env.hash s) cmd := by
    rintro _ cmd ⟨pi, ssc, rfl, h⟩ hc
    obtain ⟨pi', ssc', hs, h', hmap⟩ := h.step hc
    rw [hs]
    exact ⟨⟨pi', ssc', rfl, h'⟩, hmap⟩
  have hsame : ∀ s, InStaticLockstep env s → SameStatic env s := by
    rintro _ ⟨pi, ssc, rfl, h⟩
    exact h.same
  have hbad : ∀ s cmd, InStaticLockstep env s → ¬ SparesAt env s cmd →
      ¬ SameStatic env (cmdStep env s cmd) := by
    rintro _ cmd ⟨pi, ssc, rfl, h⟩ hc
    exact h.diverge hc
  have h₀ : InStaticLockstep env (.ok ({ pi₀ with staticMacTblHead := empty },
      Ssc.sscMacOperaInit { ssc₀ with staticMacTblHead := empty, mutex := false })) :=
    ⟨_, _, rfl, rfl, rfl, WF.empty, WF.empty, rfl⟩
  rw [Runs.always_iff_image MacMap.addStatic MacMap.Spares (piStaticMap env.hash) id hsame hgood
    hbad _ h₀, List.map_id, piStaticMap, toMap_empty, MacMap.SparedRun]

/-- A static address on VLAN 10, and a clear of that VLAN. -/
theorem static_tables_diverge :
    ¬ Runs.Always (cmdStep littleEnv) (SameStatic littleEnv) (.ok (.blank, .blank))
      [.tableStatic ⟨#v[2, 0, 0, 0, 0, 1], 10, 3⟩, .clearVlan 10] := by
  intro h
  have h₀ : StaticLockstep littleEnv .blank .blank := ⟨rfl, rfl, WF.empty, WF.empty, rfl⟩
  obtain ⟨pi, ssc, hs, h₁, hmap⟩ := h₀.tableStatic ⟨#v[2, 0, 0, 0, 0, 1], 10, 3⟩
  have h₂ := h _ (List.prefix_refl _)
  rw [List.foldl_cons, List.foldl_cons, List.foldl_nil, hs] at h₂
  refine h₁.diverge (fun hc => ?_) h₂
  have hhit := hc (#v[2, 0, 0, 0, 0, 1], 10) 3 (by rw [hmap]; rfl)
  revert hhit
  decide

end Run

end RookieMac
