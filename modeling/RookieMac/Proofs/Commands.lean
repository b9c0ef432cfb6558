import RookieMac.Network
import RookieMac.Proofs.Relay
import RookieMac.Proofs.Dispatch
import RookieMac.Proofs.ConfigAgree
import RookieMac.Lib.Hops

/-!
# What the commands do to the chip

A command means some calls of the SDK (`ConfMsg.chip`). On its way down it is, in each of the three
queues, the message of that queue for it, so whatever the programs do in between, SSA's calls are
those of the commands so far, one after another.
-/

namespace RookieMac

open CMem Hops

/-! ## What a command means -/

section Meaning

/-- The calls of the SDK a command means, after those of `log`; `f` is the chip's id of a port. -/
def ConfMsg.chip (env : Ssa.SsaEnv) (f : U32 → U32) (log : List Ssa.BcmCall) :
    ConfMsg → List Ssa.BcmCall
  | .addStatic tmp =>
    log ++ [.l2AddrAdd 0 ⟨tmp.mac, tmp.vlanId.setWidth 16,
      env.eswMacPortToHw 0 ⟨env.macFlagStatic, f tmp.portId, 0⟩,
      Ssa.eswMacFlagToHw env env.macFlagStatic⟩]
  | .clearDynamic => log ++ [.l2Replace 0 env.bcmL2ReplaceDelete]
  | .clearVlan vlanNum => log ++ [.l2AddrDeleteByVlan 0 (vlanNum.setWidth 16) env.macFlushVid]
  | .clearInterface numInter =>
    log ++ [.l2AddrDeleteByPort 0 0 (env.eswMacPortToHw 0 ⟨macFlagDyn, f numInter, 0⟩)
      env.macFlushPhyid]
  | .learnStatus status =>
    -- the last port is left out
    (List.range' 1 (portNum - 1)).foldl
      (fun log i => Ssa.ssaLearnPort env log (f (BitVec.ofNat 32 i)) status) log
  | .ageTime seconds => log ++ [.l2AgeTimerSet 0 seconds]

/-- The messages a command sends. -/
def CliCmd.sent (env : DownEnv) : CliCmd → List ConfMsg
  | .mac (.tableStatic tmp) => [.addStatic tmp]
  | .mac .clearDynamic => [.clearDynamic]
  | .mac (.clearVlan vlanNum) =>
    if vlanNum.toInt < vlanMinSize ∨ vlanNum.toInt > vlanMaxSize then [] else [.clearVlan vlanNum]
  | .mac (.clearInterface numInter) => [.clearInterface numInter]
  | .conf (.learn arg) => [.learnStatus ((Pi.learnStatus (Pi.learnBuff arg)).getD env.piStack)]
  | .conf (.ageTime seconds) => [.ageTime seconds]

theorem CliCmd.exec_sent (env : DownEnv) (cmd : CliCmd) (db : Pi.PiDbMacInfo) :
    (cmd.exec env db).2 = (cmd.sent env).map ConfMsg.send := by
  rcases cmd with cmd | cmd
  · cases cmd with
    | tableStatic tmp => rfl
    | clearDynamic => rfl
    | clearVlan vlanNum =>
      simp only [exec, MacCmd.exec, Pi.execClearRookieMacVlanNumCmd, sent]
      split_ifs <;> rfl
    | clearInterface numInter =>
      simp only [exec, MacCmd.exec, Pi.execClearRookieMacInterfaceNumCmd, sent, Pi.sendAndUpdate]
      simp [ConfMsg.send, ConfMsg.type, ConfMsg.payload]
  · cases cmd with
    | learn arg => rfl
    | ageTime seconds => rfl

variable (env : Ssa.SsaEnv) (f : U32 → U32) (word ty : U32) (log : List Ssa.BcmCall)

theorem ConfMsg.call_relayed (cmd : ConfMsg) :
    cmd.ssaFunc.call env log (msgInfo ty (cmd.relayed f word)) = cmd.chip env f log := by
  have hcarry := cmd.carries_relayed f word ty
  cases cmd with
  | addStatic tmp =>
    obtain ⟨hmac, hvlan, hport⟩ := hcarry
    simp only [ssaFunc, Ssa.SsaMacFunc.call, Ssa.ssaAddStaticFunc, chip, hmac, hvlan, hport]
  | clearDynamic => rfl
  | clearVlan vlanNum =>
    simp only [Carries] at hcarry
    simp only [ssaFunc, Ssa.SsaMacFunc.call, Ssa.ssaClearVlanFunc, chip, hcarry]
  | clearInterface numInter =>
    simp only [Carries] at hcarry
    simp only [ssaFunc, Ssa.SsaMacFunc.call, Ssa.ssaClearInterFunc, chip, hcarry]
  | learnStatus status =>
    obtain ⟨hports, hstatus⟩ := hcarry
    simp only [ssaFunc, Ssa.SsaMacFunc.call, Ssa.ssaModifyInterLeanSta, chip, hstatus]
    refine List.foldl_ext _ _ _ fun log i hi => ?_
    rw [List.mem_range'_1] at hi
    rw [hports i hi.1 (by omega)]
  | ageTime seconds =>
    simp only [Carries] at hcarry
    simp only [ssaFunc, Ssa.SsaMacFunc.call, Ssa.ssaModifyAgeTime, chip, hcarry]

end Meaning

/-! ## A command in the queues -/

section Queues

variable (env : NetEnv)

def NetEnv.chipPort : U32 → U32 := env.ssPhyidCe2fe ∘ env.ssc.ssCommIfxDbGetPhyid

namespace ConfMsg

/-- The message of SSC for the command. -/
def toSsd (cmd : ConfMsg) : Ssc.SsInfo where
  msgid := Ssc.sscMsgidMacComm
  msgVer := 1
  concurrent := 1
  sender := .ssc
  reciver := .ssd
  dstType := .allDistNode
  payload := msgInfo cmd.sscType.val (cmd.relayed env.ssc.ssCommIfxDbGetPhyid env.ssc.stack)

/-- The message of SSD for the command. -/
def toSsa (cmd : ConfMsg) : Ssc.SsInfo where
  msgid := Ssd.ssdMsgidMacComm
  msgVer := 1
  concurrent := 1
  sender := .ssd
  reciver := .ssa
  dstType := .selfNode
  payload := msgInfo cmd.sscType.val (cmd.relayed env.chipPort env.ssc.stack)

end ConfMsg

variable {env} {ssc ssc' : Ssc.MacOpraClass}

theorem Ssc.handler_held (hm : ssc.mutex = true) (mem : ℕ → Bool) (data : List U8)
    (cmd : ConfMsg) :
    (sscHandler cmd.type).call env.ssc mem data ssc = .error .deadlock := by
  cases cmd <;>
    simp [ConfMsg.type, sscHandler, SscMacFunc.call, sscAddStaticFunc, sscLocalAddAddr,
      sscClearDynFunc, sscDelDynAddr, sscClearVlanFunc, sscDelVlanAddr, sscClearInterFunc,
      sscDelIntAddr, delFromDyn, sscModifyInterLeanSta, sscModifyAgeTime, lock_held hm, bind,
      Except.bind]

theorem Ssc.recv_call (hr : Registered ssc) (mem : ℕ → Bool) (cmd : ConfMsg) :
    sscRecevieMsgPi env.ssc mem cmd.send ssc
      = (sscHandler cmd.type).call env.ssc mem cmd.send ssc :=
  sscRecevieMsgPi_call hr mem cmd.type cmd.payload

/-- What SSC does with a command's message, where it does not wait for ever. -/
theorem Ssc.recv_command (hr : Registered ssc) {mem : ℕ → Bool} {cmd : ConfMsg}
    {out : List SsInfo} (h : sscRecevieMsgPi env.ssc mem cmd.send ssc = .ok (ssc', out)) :
    Registered ssc' ∧ ssc.mutex = false ∧ out = if mem 0 then [cmd.toSsd env] else [] := by
  have hreg : Registered ssc' := (recv_func h).trans hr
  rw [recv_call hr] at h
  rcases hm : ssc.mutex with _ | _
  · obtain ⟨db', hdb⟩ := handler_sends env.ssc hm mem cmd []
    rw [List.append_nil, h] at hdb
    obtain ⟨-, rfl⟩ := Prod.mk.inj (Except.ok.inj hdb)
    exact ⟨hreg, rfl, rfl⟩
  · rw [handler_held hm] at h
    cases h

/-- Only the addition of a static address for which there is no memory keeps the mutex. -/
theorem Ssc.recv_keeps (hr : Registered ssc) {mem : ℕ → Bool} {cmd : ConfMsg} {out : List SsInfo}
    (h : sscRecevieMsgPi env.ssc mem cmd.send ssc = .ok (ssc', out)) (hm' : ssc'.mutex = true) :
    (∃ tmp, cmd = .addStatic tmp) ∧ mem 1 = false := by
  obtain ⟨-, hm, -⟩ := recv_command hr h
  have free : ∀ {db : MacOpraClass}, ssc' = db → db.mutex = false → False := by
    rintro _ rfl hfree
    rw [hfree] at hm'
    cases hm'
  rw [recv_call hr] at h
  cases cmd with
  | addStatic tmp =>
    refine ⟨⟨tmp, rfl⟩, Bool.eq_false_iff.2 fun hmem => ?_⟩
    simp only [ConfMsg.type, sscHandler, SscMacFunc.call, sscAddStaticFunc, hmem,
      sscLocalAddAddr_ok hm, bind, Except.bind, pure, Except.pure, Except.ok.injEq,
      Prod.mk.injEq] at h
    exact free h.1.symm hm
  | clearDynamic =>
    simp only [ConfMsg.type, sscHandler, SscMacFunc.call, sscClearDynFunc, sscDelDynAddr,
      delFromDyn_ok hm, bind, Except.bind, pure, Except.pure, Except.ok.injEq, Prod.mk.injEq] at h
    exact (free h.1.symm hm).elim
  | clearVlan vlanNum =>
    simp only [ConfMsg.type, sscHandler, SscMacFunc.call, sscClearVlanFunc, sscDelVlanAddr,
      delFromDyn_ok hm, bind, Except.bind, pure, Except.pure, Except.ok.injEq, Prod.mk.injEq] at h
    exact (free h.1.symm hm).elim
  | clearInterface numInter =>
    simp only [ConfMsg.type, sscHandler, SscMacFunc.call, sscClearInterFunc, sscDelIntAddr,
      delFromDyn_ok hm, bind, Except.bind, pure, Except.pure, Except.ok.injEq, Prod.mk.injEq] at h
    exact (free h.1.symm hm).elim
  | learnStatus status =>
    simp only [ConfMsg.type, sscHandler, SscMacFunc.call, sscModifyInterLeanSta, lock_free hm,
      pthreadMutexUnlock, bind, Except.bind, pure, Except.pure, Except.ok.injEq,
      Prod.mk.injEq] at h
    exact (free h.1.symm rfl).elim
  | ageTime seconds =>
    simp only [ConfMsg.type, sscHandler, SscMacFunc.call, sscModifyAgeTime, lock_free hm,
      pthreadMutexUnlock, bind, Except.bind, pure, Except.pure, Except.ok.injEq,
      Prod.mk.injEq] at h
    exact (free h.1.symm rfl).elim

theorem Ssd.recv_command (mem : Bool) (cmd : ConfMsg) :
    ssdMacRecvSscCommand env.ssPhyidCe2fe mem (cmd.toSsd env).payload
      = .ok (if mem then [cmd.toSsa env] else []) :=
  relay_ssd env.ssPhyidCe2fe env.ssc.ssCommIfxDbGetPhyid env.ssc.stack mem cmd

theorem Ssa.recv_command (cmd : ConfMsg) (calls : List BcmCall) :
    ssaMacRecvSsdComm env.ssa (cmd.toSsa env).payload calls
      = .ok (cmd.chip env.ssa env.chipPort calls) := by
  rw [ConfMsg.toSsa, cmd.ssaMacRecvSsdComm_call, cmd.call_relayed]

end Queues

/-! ## In every run -/

section Run

variable {env : NetEnv} {net net' : Net}

/-- The messages an event adds to those on their way down. -/
def NetEvent.sent (env : NetEnv) : NetEvent → List ConfMsg
  | .command cmd => cmd.sent env.toDownEnv
  | _ => []

/-- The event loses no message on its way down. -/
def NetEvent.relays : NetEvent → Bool
  | .sscRecv mem => mem 0
  | .ssdRecvSsc mem => mem
  | _ => true

/-- The queues hold the commands' messages, and SSA has made the calls of those that came out. -/
structure Down (env : NetEnv) (whole : Bool) (sent : List ConfMsg) (net : Net)
    (q₀ q₁ q₂ done : List ConfMsg) : Prop where
  registered : Ssc.Registered net.ssc
  fed : Fed whole sent [q₀, q₁, q₂, done]
  piToSsc : net.piToSsc = q₀.map ConfMsg.send
  sscToSsd : net.sscToSsd = q₁.map (ConfMsg.toSsd env)
  ssdToSsa : net.ssdToSsa = q₂.map (ConfMsg.toSsa env)
  calls : net.calls = done.foldl (ConfMsg.chip env.ssa env.chipPort) []

variable {whole : Bool} {all q₀ q₁ q₂ done : List ConfMsg}

theorem map_ite {β γ : Type*} (g : β → γ) (passed : Bool) (b : β) :
    (if passed then [b] else []).map g = if passed then [g b] else [] := by
  cases passed <;> rfl

theorem Down.command (h : Down env whole all net q₀ q₁ q₂ done) (cmd : CliCmd) :
    ∃ net', netStep env net (.command cmd) = some net'
      ∧ Down env whole (all ++ cmd.sent env.toDownEnv) net' (q₀ ++ cmd.sent env.toDownEnv) q₁ q₂
        done := by
  refine ⟨_, rfl, h.registered, h.fed.feed_all _, ?_, h.sscToSsd, h.ssdToSsa, h.calls⟩
  have hsent := cmd.exec_sent env.toDownEnv net.pi.db
  show net.piToSsc ++ (cmd.exec env.toDownEnv net.pi.db).2 = _
  rw [hsent, h.piToSsc, List.map_append]

theorem Down.sscRecv (h : Down env whole all net q₀ q₁ q₂ done) {mem : ℕ → Bool}
    (hs : netStep env net (.sscRecv mem) = some net') :
    ∃ q₀' q₁', Down env (whole && mem 0) all net' q₀' q₁' q₂ done := by
  rcases q₀ with _ | ⟨cmd, q₀⟩
  · simp [netStep, h.piToSsc] at hs
  simp only [netStep, h.piToSsc, List.map_cons] at hs
  rcases hr : Ssc.sscRecevieMsgPi env.ssc mem cmd.send net.ssc with f | ⟨ssc, out⟩
  · simp [hr] at hs
  · simp only [hr, Option.some.injEq] at hs
    obtain ⟨hreg, -, rfl⟩ := Ssc.recv_command h.registered hr
    subst hs
    refine ⟨q₀, q₁ ++ if mem 0 then [cmd] else [], hreg, h.fed.relay [] (mem 0), rfl, ?_, h.ssdToSsa,
      h.calls⟩
    simp only [h.sscToSsd, List.map_append, map_ite]

theorem Down.ssdRecvSsc (h : Down env whole all net q₀ q₁ q₂ done) {mem : Bool}
    (hs : netStep env net (.ssdRecvSsc mem) = some net') :
    ∃ q₁' q₂', Down env (whole && mem) all net' q₀ q₁' q₂' done := by
  rcases q₁ with _ | ⟨cmd, q₁⟩
  · simp [netStep, h.sscToSsd] at hs
  simp only [netStep, h.sscToSsd, List.map_cons, Ssd.recv_command, Option.some.injEq] at hs
  subst hs
  refine ⟨q₁, q₂ ++ if mem then [cmd] else [], h.registered, h.fed.relay [q₀] mem, h.piToSsc, rfl, ?_,
    h.calls⟩
  simp only [h.ssdToSsa, List.map_append, map_ite]

theorem Down.ssaRecv (h : Down env whole all net q₀ q₁ q₂ done)
    (hs : netStep env net .ssaRecv = some net') :
    ∃ q₂' done', Down env whole all net' q₀ q₁ q₂' done' := by
  rcases q₂ with _ | ⟨cmd, q₂⟩
  · simp [netStep, h.ssdToSsa] at hs
  simp only [netStep, h.ssdToSsa, List.map_cons, Ssa.recv_command, Option.some.injEq] at hs
  subst hs
  have hfed := h.fed.relay [q₀, q₁] true
  rw [Bool.and_true] at hfed
  refine ⟨q₂, done ++ [cmd], h.registered, hfed, h.piToSsc, h.sscToSsd, rfl, ?_⟩
  simp only [h.calls, List.foldl_append, List.foldl_cons, List.foldl_nil]

theorem Ssc.notifyUpdate_func {env : SscEnv} {mem : Bool} {data : PiMacEntry}
    {db db' : MacOpraClass} (h : sscNotifyUpdate env mem data db = .ok db') :
    db'.sscMacFunc = db.sscMacFunc := by
  unfold sscNotifyUpdate at h
  split_ifs at h
  · obtain ⟨-, rfl | rfl⟩ := sscAddDynAddr_cases h <;> rfl
  · obtain ⟨-, rfl⟩ := sscDelAgeEntry_eq h
    rfl

/-- What an event of the way up and of PI's queue leaves alone. -/
structure SameDown (net net' : Net) : Prop where
  func : net'.ssc.sscMacFunc = net.ssc.sscMacFunc
  piToSsc : net'.piToSsc = net.piToSsc
  sscToSsd : net'.sscToSsd = net.sscToSsd
  ssdToSsa : net'.ssdToSsa = net.ssdToSsa
  calls : net'.calls = net.calls

theorem Down.same (h : Down env whole all net q₀ q₁ q₂ done) (hs : SameDown net net') :
    Down env whole all net' q₀ q₁ q₂ done :=
  ⟨hs.func.trans h.registered, h.fed, hs.piToSsc.trans h.piToSsc, hs.sscToSsd.trans h.sscToSsd,
    hs.ssdToSsa.trans h.ssdToSsa, hs.calls.trans h.calls⟩

theorem Down.step (h : Down env whole all net q₀ q₁ q₂ done) {e : NetEvent}
    (hs : netStep env net e = some net') :
    ∃ q₀ q₁ q₂ done, Down env (whole && e.relays) (all ++ e.sent env) net' q₀ q₁ q₂ done := by
  have same : e.relays = true → e.sent env = [] → SameDown net net' →
      ∃ q₀ q₁ q₂ done, Down env (whole && e.relays) (all ++ e.sent env) net' q₀ q₁ q₂ done := by
    intro hrel hsent hsame
    rw [hrel, hsent, Bool.and_true, List.append_nil]
    exact ⟨_, _, _, _, h.same hsame⟩
  cases e with
  | command cmd =>
    obtain ⟨net₁, hs₁, h₁⟩ := h.command cmd
    obtain rfl := Option.some.inj (hs₁.symm.trans hs)
    have hwhole : (whole && (NetEvent.command cmd).relays) = whole := Bool.and_true whole
    rw [hwhole]
    exact ⟨_, _, _, _, h₁⟩
  | sscRecv mem =>
    obtain ⟨q₀', q₁', h'⟩ := h.sscRecv hs
    rw [show (NetEvent.sscRecv mem).sent env = [] from rfl, List.append_nil]
    exact ⟨_, _, _, _, h'⟩
  | ssdRecvSsc mem =>
    obtain ⟨q₁', q₂', h'⟩ := h.ssdRecvSsc hs
    rw [show (NetEvent.ssdRecvSsc mem).sent env = [] from rfl, List.append_nil]
    exact ⟨_, _, _, _, h'⟩
  | ssaRecv =>
    obtain ⟨q₂', done', h'⟩ := h.ssaRecv hs
    have hwhole : (whole && NetEvent.ssaRecv.relays) = whole := Bool.and_true whole
    rw [hwhole, show NetEvent.ssaRecv.sent env = [] from rfl, List.append_nil]
    exact ⟨_, _, _, _, h'⟩
  | macClbk l2addr insert mem =>
    obtain rfl := Option.some.inj hs
    exact same rfl rfl ⟨rfl, rfl, rfl, rfl, rfl⟩
  | ssdRecvSsa mem =>
    rcases hq : net.ssaToSsd with _ | ⟨m, ms⟩ <;> simp only [netStep, hq, Option.some.injEq,
      reduceCtorEq] at hs
    subst hs
    exact same rfl rfl ⟨rfl, rfl, rfl, rfl, rfl⟩
  | sscSend mem =>
    rcases hh : net.handling with _ | data <;> rcases hq : net.ssdToSsc with _ | ⟨m, ms⟩ <;>
      simp only [netStep, hh, hq, Option.some.injEq, reduceCtorEq] at hs
    subst hs
    exact same rfl rfl ⟨rfl, rfl, rfl, rfl, rfl⟩
  | sscUpdate mem =>
    rcases hh : net.handling with _ | data <;> simp only [netStep, hh, reduceCtorEq] at hs
    rcases hr : Ssc.sscNotifyUpdate env.ssc mem data net.ssc with f | ssc <;>
      simp only [hr, Option.some.injEq, reduceCtorEq] at hs
    subst hs
    exact same rfl rfl ⟨Ssc.notifyUpdate_func hr, rfl, rfl, rfl, rfl⟩
  | piRecv mem =>
    rcases hq : net.sscToPi with _ | ⟨m, ms⟩ <;> simp only [netStep, hq, Option.some.injEq,
      reduceCtorEq] at hs
    subst hs
    exact same rfl rfl ⟨rfl, rfl, rfl, rfl, rfl⟩
  | piDeal mem =>
    simp only [netStep, Option.map_eq_some_iff] at hs
    obtain ⟨pi, -, rfl⟩ := hs
    exact same rfl rfl ⟨rfl, rfl, rfl, rfl, rfl⟩

/-- SSC receives the addition of a static address and has no memory for it. -/
def NoRoom (net : Net) : NetEvent → Prop
  | .sscRecv mem => (∃ tmp, net.piToSsc.head? = some (ConfMsg.addStatic tmp).send) ∧ mem 1 = false
  | _ => False

theorem Ssc.notifyUpdate_mutex {env : SscEnv} {mem : Bool} {data : PiMacEntry}
    {db db' : MacOpraClass} (h : sscNotifyUpdate env mem data db = .ok db') :
    db'.mutex = false := by
  unfold sscNotifyUpdate at h
  split_ifs at h
  · obtain ⟨hm, rfl | rfl⟩ := sscAddDynAddr_cases h <;> exact hm
  · obtain ⟨hm, rfl⟩ := sscDelAgeEntry_eq h
    exact hm

/-- Two events touch SSC's database. -/
theorem netStep_ssc_cases {e : NetEvent} (hs : netStep env net e = some net') :
    net'.ssc = net.ssc
      ∨ (∃ mem m ms out, e = .sscRecv mem ∧ net.piToSsc = m :: ms
        ∧ Ssc.sscRecevieMsgPi env.ssc mem m net.ssc = .ok (net'.ssc, out))
      ∨ ∃ mem data, e = .sscUpdate mem
        ∧ Ssc.sscNotifyUpdate env.ssc mem data net.ssc = .ok net'.ssc := by
  cases e with
  | sscRecv mem =>
    rcases hq : net.piToSsc with _ | ⟨m, ms⟩ <;> simp only [netStep, hq, reduceCtorEq] at hs
    rcases hr : Ssc.sscRecevieMsgPi env.ssc mem m net.ssc with f | ⟨ssc, out⟩ <;>
      simp only [hr, Option.some.injEq, reduceCtorEq] at hs
    subst hs
    exact .inr (.inl ⟨mem, m, ms, out, rfl, rfl, hr⟩)
  | sscUpdate mem =>
    rcases hh : net.handling with _ | data <;> simp only [netStep, hh, reduceCtorEq] at hs
    rcases hr : Ssc.sscNotifyUpdate env.ssc mem data net.ssc with f | ssc <;>
      simp only [hr, Option.some.injEq, reduceCtorEq] at hs
    subst hs
    exact .inr (.inr ⟨mem, data, rfl, hr⟩)
  | piDeal mem =>
    obtain ⟨pi, -, rfl⟩ := Option.map_eq_some_iff.1 hs
    exact .inl rfl
  | _ =>
    simp only [netStep] at hs
    repeat' split at hs
    all_goals
      cases hs
      try exact .inl rfl

theorem Down.keeps (h : Down env whole all net q₀ q₁ q₂ done) {e : NetEvent}
    (hs : netStep env net e = some net') (hm' : net'.ssc.mutex = true) :
    net.ssc.mutex = true ∨ NoRoom net e := by
  rcases netStep_ssc_cases hs with hssc | ⟨mem, m, ms, out, rfl, hq, hr⟩ | ⟨mem, data, rfl, hr⟩
  · exact .inl (hssc ▸ hm')
  · rcases q₀ with _ | ⟨cmd, q₀⟩ <;> rw [h.piToSsc] at hq <;> cases hq
    obtain ⟨⟨tmp, rfl⟩, hmem⟩ := Ssc.recv_keeps h.registered hr hm'
    exact .inr ⟨⟨tmp, by rw [h.piToSsc]; rfl⟩, hmem⟩
  · rw [Ssc.notifyUpdate_mutex hr] at hm'
    cases hm'

def plainNet : NetEnv := { plainEnv with
  ssaMacGetPhyidFromChipPort := fun _ port => some port
  ssPhyidFe2ce := id
  word := 0 }

end Run

end RookieMac
