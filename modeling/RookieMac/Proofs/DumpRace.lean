import RookieMac.Proofs.Connection

/-!
# The transfer of the dynamic table against the notification handler

The handler tells PI of an aged-out address before it takes the mutex. A transfer that has the mutex
then still sends the address, PI binds it again, and no later message takes it away. Where no
transfer sends an address in that window (`Lasting`), PI and SSC end with the same keys.
-/

namespace RookieMac

open CMem Chained

section Race

variable {env : Ssc.SscEnv} {K₀ : Set Key} {s s' : Conn} {p : Mirror.Pair Key}

/-- The transfer sends no address that the handler has told PI to forget. -/
def Lasting (s : Conn) : ConnEvent → Prop
  | .dumpSend x _ => ∀ e, s.handling = some e → e.key = x.key → e.flags ≠ 0
  | _ => True

/-- SSC goes on to hold an address the transfer sends. -/
theorem Sim.lasting (h : Sim env K₀ s p) {x : PiMacEntry} {mem : Bool}
    (hc : Lasting s (.dumpSend x mem)) (hx : x ∈ entries s.ssc.dynMacTblHead) :
    x.key ∈ p.origin.will K₀ := by
  have hin : x.key ∈ p.origin.keys K₀ := h.sscKeys ▸ ⟨x, hx, rfl⟩
  rw [Mirror.Ear.will, h.handling]
  rcases hh : s.handling with _ | e
  · exact hin
  · change x.key ∈ e.word.act _
    rw [Mirror.mem_act]
    rcases eq_or_ne x.key e.key with hk | hk
    · exact .inl ⟨hk, decide_eq_true (hc e hh hk.symm)⟩
    · exact .inr ⟨hk, hin⟩

theorem Sim.ahead (h : Sim env K₀ s p) (ha : Mirror.Ahead K₀ p) {e : ConnEvent}
    (hs : connStep env s e = some s') (hclear : e.ofClear = false) (hc : Lasting s e) :
    Mirror.Ahead K₀ ((e.inputs env).foldl Mirror.step p) := by
  cases e with
  | sscSend payload mem => exact ha.step (.announce _) trivial
  | sscUpdate mem => exact ha.step .perform trivial
  | dumpLock => exact ha
  | dumpSend x mem =>
    cases mem with
    | false => exact ha
    | true => exact ha.step (.copy x.key) (h.lasting hc (h.dumpSend hs).2)
  | dumpUnlock => exact ha
  | piRecv mem => exact ha.step .deliver trivial
  | piSend => cases hclear
  | piClear => cases hclear
  | sscRecv mem => cases hclear

/-- Handlers and transfers, in any order of their steps: from tables that hold the same addresses,
once every message has been processed and every thread has finished, PI and SSC hold the same keys,
if no transfer has sent an address between the message that tells PI to forget it and the update of
SSC's table. -/
theorem transfer_agrees (env : Ssc.SscEnv) (pi₀ : Pi.PiDbMacInfo) (piOps : List Pi.PiOp)
    (ssc₀ : Ssc.MacOpraClass) (sscOps : List Ssc.SscOp) (ssc : Ssc.MacOpraClass)
    (hssc : Ssc.sscRun env.hash ssc₀ sscOps = .ok ssc) (hm : ssc.mutex = false)
    (hsame : triples (Pi.piRun env.hash pi₀ piOps).dynMacTblHead = triples ssc.dynMacTblHead)
    (es : List ConnEvent) (hclear : ∀ e ∈ es, e.ofClear = false) (s' : Conn)
    (hrun : Runs.Path (connStep env) (.idle (Pi.piRun env.hash pi₀ piOps) ssc) es s')
    (hc : Runs.EachStep (connStep env) (fun s e => Exact env s e ∧ Lasting s e)
      (.idle (Pi.piRun env.hash pi₀ piOps) ssc) es)
    (hquiet : s'.Quiet) :
    keys (layout env.hash) s'.pi.dynMacTblHead = keys (layout env.hash) s'.ssc.dynMacTblHead := by
  set K₀ := keys (layout env.hash) ssc.dynMacTblHead
  have h₀ := Sim.idle (Pi.piRun_inv env.hash pi₀ piOps) (Ssc.sscRun_inv hssc) hm hsame
  have hstep : ∀ s, ∀ e ∈ es, ∀ s' p, Sim env K₀ s p ∧ Mirror.Ahead K₀ p →
      Exact env s e ∧ Lasting s e → connStep env s e = some s' →
      Sim env K₀ s' ((e.inputs env).foldl Mirror.step p)
        ∧ Mirror.Ahead K₀ ((e.inputs env).foldl Mirror.step p) :=
    fun s e he s' p h hc hs => ⟨h.1.step hc.1 hs, h.1.ahead h.2 hs (hclear e he) hc.2⟩
  obtain ⟨h, ha⟩ := hrun.simulate hstep hc .start ⟨h₀, rfl⟩
  obtain ⟨hmirror, horigin, -⟩ := h.quiet hquiet
  rw [h.piKeys, h.sscKeys]
  exact ha.agree hmirror horigin

section OneAddress

variable {x : PiMacEntry}

def oneDyn (x : PiMacEntry) : Ssc.MacOpraClass :=
  { Ssc.sscDbInit .blank with
    dynMacTblHead := Function.update empty (littleEnv.hash x.mac x.vlanId) [x] }

theorem sscRun_oneDyn (x : PiMacEntry) :
    Ssc.sscRun littleEnv.hash .blank [.sscAddDynAddr true x] = .ok (oneDyn x) :=
  Ssc.sscRun_addDyn [x] (by simp)

theorem piRun_addDyn (x : PiMacEntry) :
    let pi := Pi.piRun littleEnv.hash .blank [.piAddLocalDyn true x]
    pi.dynMacTblHead = (oneDyn x).dynMacTblHead
      ∧ toMap (layout littleEnv.hash) pi.dynMacTblHead
        = Function.update (fun _ => none) x.key (some x.portId) := by
  exact ⟨(Pi.insertHashTable_eq littleEnv.hash x empty).1,
    Pi.toMap_piRun_addDyn littleEnv.hash .blank [x]⟩

theorem oneDyn_dumpLock {s : Conn} (hs : s.ssc = Ssc.sscMacOperaInit (oneDyn x)) :
    connStep littleEnv s .dumpLock
      = some { s with ssc := { s.ssc with mutex := true }, dumping := some [x] } := by
  have hx : entries s.ssc.dynMacTblHead = [x] := by
    rw [hs]
    exact entries_update_empty _ x
  have hm : s.ssc.mutex = false := by
    rw [hs]
    rfl
  simp only [connStep, Ssc.lock_free hm, hx]

end OneAddress

/-- An address that both sides hold ages out, and the handler sends that while the transfer holds
the mutex, after it has sent the address: both forget it. -/
theorem transfer_agrees_aged :
    let x : PiMacEntry := ⟨#v[2, 0, 0, 0, 0, 1], 1, 10, 3, 0⟩
    let aged : PiMacEntry := { x with flags := 0 }
    let pi := Pi.piRun littleEnv.hash .blank [.piAddLocalDyn true x]
    let pi' := [Ssc.dsMsg sscDyn x, Pi.notifyMsg aged.bytes].foldl
      (fun pi m => Pi.dealReceMsg littleEnv.hash true m pi) pi
    keys (layout littleEnv.hash) pi'.dynMacTblHead
      = keys (layout littleEnv.hash)
          (Ssc.notifyDyn littleEnv.hash (oneDyn x).dynMacTblHead aged) := by
  intro x aged pi pi'
  obtain ⟨hpi, hmap⟩ := piRun_addDyn x
  let pi₁ := Pi.dealReceMsg littleEnv.hash true (Ssc.dsMsg sscDyn x) pi
  let s₀ := Conn.idle pi (oneDyn x)
  let s₁ : Conn := { s₀ with ssc := { s₀.ssc with mutex := true }, dumping := some [x] }
  let s₂ : Conn := { s₁ with up := [Ssc.dsMsg sscDyn x], dumping := some [] }
  let s₃ : Conn := { s₂ with
    up := [Ssc.dsMsg sscDyn x, Pi.notifyMsg aged.bytes]
    handling := some aged }
  let s₄ : Conn := { s₃ with ssc := Ssc.pthreadMutexUnlock s₃.ssc, dumping := none }
  let s₅ : Conn := { s₄ with pi := pi₁, up := [Pi.notifyMsg aged.bytes] }
  let s₆ : Conn := { s₅ with
    ssc := { s₅.ssc with
      dynMacTblHead := Ssc.notifyDyn littleEnv.hash (oneDyn x).dynMacTblHead aged }
    handling := none }
  let s₇ : Conn := { s₆ with pi := pi', up := [] }
  have h₁ : connStep littleEnv s₀ .dumpLock = some s₁ := oneDyn_dumpLock rfl
  have h₂ : connStep littleEnv s₁ (.dumpSend x true) = some s₂ := by
    simp only [connStep, s₁, ↓reduceIte]
    rfl
  have h₃ : connStep littleEnv s₂ (.sscSend (ssdNotify aged) true) = some s₃ :=
    connStep_sscSend rfl _
  have h₄ : connStep littleEnv s₃ .dumpUnlock = some s₄ := rfl
  have h₅ : connStep littleEnv s₄ (.piRecv true) = some s₅ := rfl
  have h₆ : connStep littleEnv s₅ (.sscUpdate true) = some s₆ := connStep_sscUpdate rfl rfl
  have h₇ : connStep littleEnv s₆ (.piRecv true) = some s₇ := rfl
  have hcopy : Exact littleEnv s₄ (.piRecv true) := exact_piRecv_entry rfl
  have hupdate : Exact littleEnv s₅ (.sscUpdate true) := by
    intro e he hf
    cases he
    exact absurd rfl hf
  have hforget : Exact littleEnv s₆ (.piRecv true) := by
    have hinv := Pi.piRun_inv littleEnv.hash .blank [.piAddLocalDyn true x]
    refine exact_piRecv_only rfl ((toMap_dsMsg hinv x).trans ?_)
    rw [hmap, Function.update_idem]
    rfl
  have hlast : Lasting s₁ (.dumpSend x true) := by
    rintro e he
    cases he
  exact transfer_agrees littleEnv .blank [.piAddLocalDyn true x] .blank [.sscAddDynAddr true x]
    (oneDyn x) (sscRun_oneDyn x) rfl (congrArg triples hpi)
    [.dumpLock, .dumpSend x true, .sscSend (ssdNotify aged) true, .dumpUnlock, .piRecv true,
      .sscUpdate true, .piRecv true]
    (by simp [ConnEvent.ofClear]) s₇
    (.cons h₁ (.cons h₂ (.cons h₃ (.cons h₄ (.cons h₅ (.cons h₆ (.single h₇)))))))
    (.cons h₁ ⟨trivial, trivial⟩ (.cons h₂ ⟨trivial, hlast⟩ (.cons h₃ ⟨rfl, trivial⟩
      (.cons h₄ ⟨trivial, trivial⟩ (.cons h₅ ⟨hcopy, trivial⟩ (.cons h₆ ⟨hupdate, trivial⟩
        (.cons h₇ ⟨hforget, trivial⟩ trivial)))))))
    ⟨rfl, rfl, rfl, rfl, rfl⟩

/-- An address that both sides hold ages out, and the transfer sends it before SSC's table is
updated: PI holds it for good. -/
theorem transfer_resurrects :
    let x : PiMacEntry := ⟨#v[2, 0, 0, 0, 0, 1], 1, 10, 3, 0⟩
    let pi := Pi.piRun littleEnv.hash .blank [.piAddLocalDyn true x]
    ∃ ssc es s', Ssc.sscRun littleEnv.hash .blank [.sscAddDynAddr true x] = .ok ssc
      ∧ ssc.mutex = false ∧ triples pi.dynMacTblHead = triples ssc.dynMacTblHead
      ∧ (∀ e ∈ es, e.ofClear = false) ∧ Runs.Path (connStep littleEnv) (.idle pi ssc) es s'
      ∧ s'.Quiet
      ∧ keys (layout littleEnv.hash) s'.pi.dynMacTblHead
        ≠ keys (layout littleEnv.hash) s'.ssc.dynMacTblHead := by
  intro x pi
  let aged : PiMacEntry := { x with flags := 0 }
  let ssc := oneDyn x
  have hssc : Ssc.sscRun littleEnv.hash .blank [.sscAddDynAddr true x] = .ok ssc :=
    sscRun_oneDyn x
  obtain ⟨hpi, hmap⟩ := piRun_addDyn x
  let s₀ := Conn.idle pi ssc
  let s₁ : Conn := { s₀ with up := [Pi.notifyMsg aged.bytes], handling := some aged }
  let s₂ : Conn := { s₁ with ssc := { s₁.ssc with mutex := true }, dumping := some [x] }
  let s₃ : Conn := { s₂ with
    up := [Pi.notifyMsg aged.bytes, Ssc.dsMsg sscDyn x]
    dumping := some [] }
  let s₄ : Conn := { s₃ with ssc := Ssc.pthreadMutexUnlock s₃.ssc, dumping := none }
  let s₅ : Conn := { s₄ with
    ssc := { s₄.ssc with dynMacTblHead := Ssc.notifyDyn littleEnv.hash ssc.dynMacTblHead aged }
    handling := none }
  let s₆ : Conn := { s₅ with
    pi := Pi.dealReceMsg littleEnv.hash true (Pi.notifyMsg aged.bytes) pi
    up := [Ssc.dsMsg sscDyn x] }
  let s₇ : Conn := { s₆ with
    pi := Pi.dealReceMsg littleEnv.hash true (Ssc.dsMsg sscDyn x) s₆.pi
    up := [] }
  have h₁ : connStep littleEnv s₀ (.sscSend (ssdNotify aged) true) = some s₁ :=
    connStep_sscSend rfl _
  have h₂ : connStep littleEnv s₁ .dumpLock = some s₂ := oneDyn_dumpLock rfl
  have h₃ : connStep littleEnv s₂ (.dumpSend x true) = some s₃ := by
    simp only [connStep, s₂, ↓reduceIte]
    rfl
  have h₄ : connStep littleEnv s₃ .dumpUnlock = some s₄ := rfl
  have h₅ : connStep littleEnv s₄ (.sscUpdate true) = some s₅ := connStep_sscUpdate rfl rfl
  have h₆ : connStep littleEnv s₅ (.piRecv true) = some s₆ := rfl
  have h₇ : connStep littleEnv s₆ (.piRecv true) = some s₇ := rfl
  have hforget : Exact littleEnv s₅ (.piRecv true) := exact_piRecv_only rfl hmap
  have hcopy : Exact littleEnv s₆ (.piRecv true) := exact_piRecv_entry rfl
  have hupdate : Exact littleEnv s₄ (.sscUpdate true) := by
    intro e he hf
    cases he
    exact absurd rfl hf
  have hsend : Exact littleEnv s₀ (.sscSend (ssdNotify aged) true) := rfl
  have hidle : Sim littleEnv _ s₀ _ := .idle
    (Pi.piRun_inv littleEnv.hash .blank [.piAddLocalDyn true x]) (Ssc.sscRun_inv hssc) rfl
    (congrArg triples hpi)
  have hunlock := (((hidle.sscSend hsend h₁).dumpLock h₂).dumpSend h₃).1.dumpUnlock h₄
  have hend := ((hunlock.sscUpdate hupdate h₅).piRecv hforget h₆).piRecv hcopy h₇
  refine ⟨ssc, [.sscSend (ssdNotify aged) true, .dumpLock, .dumpSend x true, .dumpUnlock,
    .sscUpdate true, .piRecv true, .piRecv true], s₇, hssc, rfl, congrArg triples hpi,
    by simp [ConnEvent.ofClear],
    .cons h₁ (.cons h₂ (.cons h₃ (.cons h₄ (.cons h₅ (.cons h₆ (.single h₇)))))),
    ⟨rfl, rfl, rfl, rfl, rfl⟩, fun heq => ?_⟩
  have hat := Set.ext_iff.1 (hend.piKeys.symm.trans (heq.trans hend.sscKeys)) x.key
  change x.key ∈ Mirror.play _ [(Ssc.notifyData littleEnv (ssdNotify aged)).word, ⟨x.key, true⟩]
    ↔ x.key ∈ Mirror.play _ [(Ssc.notifyData littleEnv (ssdNotify aged)).word] at hat
  rw [notifyData_ssdNotify] at hat
  simp only [Mirror.play_cons, Mirror.play_nil, Mirror.mem_act, true_and, true_or, true_iff] at hat
  rcases hat with ⟨-, hl⟩ | ⟨hne, -⟩
  · exact absurd hl (by decide)
  · exact hne rfl

end Race

end RookieMac
