import RookieMac.Proofs.Resync

/-!
# The configuration in a transfer

Both senders fill in the status of the ports from 1 to `PORT_NUM`; both receivers stop before
`PORT_NUM`, so that the last port keeps the status it had.
-/

namespace RookieMac

open CMem

/-- PI and SSC have the same age time, and the same status for each of the ports from 1 on. -/
structure SameConfig (pi : Pi.PiDbMacInfo) (ssc : Ssc.MacOpraClass) : Prop where
  ageTime : pi.ageTime = ssc.ageTime
  portStatus : ∀ p : Fin (portNum + 1), 1 ≤ p.val → pi.portStatus p = ssc.portStatus p

/-- They do after SSC has handled the configuration PI sends; `rest` is what follows the message in
SSC's buffer. -/
def SscGets (stack : U32) (rest : List U8) (pi : Pi.PiDbMacInfo) (ssc : Ssc.MacOpraClass) : Prop :=
  ∃ m ssc', Pi.pthreadDsFun stack pi
      = [Pi.piSendMsgSsc .dsStart [], m, Pi.piSendMsgSsc .dsEnd []]
    ∧ Ssc.sscRecePiDsData (m ++ rest) ssc = .ok (ssc', []) ∧ SameConfig pi ssc'

/-- They do after PI has handled the configuration SSC sends. -/
def PiGets (env : Ssc.SscEnv) (rest : List U8) (pi : Pi.PiDbMacInfo) (ssc : Ssc.MacOpraClass) :
    Prop :=
  ∃ m ssc', Ssc.sscDsConfInfo env (fun _ => true) ssc = .ok (ssc', [m])
    ∧ SameConfig (Pi.dealConfInfo (msgBody (m ++ rest)) pi) ssc'

/-- What the condition comes to: the last port's status was the same before. -/
def LastSame (pi : Pi.PiDbMacInfo) (ssc : Ssc.MacOpraClass) : Prop :=
  ssc.mutex = false ∧ pi.portStatus (Fin.last portNum) = ssc.portStatus (Fin.last portNum)

section Transfer

variable {stack : U32} {rest : List U8} {pi : Pi.PiDbMacInfo} {ssc : Ssc.MacOpraClass}

/-- A receiver that takes over the ports from 1 on below the last is where the sender is if it was
for the last one. -/
theorem ports_iff {own sent got : Fin (portNum + 1) → U32}
    (hgot : ∀ p : Fin (portNum + 1), 1 ≤ p.val →
      got p = if p.val < portNum then sent p else own p) :
    (∀ p : Fin (portNum + 1), 1 ≤ p.val → sent p = got p)
      ↔ sent (Fin.last portNum) = own (Fin.last portNum) := by
  have hlast : got (Fin.last portNum) = own (Fin.last portNum) := by
    rw [hgot _ (by decide), if_neg (by decide)]
  constructor
  · intro h
    rw [h _ (by decide), hlast]
  · intro h p hp
    by_cases hlt : p.val < portNum
    · rw [hgot p hp, if_pos hlt]
    · obtain rfl : p = Fin.last portNum := by
        apply Fin.ext
        have := p.isLt
        show p.val = portNum
        omega
      rw [h, hlast]

theorem sscRecePiDsData_msg (hm : ssc.mutex = false) (rest : List U8) (ageTime : U32)
    (portStatus : Fin (portNum + 1) → U32) :
    Ssc.sscRecePiDsData
        (Pi.piSendMsgSsc .dsIng (ConfInfo.bytes ⟨ageTime, portStatus⟩) ++ rest) ssc
      = .ok (Ssc.pthreadMutexUnlock { ssc with
          ageTime := ageTime
          portStatus := fun i =>
            if 1 ≤ i.val ∧ i.val < portNum then portStatus i else ssc.portStatus i }, []) := by
  unfold Ssc.sscRecePiDsData Pi.piSendMsgSsc
  rw [Ssc.lock_free hm, msgBody_msgInfo, ConfInfo.read_bytes]
  rfl

theorem dealConfInfo_msg (pi : Pi.PiDbMacInfo) (rest : List U8) (type ageTime : U32)
    (portStatus : Fin (portNum + 1) → U32) :
    Pi.dealConfInfo (msgBody (msgInfo type
        (Ssc.dsInfo sscConf (ConfInfo.bytes ⟨ageTime, portStatus⟩)) ++ rest)) pi
      = { pi with
          ageTime := ageTime
          portStatus := fun i => if i.val < portNum then portStatus i else pi.portStatus i } := by
  unfold Pi.dealConfInfo Ssc.dsInfo
  rw [msgBody_msgInfo, List.append_assoc, List.drop_left' (length_toBytes sscConf),
    ConfInfo.read_bytes]

/-- From PI to SSC. With the mutex held the handler waits for ever. -/
theorem sscGets_iff : SscGets stack rest pi ssc ↔ LastSame pi ssc := by
  rcases hm : ssc.mutex with _ | _
  · have hrun := sscRecePiDsData_msg hm rest pi.ageTime
      fun i => if 1 ≤ i.val then pi.portStatus i else stack
    rw [LastSame, hm, and_iff_right rfl, ← ports_iff fun p hp => ?_]
    · constructor
      · rintro ⟨m, ssc', hsent, hrece, hsame⟩
        obtain rfl : _ = m := (List.cons.inj (List.cons.inj hsent).2).1
        rw [hrun] at hrece
        obtain rfl : _ = ssc' := (Prod.mk.inj (Except.ok.inj hrece)).1
        exact hsame.portStatus
      · exact fun h => ⟨_, _, rfl, hrun, rfl, h⟩
    · show (if _ then (if _ then _ else _) else _) = _
      simp only [hp, true_and, if_true]
  · refine iff_of_false ?_ fun h => ?_
    · rintro ⟨m, ssc', -, hrece, -⟩
      unfold Ssc.sscRecePiDsData at hrece
      rw [Ssc.lock_held hm] at hrece
      cases hrece
    · rw [LastSame, hm] at h
      exact Bool.noConfusion h.1

/-- From SSC to PI. With the mutex held the sender waits for ever. -/
theorem piGets_iff {env : Ssc.SscEnv} : PiGets env rest pi ssc ↔ LastSame pi ssc := by
  rcases hm : ssc.mutex with _ | _
  · have hrun : Ssc.sscDsConfInfo env (fun _ => true) ssc = .ok (ssc, [Ssc.confMsg env ssc]) :=
      Ssc.sscDsConfInfo_ok hm
    have hdeal := dealConfInfo_msg pi rest SscMacMsgid.macUpIng.val ssc.ageTime
      fun i => if 1 ≤ i.val then ssc.portStatus i else env.stack
    rw [LastSame, hm, and_iff_right rfl, eq_comm, ← ports_iff fun p hp => ?_]
    · constructor
      · rintro ⟨m, ssc', hsent, hsame⟩
        rw [hrun] at hsent
        obtain ⟨rfl, hm'⟩ := Prod.mk.inj (Except.ok.inj hsent)
        obtain rfl : _ = m := (List.cons.inj hm').1
        rw [Ssc.confMsg, hdeal] at hsame
        exact fun p hp => (hsame.portStatus p hp).symm
      · intro h
        refine ⟨_, _, hrun, ?_⟩
        rw [Ssc.confMsg, hdeal]
        exact ⟨rfl, fun p hp => (h p hp).symm⟩
    · show (if _ then (if _ then _ else _) else _) = _
      simp only [hp, if_true]
  · refine iff_of_false ?_ fun h => ?_
    · rintro ⟨m, ssc', hsent, -⟩
      unfold Ssc.sscDsConfInfo at hsent
      rw [if_pos rfl, Ssc.lock_held hm] at hsent
      cases hsent
    · rw [LastSame, hm] at h
      exact Bool.noConfusion h.1

end Transfer

/-- In either direction a transfer makes the receiver's configuration the sender's exactly where the
mutex of SSC's database is free and the last port had the same status at both before. -/
theorem config_transfer_iff (env : Ssc.SscEnv) (stack : U32) (rest : List U8)
    (pi : Pi.PiDbMacInfo) (ssc : Ssc.MacOpraClass) :
    (SscGets stack rest pi ssc ↔ LastSame pi ssc) ∧ (PiGets env rest pi ssc ↔ LastSame pi ssc) :=
  ⟨sscGets_iff, piGets_iff⟩

/-- The two as they start: PI's port 24 learns, and SSC's does not. -/
theorem config_transfer_loses :
    ¬ SscGets 0 [] (Pi.piDefaultArgsInit .blank) (Ssc.sscDbInit .blank)
      ∧ ¬ PiGets littleEnv [] (Pi.piDefaultArgsInit .blank) (Ssc.sscDbInit .blank) := by
  have hlast : ¬ LastSame (Pi.piDefaultArgsInit .blank) (Ssc.sscDbInit .blank) := fun h =>
    absurd h.2 (by decide)
  exact ⟨fun h => hlast (sscGets_iff.1 h), fun h => hlast (piGets_iff.1 h)⟩

end RookieMac
