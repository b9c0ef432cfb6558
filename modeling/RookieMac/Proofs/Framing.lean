import RookieMac.System

/-!
# Messages over the connection

Both receivers take each read for one message: PI queues the whole buffer, SSC dispatches on it, and
neither looks at `msg_len` or at what `read` returned. So the messages arrive as they were sent
exactly when each read returns one of them.
-/

namespace RookieMac

open CMem Framing

def sscSent (m : SscMacMsgid × List U8) : List U8 := msgInfo m.1.val m.2

def piSent (m : PiMacMsgid × List U8) : List U8 := Pi.piSendMsgSsc m.1 m.2

/-- The messages PI has queued, oldest first. -/
def queued (s : Pi.PiState) : List (List U8) := s.msgHead.reverse.map recvMsg

section Receivers

theorem cliCommSscRead_msgHead : ∀ (reads : List (List U8)) (s : Pi.PiState × List U8),
    (reads.foldl (Pi.cliCommSscRead fun _ => true) s).1.msgHead
      = (handed id s.2 reads).reverse ++ s.1.msgHead
  | [], _ => rfl
  | data :: reads, s => by
    rw [List.foldl_cons, cliCommSscRead_msgHead reads, handed, List.reverse_cons,
      List.append_assoc]
    rfl

theorem recvMsg_prefix (buff : List U8) : recvMsg buff <+: buff := List.take_prefix _ _

theorem recvMsg_sscSent (m : SscMacMsgid × List U8) (rest : List U8)
    (h : (sscSent m).length ≤ bufSize) : recvMsg (sscSent m ++ rest) = sscSent m :=
  recvMsg_msgInfo _ _ rest h

theorem recvMsg_piSent (m : PiMacMsgid × List U8) (rest : List U8)
    (h : (piSent m).length ≤ bufSize) : recvMsg (piSent m ++ rest) = piSent m :=
  recvMsg_msgInfo _ _ rest h

theorem differ_msgInfo {l : ℕ} (h8 : 8 ≤ l) : ∃ t : List U8,
    msgInfo 0 (List.replicate (l - 8) 0) = 0 :: t ∧ msgInfo 1 (List.replicate (l - 8) 0) = 1 :: t
      ∧ t.length + 1 = l := by
  refine ⟨(msgInfo 0 (List.replicate (l - 8) 0)).tail, rfl, rfl, ?_⟩
  rw [List.length_tail, length_msgInfo, List.length_replicate]
  omega

/-- The two ids have values 0 and 1. -/
theorem differ_sscSent {l : ℕ} (h8 : 8 ≤ l) : Differ sscSent l := by
  obtain ⟨t, h₀, h₁, ht⟩ := differ_msgInfo h8
  exact ⟨(.macAddAddr, List.replicate (l - 8) 0), (.macClearDyn, List.replicate (l - 8) 0), 0, 1, t,
    h₀, h₁, by decide, ht⟩

theorem differ_piSent {l : ℕ} (h8 : 8 ≤ l) : Differ piSent l := by
  obtain ⟨t, h₀, h₁, ht⟩ := differ_msgInfo h8
  exact ⟨(.macAddAddr, List.replicate (l - 8) 0), (.macClearDyn, List.replicate (l - 8) 0), 0, 1, t,
    h₀, h₁, by decide, ht⟩

end Receivers

/-- For message sizes `ls` and reads of sizes `ns`: PI queues, and SSC dispatches, the messages
sent, for all messages of these sizes and whatever their buffers held before, exactly when each read
is of one message. -/
theorem framing_iff (env : Ssc.SscEnv) (s : Pi.PiState) (buff : List U8) (ls ns : List ℕ)
    (hls : ∀ l ∈ ls, 8 ≤ l ∧ l ≤ bufSize) (hns : ∀ n ∈ ns, 0 < n ∧ n ≤ bufSize)
    (hsum : ls.sum = ns.sum) :
    ((∀ ms : List (SscMacMsgid × List U8), (ms.map fun m => (sscSent m).length) = ls →
        queued ((cut ns (ms.flatMap sscSent)).foldl (Pi.cliCommSscRead fun _ => true)
          ({ s with msgHead := [] }, buff)).1 = ms.map sscSent) ↔ ns = ls)
      ∧ ((∀ ms : List (PiMacMsgid × List U8), (ms.map fun m => (piSent m).length) = ls →
        (Ssc.pthreadDealFunc env buff (cut ns (ms.flatMap piSent))).map recvMsg
          = ms.map piSent) ↔ ns = ls) := by
  have hpos : ∀ n ∈ ns, 0 < n := fun n hn => (hns n hn).1
  have hssc : ∀ l ∈ ls, l ≤ bufSize ∧ Differ sscSent l :=
    fun l hl => ⟨(hls l hl).2, differ_sscSent (hls l hl).1⟩
  have hpi : ∀ l ∈ ls, l ≤ bufSize ∧ Differ piSent l :=
    fun l hl => ⟨(hls l hl).2, differ_piSent (hls l hl).1⟩
  constructor
  · rw [← handed_iff recvMsg_sscSent recvMsg_prefix buff hssc hpos hsum]
    refine forall_congr' fun ms => imp_congr_right fun _ => ?_
    rw [queued, cliCommSscRead_msgHead, List.append_nil, List.reverse_reverse]
  · exact handed_iff recvMsg_piSent recvMsg_prefix buff hpi hpos hsum

theorem framing_iff_two :
    (∀ ms : List (SscMacMsgid × List U8), (ms.map fun m => (sscSent m).length) = [8, 48] →
        queued ((cut [8, 48] (ms.flatMap sscSent)).foldl (Pi.cliCommSscRead fun _ => true)
          (⟨.blank, [], 0, 0⟩, [])).1 = ms.map sscSent)
      ∧ ∀ ms : List (PiMacMsgid × List U8), (ms.map fun m => (piSent m).length) = [8, 48] →
        (Ssc.pthreadDealFunc littleEnv [] (cut [8, 48] (ms.flatMap piSent))).map recvMsg
          = ms.map piSent := by
  obtain ⟨hpi, hssc⟩ := framing_iff littleEnv ⟨.blank, [], 0, 0⟩ [] [8, 48] [8, 48] (by decide)
    (by decide) rfl
  exact ⟨hpi.2 rfl, hssc.2 rfl⟩

/-- The start and the end of a transfer in one read: the end is lost. -/
theorem framing_merges :
    ¬ ∀ (ms : List (SscMacMsgid × List U8)) (reads : List (List U8)),
      (∀ m ∈ ms, (sscSent m).length ≤ bufSize) → (∀ r ∈ reads, r ≠ [] ∧ r.length ≤ bufSize) →
      reads.flatten = ms.flatMap sscSent →
      queued (reads.foldl (Pi.cliCommSscRead fun _ => true)
        (⟨.blank, [], 0, 0⟩, List.replicate bufSize 0)).1 = ms.map sscSent := by
  intro h
  have hq := h [(.macUpStart, []), (.macUpEnd, [])]
    [sscSent (.macUpStart, []) ++ sscSent (.macUpEnd, [])] (by decide) (by decide) rfl
  have hl := congrArg List.length hq
  rw [queued, cliCommSscRead_msgHead] at hl
  simp at hl

end RookieMac
