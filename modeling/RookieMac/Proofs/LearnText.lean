import RookieMac.Proofs.ConfigAgree

/-!
# The text of a learn command

The command and the local update both take a text for the word it begins with. Of a text that begins
with neither, the local update changes nothing, while the command, which has printed an error, sends
on what its variable happens to hold: SSC takes it for the status of every port, and SSA for the
learn bits.
-/

namespace RookieMac

open CMem

/-- The text begins with one of the two words. -/
def LearnText (arg : List U8) : Prop :=
  Pi.chars "enable" <+: cstr arg ∨ Pi.chars "disable" <+: cstr arg

/-- The command sends nothing, and no component's port status changes, nor what the chip is set
to. -/
structure ChangesNothing (env : DownEnv) (s : Layers) (arg : List U8) : Prop where
  silent : ((ConfCmd.learn arg).exec env s.pi).2 = []
  pi : ((ConfCmd.learn arg).exec env s.pi).1.portStatus = s.pi.portStatus
  below : ∃ s', confStep env (.ok s) (.learn arg) = .ok s'
    ∧ s'.ssc.portStatus = s.ssc.portStatus ∧ s'.calls = s.calls

/-- The command sends the status that PI stores for its ports. -/
def SendsStored (env : DownEnv) (s : Layers) (arg : List U8) : Prop :=
  ∃ st, ((ConfCmd.learn arg).exec env s.pi).2 = [Pi.piSendMsgSsc .macInterLearn (toBytes st)]
    ∧ ∀ p : Fin (portNum + 1), p.val < portNum →
      ((ConfCmd.learn arg).exec env s.pi).1.portStatus p = st

section Text

variable {env : DownEnv} {s : Layers} {arg : List U8}

/-- The words are shorter than what is copied of the text. -/
theorem strncmp_learnBuff (arg : List U8) {n : ℕ} {word : List U8} (hn : word.length = n)
    (h0 : 0#8 ∉ word) (hlen : n ≤ 31) :
    strncmp n (Pi.learnBuff arg) word = 0 ↔ word <+: cstr arg := by
  subst hn
  have hz : 0#8 ∈ Pi.learnBuff arg := List.mem_append_right _ (.head _)
  rw [strncmp_starts hz h0, Pi.learnBuff, cstr_take, List.prefix_take_iff]
  exact and_iff_left hlen

theorem learnStatus_iff : Pi.learnStatus (Pi.learnBuff arg) ≠ none ↔ LearnText arg := by
  have henable : strncmp 6 (Pi.learnBuff arg) (Pi.chars "enable") = 0 ↔ _ :=
    strncmp_learnBuff arg rfl (by decide) (by decide)
  have hdisable : strncmp 7 (Pi.learnBuff arg) (Pi.chars "disable") = 0 ↔ _ :=
    strncmp_learnBuff arg rfl (by decide) (by decide)
  rw [LearnText, ← henable, ← hdisable, Pi.learnStatus]
  split_ifs with h1 h2
  · exact iff_of_true (Option.some_ne_none _) (.inl h1)
  · exact iff_of_true (Option.some_ne_none _) (.inr h2)
  · exact iff_of_false (fun h => h rfl) fun h => h.elim h1 h2

theorem exec_sends : ((ConfCmd.learn arg).exec env s.pi).2 ≠ [] := by
  rw [exec_text]
  exact List.cons_ne_nil _ _

theorem sendsStored_of_text (h : LearnText arg) : SendsStored env s arg := by
  obtain ⟨st, hst⟩ := Option.ne_none_iff_exists'.1 (learnStatus_iff.2 h)
  rw [SendsStored, exec_learn hst]
  exact ⟨st, rfl, fun p hp => if_pos hp⟩

end Text

/-- A learn command does what it is to do, changing nothing where the text begins with neither word
and else sending the status PI stores, exactly where the text begins with one of them. -/
theorem learn_text_iff (env : DownEnv) (s : Layers) (arg : List U8) :
    ((¬ LearnText arg → ChangesNothing env s arg) ∧ (LearnText arg → SendsStored env s arg))
      ↔ LearnText arg := by
  constructor
  · rintro ⟨h, -⟩
    by_contra hno
    exact exec_sends (h hno).silent
  · intro h
    exact ⟨fun hno => absurd h hno, fun _ => sendsStored_of_text h⟩

/-- The text is neither word, and the variable of the command happens to hold 5: PI's status stays,
SSC has 5 for every port, and the chip is set to it. -/
theorem learn_text_travels :
    let env := { plainEnv with piStack := 5 }
    let arg := Pi.chars "on" ++ [0]
    ¬ LearnText arg ∧ ¬ ChangesNothing env ⟨.blank, .blank, []⟩ arg
      ∧ ∃ s', confStep env (.ok ⟨.blank, .blank, []⟩) (.learn arg) = .ok s'
        ∧ s'.pi.portStatus 1 = 0 ∧ s'.ssc.portStatus 1 = 5 ∧ LearnSet env s'.calls 5 1 := by
  intro env arg
  have hno : Pi.learnStatus (Pi.learnBuff arg) = none := by decide
  have hreg : Ssc.Registered .blank := rfl
  have hstep := confStep_text env hreg rfl .blank [] arg
  rw [exec_text, hno] at hstep
  have hcar : (ConfMsg.learnStatus 5).Carries (env.ssPhyidCe2fe ∘ env.ssc.ssCommIfxDbGetPhyid)
      (atSsa env (.learnStatus 5)) := ConfMsg.carries_relayed _ _ _ _
  have honly : OnlyPorts env loopPorts [] := fun _ _ _ h => absurd h List.not_mem_nil
  refine ⟨fun h => learnStatus_iff.2 h hno, fun h => exec_sends h.silent, _, hstep, rfl, rfl, ?_⟩
  exact (ssaModifyInterLeanSta_spec hcar honly).2 1 ⟨le_rfl, by decide⟩

end RookieMac
