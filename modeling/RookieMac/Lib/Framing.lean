import Mathlib

/-!
# A receiver that takes each read for a message

Messages are written one after the other to a byte stream, and a receiver that reads the stream into
one buffer hands the buffer on after each read. Where every read returns one message this hands on
the messages, whatever the buffer holds behind them. Where the sizes of the reads are not those of
the messages, some messages of the same sizes are not handed on: either there are not as many reads
as messages, or the second message handed on starts with a byte that is not its first.
-/

namespace Framing

variable {α μ : Type*}

/-- `read` into a buffer: what it returned, then what was there before. -/
def readInto (buff data : List α) : List α := data ++ buff.drop data.length

/-- The buffers handed on, one after each read; `touch` is what is done to the buffer then. -/
def handed (touch : List α → List α) : List α → List (List α) → List (List α)
  | _, [] => []
  | buff, data :: reads => readInto buff data :: handed touch (touch (readInto buff data)) reads

def cut : List ℕ → List α → List (List α)
  | [], _ => []
  | n :: ns, bs => bs.take n :: cut ns (bs.drop n)

@[simp] theorem length_handed (touch : List α → List α) :
    ∀ (buff : List α) (reads : List (List α)), (handed touch buff reads).length = reads.length
  | _, [] => rfl
  | buff, data :: reads => by simp [handed, length_handed touch _ reads]

@[simp] theorem length_cut : ∀ (ns : List ℕ) (bs : List α), (cut ns bs).length = ns.length
  | [], _ => rfl
  | n :: ns, bs => by simp [cut, length_cut ns]

section Receiver

variable {enc : μ → List α} {recv : List α → List α} {cap : ℕ} {touch : List α → List α}

theorem handed_messages (hrecv : ∀ m rest, (enc m).length ≤ cap → recv (enc m ++ rest) = enc m) :
    ∀ (ms : List μ) (buff : List α), (∀ m ∈ ms, (enc m).length ≤ cap) →
      (handed touch buff (cut (ms.map fun m => (enc m).length) (ms.flatMap enc))).map recv
        = ms.map enc
  | [], _, _ => rfl
  | m :: ms, buff, h => by
    rw [List.map_cons, List.flatMap_cons, cut, List.take_left', List.drop_left', handed,
      List.map_cons, List.map_cons, handed_messages hrecv ms _ fun m hm => h m (.tail _ hm),
      readInto, hrecv m _ (h m (.head _))]
    · rfl
    · rfl

/-- If the second message handed on is `c :: t`, the second read starts with `c`. -/
theorem second_head (hpre : ∀ buff, recv buff <+: buff) {buff bs e t : List α} {c : α} {n n' : ℕ}
    {ns : List ℕ} {es : List (List α)} (hn' : 0 < n') (hlen : n < bs.length)
    (h : (handed touch buff (cut (n :: n' :: ns) bs)).map recv = e :: (c :: t) :: es) :
    bs[n]? = some c := by
  simp only [cut, handed, List.map_cons, List.cons.injEq] at h
  have hp := hpre (readInto (touch (readInto buff (bs.take n))) ((bs.drop n).take n'))
  rw [h.2.1] at hp
  obtain ⟨w, hw⟩ := hp
  have hhead := congrArg (fun buff => buff[0]?) hw
  have hdrop : (bs.drop n).take n' ≠ [] := by
    rw [Ne, List.take_eq_nil_iff, List.drop_eq_nil_iff]
    omega
  simp only [readInto] at hhead
  rw [List.getElem?_append_left (List.length_pos_of_ne_nil hdrop),
    List.getElem?_take_of_lt hn', List.getElem?_drop, Nat.add_zero] at hhead
  exact hhead.symm

theorem getElem?_differ (as bs : List α) (a b : α) {n : ℕ} (hn : n ≠ as.length) :
    (as ++ a :: bs)[n]? = (as ++ b :: bs)[n]? := by
  rcases Nat.lt_or_gt_of_ne hn with h | h
  · rw [List.getElem?_append_left h, List.getElem?_append_left h]
  · rw [List.getElem?_append_right h.le, List.getElem?_append_right h.le]
    obtain ⟨k, hk⟩ := Nat.exists_eq_succ_of_ne_zero (Nat.sub_ne_zero_of_lt h)
    rw [hk]
    rfl

/-- Two messages of the size that differ in their first byte. -/
def Differ (enc : μ → List α) (l : ℕ) : Prop :=
  ∃ (m m' : μ) (a b : α) (t : List α), enc m = a :: t ∧ enc m' = b :: t ∧ a ≠ b ∧ t.length + 1 = l

theorem exists_messages : ∀ ls : List ℕ, (∀ l ∈ ls, Differ enc l) →
    ∃ ms : List μ, (ms.map fun m => (enc m).length) = ls
  | [], _ => ⟨[], rfl⟩
  | l :: ls, h => by
    obtain ⟨ms, hms⟩ := exists_messages ls fun l hl => h l (.tail _ hl)
    obtain ⟨m, -, a, -, t, hm, -, -, ht⟩ := h l (.head _)
    exact ⟨m :: ms, by simp [hms, hm, ht]⟩

theorem length_flatMap_enc (ms : List μ) :
    (ms.flatMap enc).length = (ms.map fun m => (enc m).length).sum := by
  rw [List.length_flatMap]

theorem misread_of_length {ls ns : List ℕ} (buff : List α) (hls : ∀ l ∈ ls, Differ enc l)
    (hne : ns.length ≠ ls.length) : ∃ ms : List μ, (ms.map fun m => (enc m).length) = ls
      ∧ (handed touch buff (cut ns (ms.flatMap enc))).map recv ≠ ms.map enc := by
  obtain ⟨ms, hms⟩ := exists_messages ls hls
  refine ⟨ms, hms, fun h => hne ?_⟩
  have hl := congrArg List.length h
  rw [List.length_map, length_handed, length_cut, List.length_map] at hl
  rw [hl, ← hms, List.length_map]

/-- The second read does not start where the second message does, so at the same byte whichever of
two messages that is. -/
theorem misread_of_second (hpre : ∀ buff, recv buff <+: buff) {l l' n n' : ℕ} {ls ns : List ℕ}
    (buff : List α) (hls : ∀ k ∈ l :: l' :: ls, Differ enc k) (hn' : 0 < n') (hnl : n ≠ l)
    (hsum : (l :: l' :: ls).sum = (n :: n' :: ns).sum) :
    ∃ ms : List μ, (ms.map fun m => (enc m).length) = l :: l' :: ls
      ∧ (handed touch buff (cut (n :: n' :: ns) (ms.flatMap enc))).map recv ≠ ms.map enc := by
  obtain ⟨m₀, -, a₀, -, t₀, hm₀, -, -, ht₀⟩ := hls l (.head _)
  obtain ⟨m, m', a, b, t, hm, hm', hab, ht⟩ := hls l' (.tail _ (.head _))
  obtain ⟨ms, hms⟩ := exists_messages ls fun k hk => hls k (.tail _ (.tail _ hk))
  have hlen₀ : (enc m₀).length = l := by rw [hm₀, List.length_cons, ht₀]
  have hlen : (enc m).length = l' := by rw [hm, List.length_cons, ht]
  have hlen' : (enc m').length = l' := by rw [hm', List.length_cons, ht]
  have size : ∀ m₁, (enc m₁).length = l' →
      ((m₀ :: m₁ :: ms).map fun m => (enc m).length) = l :: l' :: ls := fun m₁ h₁ => by
    rw [List.map_cons, List.map_cons, hms, hlen₀, h₁]
  have hlt : ∀ m₁, (enc m₁).length = l' → n < ((m₀ :: m₁ :: ms).flatMap enc).length := by
    intro m₁ h₁
    rw [length_flatMap_enc, size m₁ h₁, hsum, List.sum_cons, List.sum_cons]
    omega
  by_cases hbad : (handed touch buff (cut (n :: n' :: ns)
      ((m₀ :: m :: ms).flatMap enc))).map recv = (m₀ :: m :: ms).map enc
  · refine ⟨m₀ :: m' :: ms, size m' hlen', fun h => hab ?_⟩
    rw [List.map_cons, List.map_cons, hm] at hbad
    rw [List.map_cons, List.map_cons, hm'] at h
    have ha := second_head hpre hn' (hlt m hlen) hbad
    have hb := second_head hpre hn' (hlt m' hlen') h
    rw [List.flatMap_cons, List.flatMap_cons, hm, List.cons_append] at ha
    rw [List.flatMap_cons, List.flatMap_cons, hm', List.cons_append,
      ← getElem?_differ _ _ a b (hlen₀ ▸ hnl), ha] at hb
    exact Option.some.inj hb
  · exact ⟨m₀ :: m :: ms, size m hlen, hbad⟩

theorem exists_misread (hpre : ∀ buff, recv buff <+: buff) :
    ∀ (ls ns : List ℕ) (buff : List α), (∀ l ∈ ls, Differ enc l) → (∀ n ∈ ns, 0 < n) →
      ls.sum = ns.sum → ns ≠ ls →
      ∃ ms : List μ, (ms.map fun m => (enc m).length) = ls
        ∧ (handed touch buff (cut ns (ms.flatMap enc))).map recv ≠ ms.map enc
  | [], [], _, _, _, _, hne => absurd rfl hne
  | [], _ :: _, buff, hls, _, _, _ => misread_of_length buff hls (by simp)
  | _ :: _, [], buff, hls, _, _, _ => misread_of_length buff hls (by simp)
  | l :: ls, n :: ns, buff, hls, hns, hsum, hne => by
    by_cases hnl : n = l
    · -- the first read is the first message: a later one is misread
      subst hnl
      obtain ⟨m, -, a, -, t, hm, -, -, ht⟩ := hls n (.head _)
      have hlen : (enc m).length = n := by rw [hm, List.length_cons, ht]
      rw [List.sum_cons, List.sum_cons, Nat.add_left_cancel_iff] at hsum
      obtain ⟨ms, hms, hbad⟩ := exists_misread hpre ls ns (touch (readInto buff (enc m)))
        (fun l hl => hls l (.tail _ hl)) (fun n hn => hns n (.tail _ hn)) hsum
        fun h => hne (by rw [h])
      refine ⟨m :: ms, by rw [List.map_cons, hms, hlen], fun h => hbad ?_⟩
      rw [List.flatMap_cons, cut, List.take_left' hlen, List.drop_left' hlen, handed,
        List.map_cons, List.map_cons] at h
      exact (List.cons.inj h).2
    · cases ls with
      | nil =>
        cases ns with
        | nil => exact absurd (by simpa using hsum.symm) hnl
        | cons n' ns => exact misread_of_length buff hls (by simp)
      | cons l' ls =>
        cases ns with
        | nil => exact misread_of_length buff hls (by simp)
        | cons n' ns => exact misread_of_second hpre buff hls (hns n' (.tail _ (.head _))) hnl hsum

/-- The messages of the given sizes are all handed on exactly when every read is one message. -/
theorem handed_iff (hrecv : ∀ m rest, (enc m).length ≤ cap → recv (enc m ++ rest) = enc m)
    (hpre : ∀ buff, recv buff <+: buff) {ls ns : List ℕ} (buff : List α)
    (hls : ∀ l ∈ ls, l ≤ cap ∧ Differ enc l) (hns : ∀ n ∈ ns, 0 < n) (hsum : ls.sum = ns.sum) :
    (∀ ms : List μ, (ms.map fun m => (enc m).length) = ls →
      (handed touch buff (cut ns (ms.flatMap enc))).map recv = ms.map enc) ↔ ns = ls := by
  constructor
  · intro h
    by_contra hne
    obtain ⟨ms, hms, hbad⟩ := exists_misread hpre ls ns buff (fun l hl => (hls l hl).2) hns hsum hne
    exact hbad (h ms hms)
  · rintro rfl ms hms
    rw [← hms]
    refine handed_messages hrecv ms buff fun m hm => ?_
    exact (hls _ (hms ▸ List.mem_map_of_mem hm)).1

end Receiver

end Framing
