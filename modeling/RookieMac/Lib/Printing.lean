import Mathlib

/-!
# Texts that can be read back

A printer turns values into texts. It is delimited when the end of what it prints shows in whatever
text follows, so that printed values can be taken off the front of a text one by one. Printers put
one after another, with fixed texts in between, printers of fixed width and numbers with a mark
after them are delimited; a list printed by a delimited printer that never prints the empty text
can be read back from the whole of its text.
-/

namespace Printing

variable {α β κ : Type*} {p : α → List κ} {q : β → List κ}

/-- What is printed, and what follows it, can be told from any text that begins with it. -/
def Delimited (p : α → List κ) : Prop := ∀ a b r r', p a ++ r = p b ++ r' → a = b ∧ r = r'

theorem Delimited.comp {f : β → α} (hp : Delimited p) (hf : Function.Injective f) :
    Delimited fun b => p (f b) := by
  intro a b r r' h
  obtain ⟨hab, hr⟩ := hp _ _ r r' h
  exact ⟨hf hab, hr⟩

theorem Delimited.after (hp : Delimited p) (text : List κ) : Delimited fun a => p a ++ text := by
  intro a b r r' h
  rw [List.append_assoc, List.append_assoc] at h
  obtain ⟨hab, hr⟩ := hp a b _ _ h
  exact ⟨hab, List.append_cancel_left hr⟩

theorem Delimited.pair (hp : Delimited p) (hq : Delimited q) :
    Delimited fun x : α × β => p x.1 ++ q x.2 := by
  rintro ⟨a, b⟩ ⟨a', b'⟩ r r' h
  simp only [List.append_assoc] at h
  obtain ⟨rfl, h'⟩ := hp a a' _ _ h
  obtain ⟨rfl, hr⟩ := hq b b' _ _ h'
  exact ⟨rfl, hr⟩

/-- Two printers, each with a text before that tells it from the other. -/
theorem Delimited.choose {p : Bool → α → List κ} (tag : Bool → List κ)
    (hp : ∀ b, Delimited (p b)) (htag : ∀ r r', tag true ++ r ≠ tag false ++ r') :
    Delimited fun x : Bool × α => tag x.1 ++ p x.1 x.2 := by
  rintro ⟨b, a⟩ ⟨b', a'⟩ r r' h
  simp only [List.append_assoc] at h
  rcases b with _ | _ <;> rcases b' with _ | _
  · obtain ⟨rfl, hr⟩ := hp false a a' r r' (List.append_cancel_left h)
    exact ⟨rfl, hr⟩
  · exact absurd h.symm (htag _ _)
  · exact absurd h (htag _ _)
  · obtain ⟨rfl, hr⟩ := hp true a a' r r' (List.append_cancel_left h)
    exact ⟨rfl, hr⟩

theorem delimited_of_length {n : ℕ} (hlen : ∀ a, (p a).length = n) (hp : Function.Injective p) :
    Delimited p := by
  intro a b r r' h
  obtain ⟨hab, hr⟩ := List.append_inj h ((hlen a).trans (hlen b).symm)
  exact ⟨hp hab, hr⟩

/-- A character that is in no printed text marks its end. -/
theorem delimited_of_stop {stop : κ} (hp : Function.Injective p) (hstop : ∀ a, stop ∉ p a) :
    Delimited fun a => p a ++ [stop] := by
  have hmark : ∀ {u v r r' : List κ}, stop ∉ u → stop ∉ v →
      u ++ stop :: r = v ++ stop :: r' → u = v ∧ r = r' := by
    intro u
    induction u with
    | nil =>
      rintro (_ | ⟨c, v⟩) r r' - hv h
      · simpa using h
      · obtain ⟨rfl, -⟩ := List.cons.inj h
        exact absurd (List.mem_cons_self ..) hv
    | cons c u ih =>
      rintro (_ | ⟨c', v⟩) r r' hu hv h
      · obtain ⟨rfl, -⟩ := List.cons.inj h
        exact absurd (List.mem_cons_self ..) hu
      · obtain ⟨rfl, h'⟩ := List.cons.inj h
        obtain ⟨rfl, hr⟩ := ih (fun hm => hu (.tail _ hm)) (fun hm => hv (.tail _ hm)) h'
        exact ⟨rfl, hr⟩
  intro a b r r' h
  simp only [List.append_assoc, List.singleton_append] at h
  obtain ⟨hab, hr⟩ := hmark (hstop a) (hstop b) h
  exact ⟨hp hab, hr⟩

/-- The printer with a text after that begins with the mark. -/
theorem delimited_of_stop_text {stop : κ} (text : List κ) (hp : Function.Injective p)
    (hstop : ∀ a, stop ∉ p a) : Delimited fun a => p a ++ stop :: text := by
  simpa using (delimited_of_stop hp hstop).after text

theorem Delimited.flatMap_injective (hp : Delimited p) (hne : ∀ a, p a ≠ []) :
    Function.Injective fun as : List α => as.flatMap p := by
  intro as
  induction as with
  | nil =>
    rintro (_ | ⟨b, bs⟩) h
    · rfl
    · simp only [List.flatMap_nil, List.flatMap_cons] at h
      exact absurd (List.append_eq_nil_iff.1 h.symm).1 (hne b)
  | cons a as ih =>
    rintro (_ | ⟨b, bs⟩) h
    · simp only [List.flatMap_nil, List.flatMap_cons] at h
      exact absurd (List.append_eq_nil_iff.1 h).1 (hne a)
    · simp only [List.flatMap_cons] at h
      obtain ⟨rfl, h'⟩ := hp a b _ _ h
      rw [ih h']

/-! ## Numbers -/

/-- `%d`. -/
def decimal (v : ℤ) : List Char :=
  if v < 0 then '-' :: Nat.toDigits 10 v.natAbs else Nat.toDigits 10 v.natAbs

/-- `%02x` of a byte. -/
def hex2 (b : BitVec 8) : List Char :=
  [(b.toNat / 16).digitChar, (b.toNat % 16).digitChar]

theorem toDigits_injective : Function.Injective (Nat.toDigits 10) := by
  intro m n h
  rw [← Nat.ofDigitChars_ten_toDigits (n := m), h, Nat.ofDigitChars_ten_toDigits]

theorem not_mem_toDigits {c : Char} (hc : c.isDigit = false) (n : ℕ) : c ∉ Nat.toDigits 10 n := by
  intro h
  rw [Nat.isDigit_of_mem_toDigits (by decide) (by decide) h] at hc
  cases hc

theorem decimal_injective : Function.Injective decimal := by
  intro v w h
  have hsign : ∀ {m n : ℕ}, '-' :: Nat.toDigits 10 m ≠ Nat.toDigits 10 n := by
    intro m n h
    have hmem : '-' ∈ Nat.toDigits 10 n := h ▸ List.mem_cons_self ..
    exact not_mem_toDigits (by decide) n hmem
  unfold decimal at h
  split_ifs at h with hv hw hw
  · have := toDigits_injective (List.cons.inj h).2
    omega
  · exact absurd h hsign
  · exact absurd h.symm hsign
  · have := toDigits_injective h
    omega

theorem not_mem_decimal {c : Char} (hc : c.isDigit = false) (hminus : c ≠ '-') (v : ℤ) :
    c ∉ decimal v := by
  unfold decimal
  split_ifs
  · simp [hminus, not_mem_toDigits hc]
  · exact not_mem_toDigits hc _

theorem digitChar_injective {m n : ℕ} (hm : m < 16) (hn : n < 16)
    (h : m.digitChar = n.digitChar) : m = n := by
  have hall : ∀ m n : Fin 16, m.val.digitChar = n.val.digitChar → m = n := by decide
  exact congrArg Fin.val (hall ⟨m, hm⟩ ⟨n, hn⟩ h)

theorem hex2_injective : Function.Injective hex2 := by
  intro a b h
  have ha := a.isLt
  have hb := b.isLt
  obtain ⟨h₁, h₂⟩ : _ ∧ _ := by simpa [hex2] using h
  have := digitChar_injective (by omega) (by omega) h₁
  have := digitChar_injective (by omega) (by omega) h₂
  apply BitVec.eq_of_toNat_eq
  omega

end Printing
