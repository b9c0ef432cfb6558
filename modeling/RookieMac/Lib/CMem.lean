import Mathlib

/-!
# Bytes, words and the memory comparisons of C

A word is stored low byte first. `memcmp` looks at all `n` bytes; `strncmp` stops at the first
zero byte both operands share, so what it decides is equality of the C strings the two byte
arrays start with (`strncmp_eq_zero_iff`).
-/

namespace CMem

abbrev U8 := BitVec 8

abbrev U32 := BitVec 32

/-- The word whose bytes are `b₀` (low) to `b₃` (high). -/
def ofBytes (b₀ b₁ b₂ b₃ : U8) : U32 := b₃ ++ b₂ ++ b₁ ++ b₀

def toBytes (w : U32) : List U8 :=
  [w.extractLsb' 0 8, w.extractLsb' 8 8, w.extractLsb' 16 8, w.extractLsb' 24 8]

/-- The word at offset `off`; bytes past the end read as zero. -/
def readU32 (bs : List U8) (off : ℕ) : U32 :=
  ofBytes (bs.getD off 0) (bs.getD (off + 1) 0) (bs.getD (off + 2) 0) (bs.getD (off + 3) 0)

/-- A word stored at offset `off`. -/
def writeU32 (off : ℕ) (w : U32) (bs : List U8) : List U8 :=
  bs.take off ++ (toBytes w ++ bs.drop (off + 4))

/-- `memcpy(dst, src, n)`. -/
def memcpy (n : ℕ) (dst src : List U8) : List U8 := src.take n ++ dst.drop n

/-- `memset(bs, 0, n)`. -/
def zeroFirst (n : ℕ) (bs : List U8) : List U8 := List.replicate n 0 ++ bs.drop n

def memcmp : ℕ → List U8 → List U8 → ℤ
  | n + 1, a :: as, b :: bs => if a = b then memcmp n as bs else (a.toNat : ℤ) - b.toNat
  | _, _, _ => 0

/-- `strncmp` on at most `n` bytes: equal bytes are skipped until a zero byte ends both strings. -/
def strncmp : ℕ → List U8 → List U8 → ℤ
  | n + 1, a :: as, b :: bs =>
    if a = b then (if a = 0#8 then 0 else strncmp n as bs) else (a.toNat : ℤ) - b.toNat
  | _, _, _ => 0

/-- The C string a byte array starts with, its terminator left out. -/
def cstr (bs : List U8) : List U8 := bs.takeWhile (· ≠ 0#8)

/-! ## Words -/

section Words

@[simp] theorem length_toBytes (w : U32) : (toBytes w).length = 4 := rfl

theorem ofBytes_extract (w : U32) :
    ofBytes (w.extractLsb' 0 8) (w.extractLsb' 8 8) (w.extractLsb' 16 8) (w.extractLsb' 24 8)
      = w := by
  apply BitVec.eq_of_getLsbD_eq
  intro i hi
  simp only [ofBytes, BitVec.getLsbD_append, BitVec.getLsbD_extractLsb']
  by_cases h8 : i < 8
  · simp [h8]
  by_cases h16 : i < 16
  · simp [h8, show i - 8 < 8 by omega, show 8 + (i - 8) = i by omega]
  by_cases h24 : i < 24
  · simp [h8, show ¬ i - 8 < 8 by omega, show i - 8 - 8 < 8 by omega,
      show 16 + (i - 8 - 8) = i by omega]
  · simp [h8, show ¬ i - 8 < 8 by omega, show ¬ i - 8 - 8 < 8 by omega,
      show i - 8 - 8 - 8 < 8 by omega, show 24 + (i - 8 - 8 - 8) = i by omega]

@[simp] theorem readU32_toBytes (w : U32) (rest : List U8) : readU32 (toBytes w ++ rest) 0 = w := by
  simp [readU32, toBytes, ofBytes_extract]

@[simp] theorem readU32_toBytes_self (w : U32) : readU32 (toBytes w) 0 = w := by
  simpa using readU32_toBytes w []

theorem readU32_skip (pre bs : List U8) {off : ℕ} (k : ℕ) (h : off = pre.length + k) :
    readU32 (pre ++ bs) off = readU32 bs k := by
  subst h
  have at_ : ∀ j, (pre ++ bs).getD (pre.length + j) 0 = bs.getD j 0 := fun j => by
    rw [List.getD_append_right _ _ _ _ (by omega), Nat.add_sub_cancel_left]
  simp only [readU32, add_assoc, at_]

def wordsBytes (ws : List U32) : List U8 := ws.flatMap toBytes

theorem readU32_wordsBytes (rest : List U8) :
    ∀ (ws : List U32) (i : ℕ) (h : i < ws.length),
      readU32 (wordsBytes ws ++ rest) (4 * i) = ws[i]
  | w :: ws, 0, _ => by simp [wordsBytes, List.append_assoc]
  | w :: ws, i + 1, h => by
    have ih := readU32_wordsBytes rest ws i (by simpa using h)
    rw [show wordsBytes (w :: ws) ++ rest = toBytes w ++ (wordsBytes ws ++ rest) by
      simp [wordsBytes], readU32_skip _ _ (4 * i) (by rw [length_toBytes]; omega), ih]
    rfl

@[simp] theorem length_wordsBytes (ws : List U32) : (wordsBytes ws).length = 4 * ws.length := by
  induction ws with
  | nil => rfl
  | cons w ws ih =>
    have hw : wordsBytes (w :: ws) = toBytes w ++ wordsBytes ws := rfl
    rw [hw, List.length_append, ih, length_toBytes, List.length_cons]
    omega

@[simp] theorem writeU32_toBytes (v w : U32) (rest : List U8) :
    writeU32 0 w (toBytes v ++ rest) = toBytes w ++ rest := rfl

@[simp] theorem writeU32_toBytes_self (v w : U32) : writeU32 0 w (toBytes v) = toBytes w := rfl

theorem writeU32_skip (pre bs : List U8) (w : U32) {off : ℕ} (k : ℕ) (h : off = pre.length + k) :
    writeU32 off w (pre ++ bs) = pre ++ writeU32 k w bs := by
  subst h
  rw [writeU32, writeU32, List.take_length_add_append, add_assoc, List.drop_length_add_append,
    List.append_assoc]

theorem writeU32_wordsBytes (w : U32) (rest : List U8) :
    ∀ (ws : List U32) (i : ℕ), i < ws.length →
      writeU32 (4 * i) w (wordsBytes ws ++ rest) = wordsBytes (ws.set i w) ++ rest
  | v :: ws, 0, _ => by
    rw [show wordsBytes (v :: ws) ++ rest = toBytes v ++ (wordsBytes ws ++ rest) by
      simp [wordsBytes]]
    simp [wordsBytes]
  | v :: ws, i + 1, h => by
    have ih := writeU32_wordsBytes w rest ws i (by simpa using h)
    rw [show wordsBytes (v :: ws) ++ rest = toBytes v ++ (wordsBytes ws ++ rest) by
      simp [wordsBytes], writeU32_skip _ _ _ (4 * i) (by rw [length_toBytes]; omega), ih]
    simp [wordsBytes]

/-- A loop that converts the words of an array in place, each of the listed places once. -/
theorem foldl_convert (f : U32 → U32) (pre rest : List U8) {off : ℕ} (hoff : off = pre.length) :
    ∀ (is : List ℕ) (ws : List U32), is.Nodup → (∀ i ∈ is, i < ws.length) →
      is.foldl (fun bs i => writeU32 (off + 4 * i) (f (readU32 bs (off + 4 * i))) bs)
          (pre ++ (wordsBytes ws ++ rest))
        = pre ++ (wordsBytes (ws.mapIdx fun i w => if i ∈ is then f w else w) ++ rest)
  | [], ws, _, _ => by simp [List.mapIdx_eq_ofFn]
  | i :: is, ws, hnd, hlt => by
    obtain ⟨hi, hnd⟩ := List.nodup_cons.1 hnd
    have hiw : i < ws.length := hlt i (.head _)
    have hset : ∀ j ∈ is, j < (ws.set i (f ws[i])).length := fun j hj => by
      rw [List.length_set]
      exact hlt j (.tail _ hj)
    rw [List.foldl_cons, readU32_skip pre _ (4 * i) (by rw [hoff]), readU32_wordsBytes rest ws i hiw,
      writeU32_skip pre _ _ (4 * i) (by rw [hoff]), writeU32_wordsBytes _ rest ws i hiw,
      foldl_convert f pre rest hoff is _ hnd hset]
    congr 3
    apply List.ext_getElem (by simp)
    intro j hj hj'
    rcases eq_or_ne i j with rfl | hij
    · simp [hi]
    · simp [hij, Ne.symm hij]

end Words

/-! ## Comparisons -/

section Comparisons

theorem cmp_ne_zero {a b : U8} (h : a ≠ b) : (a.toNat : ℤ) - b.toNat ≠ 0 := by
  intro h0
  exact h (BitVec.eq_of_toNat_eq (by omega))

theorem memcmp_eq_zero_iff : ∀ {n : ℕ} {as bs : List U8}, as.length = n → bs.length = n →
    (memcmp n as bs = 0 ↔ as = bs)
  | 0, as, bs, ha, hb => by
    rw [List.length_eq_zero_iff] at ha hb
    simp [ha, hb, memcmp]
  | n + 1, a :: as, b :: bs, ha, hb => by
    simp only [memcmp, List.cons.injEq]
    split_ifs with hab
    · rw [memcmp_eq_zero_iff (by simpa using ha) (by simpa using hb)]
      simp [hab]
    · simp [hab, cmp_ne_zero hab]

/-- `strncmp` over whole arrays compares the C strings they start with. -/
theorem strncmp_eq_zero_iff : ∀ {n : ℕ} {as bs : List U8}, as.length = n → bs.length = n →
    (strncmp n as bs = 0 ↔ cstr as = cstr bs)
  | 0, as, bs, ha, hb => by
    rw [List.length_eq_zero_iff] at ha hb
    simp [ha, hb, strncmp]
  | n + 1, a :: as, b :: bs, ha, hb => by
    simp only [strncmp]
    split_ifs with hab h0
    · subst hab h0
      simp [cstr]
    · subst hab
      rw [strncmp_eq_zero_iff (by simpa using ha) (by simpa using hb)]
      simp [cstr, h0]
    · simp only [cmp_ne_zero hab, cstr, List.takeWhile_cons, decide_not, false_iff]
      by_cases ha0 : a = 0#8 <;> by_cases hb0 : b = 0#8 <;> simp_all

/-- What follows the terminator does not matter. -/
theorem strncmp_cstr : ∀ (n : ℕ) {as : List U8} (bs : List U8), 0#8 ∈ as →
    strncmp n (cstr as ++ [0]) bs = strncmp n as bs
  | 0, _, _, _ => by simp only [strncmp]
  | n + 1, a :: as, [], h => by rcases cstr (a :: as) ++ [0] with _ | ⟨c, cs⟩ <;> rfl
  | n + 1, a :: as, b :: bs, h => by
    rcases eq_or_ne a 0#8 with rfl | ha
    · simp [cstr, strncmp]
    · have hc : cstr (a :: as) = a :: cstr as := by simp [cstr, ha]
      have h' : 0#8 ∈ as := (List.mem_cons.1 h).resolve_left ha.symm
      rw [hc, List.cons_append, strncmp, strncmp, strncmp_cstr n bs h']

theorem cstr_cons {a : U8} (as : List U8) (ha : a ≠ 0#8) : cstr (a :: as) = a :: cstr as := by
  simp [cstr, ha]

/-- A comparison with as many bytes as a string has asks whether the other begins with it. -/
theorem strncmp_starts : ∀ {as bs : List U8}, 0#8 ∈ as → 0#8 ∉ bs →
    (strncmp bs.length as bs = 0 ↔ bs <+: cstr as)
  | _, [], _, _ => by simp [strncmp]
  | a :: as, b :: bs, ha, hb => by
    obtain ⟨hb0, hbs⟩ := not_or.1 (mt List.mem_cons.2 hb)
    rw [List.length_cons, strncmp]
    rcases eq_or_ne a b with rfl | hab
    · have ha' : 0#8 ∈ as := (List.mem_cons.1 ha).resolve_left hb0
      rw [if_pos rfl, if_neg (Ne.symm hb0), strncmp_starts ha' hbs, cstr_cons as (Ne.symm hb0),
        List.prefix_cons_inj]
    · rw [if_neg hab]
      refine iff_of_false (cmp_ne_zero hab) fun h => ?_
      rcases eq_or_ne a 0#8 with rfl | ha0
      · simp [cstr] at h
      · rw [cstr_cons as ha0, List.cons_prefix_cons] at h
        exact hab h.1.symm

/-- A text cut off after `n` bytes. -/
theorem cstr_take : ∀ (n : ℕ) (as : List U8), cstr (as.take n ++ [0]) = (cstr as).take n
  | 0, as => by simp [cstr]
  | n + 1, [] => by simp [cstr]
  | n + 1, a :: as => by
    rcases eq_or_ne a 0#8 with rfl | ha
    · simp [cstr]
    · rw [List.take_succ_cons, List.cons_append, cstr_cons _ ha, cstr_cons _ ha, cstr_take n as,
        List.take_succ_cons]

end Comparisons

end CMem
