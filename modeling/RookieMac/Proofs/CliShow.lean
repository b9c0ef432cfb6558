import RookieMac.CliShow
import RookieMac.Proofs.PiTable

/-!
# The tables in the text

The lines that the `show` commands print are the addresses of the tables, each once, and the lines
can be read back from the text.
-/

namespace RookieMac.Pi

open CMem Chained Printing

/-! ## Reading a line back -/

section Lines

def macPairs (mac : Mac) : List (U8 × U8) :=
  (List.range 3).map fun j => (mac.toList.getD (2 * j) 0, mac.toList.getD (2 * j + 1) 0)

theorem macPairs_injective : Function.Injective macPairs := by
  intro m m' h
  have hpair : ∀ j < 3, (m.toList.getD (2 * j) 0, m.toList.getD (2 * j + 1) 0)
      = (m'.toList.getD (2 * j) 0, m'.toList.getD (2 * j + 1) 0) := by
    intro j hj
    exact (List.map_inj_left.1 h) j (List.mem_range.2 hj)
  apply Vector.ext
  intro i hi
  have hget : ∀ m : Mac, m.toList.getD i 0 = m[i] := by
    intro m
    simp [List.getD_eq_getElem?_getD, hi]
  rw [← hget m, ← hget m']
  have hi6 : i < 6 := hi
  have hj := Prod.mk.injEq .. ▸ hpair (i / 2) (by omega)
  rcases Nat.mod_two_eq_zero_or_one i with hmod | hmod
  · have hi2 : 2 * (i / 2) = i := by omega
    rw [hi2] at hj
    exact hj.1
  · have hi2 : 2 * (i / 2) + 1 = i := by omega
    rw [hi2] at hj
    exact hj.2

theorem delimited_printMac : Delimited printMac := by
  have hpair : Delimited fun x : U8 × U8 => hex2 x.1 ++ hex2 x.2 ++ ".".toList := by
    have hhex : Delimited hex2 := delimited_of_length (n := 2) (fun _ => rfl) hex2_injective
    exact (hhex.pair hhex).after _
  refine delimited_of_length (n := 15) (fun _ => rfl) fun m m' h => macPairs_injective ?_
  refine hpair.flatMap_injective (fun x => by simp [hex2]) ?_
  simpa only [macPairs, List.flatMap_map, printMac] using h

theorem delimited_printType : Delimited fun x : Bool × U32 => printType x.1 x.2 := by
  have hport : ∀ {stop : Char} (text : List Char), stop.isDigit = false → stop ≠ '-' →
      Delimited fun portId : U32 => decimal portId.toInt ++ stop :: text := by
    intro stop text hdigit hminus
    refine (delimited_of_stop_text text decimal_injective fun v => ?_).comp
      fun a b => BitVec.eq_of_toInt_eq
    exact not_mem_decimal hdigit hminus v
  have h := Delimited.choose
    (fun isStatic => if isStatic then "\t\tSTATIC\t GigabitEthernet 0/".toList
      else "\t\tDYNAMIC\t GigabitEthernet 0/".toList)
    (p := fun isStatic (portId : U32) =>
      decimal portId.toInt ++ if isStatic then " \n".toList else "\n".toList)
    (fun isStatic => by
      cases isStatic
      · exact hport [] (by decide) (by decide)
      · exact hport ['\n'] (by decide) (by decide))
    (fun r r' => by simp)
  refine fun a b r r' hab => h a b r r' ?_
  rcases a with ⟨_ | _, a⟩ <;> rcases b with ⟨_ | _, b⟩ <;> exact hab

theorem delimited_printRow : Delimited printRow := by
  have hvlan : Delimited fun vlanId : U32 => decimal vlanId.toInt ++ " \t".toList := by
    refine (delimited_of_stop_text ['\t'] decimal_injective fun v => ?_).comp
      fun a b => BitVec.eq_of_toInt_eq
    exact not_mem_decimal (by decide) (by decide) v
  have h := hvlan.pair (delimited_printMac.pair delimited_printType)
  refine h.comp (f := fun row : MacRow => (row.vlanId, row.mac, row.isStatic, row.portId)) ?_
  rintro ⟨v, m, b, p⟩ ⟨v', m', b', p'⟩ heq
  simp only [Prod.mk.injEq] at heq
  obtain ⟨rfl, rfl, rfl, rfl⟩ := heq
  rfl

theorem printTable_injective : Function.Injective printTable := by
  intro rows rows' h
  refine delimited_printRow.flatMap_injective (fun row hnil => ?_) (List.append_cancel_left h)
  have := congrArg List.length hnil
  simp [printRow] at this

end Lines

/-! ## The lines of a database -/

section Rows

variable {hash : HashFn} {db : PiDbMacInfo}

def MacRow.table (row : MacRow) (db : PiDbMacInfo) : HashTbl :=
  if row.isStatic then db.staticMacTblHead else db.dynMacTblHead

theorem mem_piShowAllMac {row : MacRow} : row ∈ piShowAllMac db
    ↔ ∃ x ∈ entries (row.table db), macRow row.isStatic x = row := by
  simp only [piShowAllMac, List.mem_flatMap, List.mem_finRange, true_and, List.mem_append,
    List.mem_map, mem_entries]
  constructor
  · rintro ⟨i, ⟨x, hx, rfl⟩ | ⟨x, hx, rfl⟩⟩
    · exact ⟨x, ⟨i, hx⟩, rfl⟩
    · exact ⟨x, ⟨i, hx⟩, rfl⟩
  · rintro ⟨x, ⟨i, hx⟩, hrow⟩
    rcases row with ⟨v, m, _ | _, p⟩
    · exact ⟨i, .inr ⟨x, hx, hrow⟩⟩
    · exact ⟨i, .inl ⟨x, hx, hrow⟩⟩

/-- A line is printed where its table has its address at its port. -/
theorem PiInv.mem_piShowAllMac (h : PiInv hash db) {row : MacRow} : row ∈ piShowAllMac db
    ↔ toMap (layout hash) (row.table db) (row.mac, row.vlanId) = some row.portId := by
  have hwf : WF (layout hash) (row.table db) := by
    unfold MacRow.table
    split_ifs
    · exact h.stat.wf
    · exact h.dyn.wf
  rw [Pi.mem_piShowAllMac, hwf.toMap_eq_some]
  rcases row with ⟨v, m, b, p⟩
  refine exists_congr fun x => and_congr_right fun _ => ?_
  simp only [macRow, layout, PiMacEntry.key, MacRow.mk.injEq, Prod.mk.injEq]
  constructor
  · rintro ⟨rfl, rfl, -, rfl⟩
    exact ⟨⟨rfl, rfl⟩, rfl⟩
  · rintro ⟨⟨rfl, rfl⟩, rfl⟩
    exact ⟨rfl, rfl, trivial, rfl⟩

/-- The lines in the buckets of their addresses. -/
def rowLayout (hash : HashFn) : Layout hashSize MacRow (Bool × Key) U32 where
  idx := fun k => hash k.2.1 k.2.2
  key := fun row => (row.isStatic, row.mac, row.vlanId)
  val := MacRow.portId

theorem PiInv.wf_rows (h : PiInv hash db) : WF (rowLayout hash) fun i =>
    (db.staticMacTblHead i).map (macRow true) ++ (db.dynMacTblHead i).map (macRow false) where
  placed := by
    intro i row hrow
    rcases List.mem_append.1 hrow with hrow | hrow <;> obtain ⟨x, hx, rfl⟩ := List.mem_map.1 hrow
    · exact h.stat.wf.placed i x hx
    · exact h.dyn.wf.placed i x hx
  nodup := by
    intro i
    have hkey : ∀ b, (rowLayout hash).key ∘ macRow b = Prod.mk b ∘ PiMacEntry.key := fun _ => rfl
    rw [List.map_append, List.map_map, List.map_map, hkey, hkey, ← List.map_map, ← List.map_map]
    refine ((h.stat.wf.nodup i).map fun _ _ hk => (Prod.mk.inj hk).2).append
      ((h.dyn.wf.nodup i).map fun _ _ hk => (Prod.mk.inj hk).2) ?_
    intro k hs hd
    obtain ⟨_, -, rfl⟩ := List.mem_map.1 hs
    obtain ⟨_, -, hk⟩ := List.mem_map.1 hd
    cases (Prod.mk.inj hk).1

theorem PiInv.nodup_piShowAllMac (h : PiInv hash db) : (piShowAllMac db).Nodup :=
  .of_map _ h.wf_rows.nodup_entries

theorem piShowVlanMac_eq (numVlan : U32) : piShowVlanMac numVlan db
    = (piShowAllMac db).filter fun row => row.vlanId = numVlan := by
  simp only [piShowVlanMac, piShowAllMac, List.filter_flatMap, List.filter_append, List.filter_map]
  rfl

theorem piShowStaticMac_eq :
    piShowStaticMac db = (piShowAllMac db).filter MacRow.isStatic := by
  have hdyn : ∀ l : List PiMacEntry, (l.map (macRow false)).filter MacRow.isStatic = [] := by
    intro l
    simp [List.filter_eq_nil_iff, macRow]
  have hstat : ∀ l : List PiMacEntry,
      (l.map (macRow true)).filter MacRow.isStatic = l.map (macRow true) := by
    intro l
    simp [List.filter_eq_self, macRow]
  simp only [piShowStaticMac, piShowAllMac, List.filter_flatMap, List.filter_append, hdyn, hstat,
    List.append_nil]

/-- What the table command prints of a reachable database has a line for each address of the two
tables, one alone, and its lines can be read back from it. The VLAN command prints the header and
those of the lines that are in its VLAN, and the static command the header and the static ones, in
the order of the table command. -/
theorem shows_tables (hash : HashFn) (db₀ : PiDbMacInfo) (ops : List PiOp) :
    let db := piRun hash db₀ ops
    let rows := piShowAllMac db
    rows.Nodup
      ∧ (∀ row, row ∈ rows
        ↔ toMap (layout hash) (row.table db) (row.mac, row.vlanId) = some row.portId)
      ∧ (∀ rows', printTable rows' = execShowRookieMacTableCmd db ↔ rows' = rows)
      ∧ (∀ v, execShowRookieMacVlanNumCmd v db = if 1 ≤ v.toInt ∧ v.toInt ≤ vlanMaxSize then
        printTable (rows.filter fun row => row.vlanId = v) else [])
      ∧ execShowRookieMacStaticCmd db = printTable (rows.filter MacRow.isStatic) := by
  intro db rows
  have h : PiInv hash db := piRun_inv hash db₀ ops
  refine ⟨h.nodup_piShowAllMac, fun row => h.mem_piShowAllMac,
    fun rows' => printTable_injective.eq_iff, fun v => ?_, ?_⟩
  · rw [execShowRookieMacVlanNumCmd, piShowVlanMac_eq]
    split_ifs with hlow hhigh hhigh
    · omega
    · rfl
    · rfl
    · omega
  · rw [execShowRookieMacStaticCmd, piShowStaticMac_eq]

end Rows

end RookieMac.Pi
