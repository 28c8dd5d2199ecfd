/-!
# Machine words and their bytes

A word has 64 bits. Wider registers are longer bit vectors, and all of them are read byte by
byte, the least significant byte first.
-/

namespace Rerun

/-- A machine word. -/
abbrev Word := BitVec 64

/-- How many words there are. -/
def Word.count : Nat := 0x10000000000000000

/-- No memory has more bytes than this. -/
def memoryLimit : Nat := 0x7fffffffffffffff

/-- Eight bits. -/
abbrev Byte := BitVec 8

namespace Bytes

/-- Byte `i` of `v`, counted from the least significant one. -/
def nth {n : Nat} (v : BitVec n) (i : Nat) : Byte := v.extractLsb' (8 * i) 8

/-- The low `count` bytes of `v`, least significant first. -/
def low {n : Nat} (v : BitVec n) (count : Nat) : List Byte := (List.range count).map (nth v)

/-- `v` with the listed bytes, least significant first, in place of its low ones; the bytes above
them stay. -/
def setLow {n : Nat} (v : BitVec n) : List Byte → BitVec n
  | [] => v
  | b :: rest => (setLow (v >>> 8) rest <<< 8) ||| b.setWidth n

@[simp] theorem length_low {n : Nat} (v : BitVec n) (count : Nat) :
    (low v count).length = count := by
  simp [low]

theorem getElem_low {n : Nat} (v : BitVec n) {count i : Nat} (h : i < (low v count).length) :
    (low v count)[i] = nth v i := by
  simp [low]

theorem getLsbD_nth {n : Nat} (v : BitVec n) (i : Nat) {j : Nat} (hj : j < 8) :
    (nth v i).getLsbD j = v.getLsbD (8 * i + j) := by
  rw [nth, BitVec.getLsbD_extractLsb', decide_eq_true hj, Bool.true_and]

/-- The listed bytes are there, and behind the end of the list those from before. -/
theorem nth_setLow {n : Nat} (v : BitVec n) (bytes : List Byte) {i : Nat} (h : 8 * i + 8 ≤ n) :
    nth (setLow v bytes) i = bytes[i]?.getD (nth v i) := by
  induction bytes generalizing v i with
  | nil => rfl
  | cons b rest ih =>
    refine BitVec.eq_of_getLsbD_eq fun j hj => ?_
    have hlt : 8 * i + j < n := by omega
    rw [getLsbD_nth _ _ hj, setLow, BitVec.getLsbD_or, BitVec.getLsbD_shiftLeft,
      BitVec.getLsbD_setWidth, decide_eq_true hlt, Bool.true_and, Bool.true_and]
    cases i with
    | zero =>
      have hlow : 8 * 0 + j < 8 := by omega
      rw [decide_eq_true hlow, Nat.mul_zero, Nat.zero_add]
      rfl
    | succ i =>
      have hhigh : ¬8 * (i + 1) + j < 8 := by omega
      have hsub : 8 * (i + 1) + j - 8 = 8 * i + j := by omega
      have hrest : nth (v >>> 8) i = nth v (i + 1) := by
        refine BitVec.eq_of_getLsbD_eq fun j hj => ?_
        rw [getLsbD_nth _ _ hj, getLsbD_nth _ _ hj, BitVec.getLsbD_ushiftRight]
        congr 1
        omega
      rw [decide_eq_false hhigh, hsub, BitVec.getLsbD_of_ge b _ (by omega), ← getLsbD_nth _ i hj,
        ih _ (by omega), hrest]
      simp

/-- The low bytes of two vectors are the same if the low bits are. -/
theorem low_eq_low_iff {n : Nat} {v w : BitVec n} {count : Nat} :
    low v count = low w count ↔ v.setWidth (8 * count) = w.setWidth (8 * count) := by
  simp only [low, List.map_inj_left, List.mem_range]
  constructor
  · intro h
    refine BitVec.eq_of_getLsbD_eq fun j hj => ?_
    have hbyte := congrArg (·.getLsbD (j % 8)) (h (j / 8) (by omega))
    simp only [getLsbD_nth _ _ (Nat.mod_lt j (by decide)), Nat.div_add_mod] at hbyte
    rw [BitVec.getLsbD_setWidth, BitVec.getLsbD_setWidth, hbyte]
  · intro h i hi
    refine BitVec.eq_of_getLsbD_eq fun j hj => ?_
    have hbit := congrArg (·.getLsbD (8 * i + j)) h
    simp only [BitVec.getLsbD_setWidth] at hbit
    have hlt : 8 * i + j < 8 * count := by omega
    simpa only [getLsbD_nth _ _ hj, hlt, decide_true, Bool.true_and] using hbit

end Bytes

end Rerun
