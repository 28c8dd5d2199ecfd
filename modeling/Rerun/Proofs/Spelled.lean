import Rerun.Command.Code
import Rerun.Text.Hex

/-!
# The machine code that is read

Machine code is meant to be hexadecimal digits, two for each byte, in either case and with blanks
anywhere (`Spells`). Every such text is read, as the bytes that it spells. But each pair of
characters is read as a numeral, and a numeral may begin with a plus sign: a plus sign in front of
a pair counts as a zero, and apart from that nothing else is read (`readCode_eq_ok_iff_spells`).
-/

namespace Rerun

namespace Text

variable {a b c : Char} {n : Nat}

/-! ## Digits -/

theorem digit?_ofNat : ∀ m < 128, ∀ n < 16,
    digit? 16 (Char.ofNat m) = some n ↔ (Char.ofNat m).toLower = Nat.digitChar n := by
  decide +kernel

theorem toNat_digitChar_lt : ∀ n < 16, (Nat.digitChar n).toNat < 128 := by decide

theorem digit?_lt (h : digit? 16 c = some n) : n < 16 := by
  simpa using (Option.filter_eq_some_iff.1 h).2

/-- Beyond ASCII there are no digits and no letter has a second case. -/
theorem not_le_of_le_toNat (hc : 128 ≤ c.toNat) {last : Char} (hlast : last.toNat < 128) :
    ¬c ≤ last := fun hle => Nat.not_lt.2 (Nat.le_trans hc hle) hlast

theorem digit?_eq_none_of_le (hc : 128 ≤ c.toNat) : digit? 16 c = none := by
  have hnot {last : Char} (hlast : last.toNat < 128) := not_le_of_le_toNat hc hlast
  rw [digit?, digitValue?, if_neg fun h => hnot (by decide) h.2,
    if_neg fun h => hnot (by decide) h.2, if_neg fun h => hnot (by decide) h.2]
  rfl

theorem toLower_eq_self_of_le (hc : 128 ≤ c.toNat) : c.toLower = c :=
  dif_neg fun h => not_le_of_le_toNat hc (by decide) h.2

/-- The digits of the radix sixteen are told by their small letters. -/
theorem digit?_eq_some_iff : digit? 16 c = some n ↔ n < 16 ∧ c.toLower = Nat.digitChar n := by
  by_cases hn : n < 16
  · by_cases hc : c.toNat < 128
    · have h := digit?_ofNat c.toNat hc n hn
      rw [Char.ofNat_toNat] at h
      simp [h, hn]
    · have hle := Nat.not_lt.1 hc
      rw [digit?_eq_none_of_le hle, toLower_eq_self_of_le hle]
      simp only [reduceCtorEq, false_iff, not_and]
      rintro - rfl
      exact hc (toNat_digitChar_lt n hn)
  · exact iff_of_false (fun h => hn (digit?_lt h)) fun h => hn h.1

/-- Two digits are a number below 256. -/
theorem readDigits_pair_eq_ok_iff :
    readDigits 16 256 0 [a, b] = .ok n
      ↔ ∃ hi lo, digit? 16 a = some hi ∧ digit? 16 b = some lo ∧ n = hi * 16 + lo := by
  rcases ha : digit? 16 a with _ | hi
  · simp [readDigits, ha]
  have hhi := digit?_lt ha
  rcases hb : digit? 16 b with _ | lo
  · simp [readDigits, ha, hb, show hi < 256 by omega]
  have hlo := digit?_lt hb
  have hlt : hi * 16 + lo < 256 := by omega
  simp [readDigits, ha, hb, show hi < 256 by omega, hlt, eq_comm]

end Text

namespace Command

open Text

/-- A plus sign taken for a zero. -/
def zeroed (c : Char) : Char := if c = '+' then '0' else c

/-- The characters with a plus sign in front of a pair taken for a zero. -/
def plusAsZero : List Char → List Char
  | a :: b :: rest => zeroed a :: b :: plusAsZero rest
  | cs => cs

/-- The characters of a text that are no blanks. -/
def bare (text : String) : List Char := text.toList.filter fun c => !isBlank c

/-- The characters are the hexadecimal digits of the bytes, two for each, the high one first, in
either case. -/
def DigitsOf (cs : List Char) (bs : List Byte) : Prop := cs.map Char.toLower = Hex.pairs bs

/-- Apart from blanks, the text is the hexadecimal digits of the bytes. -/
def Spells (text : String) (bs : List Byte) : Prop := DigitsOf (bare text) bs

variable {a b : Char} {cs : List Char} {n : Nat} {text : String} {bs : List Byte}

theorem length_pairs (bs : List Byte) : (Hex.pairs bs).length = 2 * bs.length := by
  induction bs with
  | nil => rfl
  | cons x rest ih =>
    rw [Hex.pairs, List.flatMap_cons, List.length_append, ← Hex.pairs, ih, List.length_cons]
    simp only [Hex.pair, List.length_cons, List.length_nil]
    omega

theorem length_plusAsZero (cs : List Char) : (plusAsZero cs).length = cs.length := by
  fun_induction plusAsZero cs with
  | case1 a b rest ih => simp [ih]
  | case2 cs _ => rfl

theorem DigitsOf.length_eq (h : DigitsOf cs bs) : cs.length = 2 * bs.length := by
  rw [← length_pairs, ← h, List.length_map]

/-- A numeral of two characters may begin with a plus sign. -/
theorem readNumeral_pair (a b : Char) :
    readNumeral 16 256 [a, b] = readDigits 16 256 0 [zeroed a, b] := by
  by_cases ha : a = '+'
  · subst ha
    have hzero : digit? 16 '0' = some 0 := by decide
    simp [readNumeral, zeroed, readDigits, hzero]
  · simp [readNumeral, zeroed, ha]

theorem readNumeral_pair_eq_ok_iff :
    readNumeral 16 256 [a, b] = .ok n
      ↔ n < 256 ∧ [(zeroed a).toLower, b.toLower] = Hex.pair (BitVec.ofNat 8 n) := by
  rw [readNumeral_pair, readDigits_pair_eq_ok_iff]
  simp only [digit?_eq_some_iff, Hex.pair, BitVec.toNat_ofNat, List.cons.injEq, and_true]
  constructor
  · rintro ⟨hi, lo, ⟨hhi, ha⟩, ⟨hlo, hb⟩, rfl⟩
    rw [Nat.mod_eq_of_lt (by omega), show (hi * 16 + lo) / 16 = hi by omega,
      show (hi * 16 + lo) % 16 = lo by omega]
    exact ⟨by omega, ha, hb⟩
  · rintro ⟨hn, ha, hb⟩
    rw [Nat.mod_eq_of_lt (show n < 2 ^ 8 by omega)] at ha hb
    exact ⟨n / 16, n % 16, ⟨by omega, ha⟩, ⟨by omega, hb⟩, by omega⟩

theorem digitsOf_nil_iff : DigitsOf [] bs ↔ bs = [] := by
  rcases bs with _ | ⟨x, rest⟩ <;> simp [DigitsOf, Hex.pairs, Hex.pair]

theorem digitsOf_cons_iff : DigitsOf (a :: b :: cs) bs
    ↔ ∃ x rest, [a.toLower, b.toLower] = Hex.pair x ∧ DigitsOf cs rest ∧ bs = x :: rest := by
  constructor
  · intro h
    rcases bs with _ | ⟨x, rest⟩
    · cases h
    · have happend : [a.toLower, b.toLower] ++ cs.map Char.toLower
          = Hex.pair x ++ Hex.pairs rest := h
      obtain ⟨hpair, hrest⟩ := List.append_inj happend rfl
      exact ⟨x, rest, hpair, hrest, rfl⟩
  · rintro ⟨x, rest, hpair, hrest, rfl⟩
    show [a.toLower, b.toLower] ++ cs.map Char.toLower = Hex.pair x ++ Hex.pairs rest
    rw [hpair, hrest]

theorem readPairs_cons_eq_ok_iff : readPairs (a :: b :: cs) = .ok bs
    ↔ ∃ n rest, readNumeral 16 256 [a, b] = .ok n ∧ readPairs cs = .ok rest
      ∧ bs = BitVec.ofNat 8 n :: rest := by
  rw [readPairs]
  rcases readNumeral 16 256 [a, b] with e | n
  · simp [throw, throwThe, MonadExceptOf.throw]
  · rcases readPairs cs with e | rest <;> simp [bind, Except.bind, pure, Except.pure, eq_comm]

/-- Reading pairs gives the bytes whose digits they are, but for plus signs. -/
theorem readPairs_eq_ok_iff (hcs : cs.length % 2 = 0) :
    readPairs cs = .ok bs ↔ DigitsOf (plusAsZero cs) bs := by
  fun_induction plusAsZero cs generalizing bs with
  | case1 a b rest ih =>
    have hrest : rest.length % 2 = 0 := by
      simp only [List.length_cons] at hcs
      omega
    rw [readPairs_cons_eq_ok_iff, digitsOf_cons_iff]
    constructor
    · rintro ⟨n, bs, hn, hbs, rfl⟩
      exact ⟨_, bs, (readNumeral_pair_eq_ok_iff.1 hn).2, (ih hrest).1 hbs, rfl⟩
    · rintro ⟨x, bs, hx, hbs, rfl⟩
      refine ⟨x.toNat, bs, readNumeral_pair_eq_ok_iff.2 ⟨x.isLt, ?_⟩, (ih hrest).2 hbs, ?_⟩
      · rwa [BitVec.ofNat_toNat, BitVec.setWidth_eq]
      · rw [BitVec.ofNat_toNat, BitVec.setWidth_eq]
  | case2 cs hshort =>
    -- a single character is left out by the parity
    obtain rfl : cs = [] := by
      rcases cs with _ | ⟨a, _ | ⟨b, rest⟩⟩
      · rfl
      · cases hcs
      · exact absurd rfl (hshort a b rest)
    rw [digitsOf_nil_iff, readPairs]
    · simp [eq_comm]
    · nofun

theorem readCode_eq_ok_iff : readCode text = .ok bs ↔ DigitsOf (plusAsZero (bare text)) bs := by
  show (if (bare text).length % 2 = 0 then readPairs (bare text) else .error .oddDigits) = .ok bs ↔ _
  split
  · next heven => exact readPairs_eq_ok_iff heven
  · next hodd =>
    refine iff_of_false nofun fun h => hodd ?_
    have := h.length_eq
    rw [length_plusAsZero] at this
    omega

theorem plusAsZero_eq_self (h : '+' ∉ cs) : plusAsZero cs = cs := by
  fun_induction plusAsZero cs with
  | case1 a b rest ih =>
    simp only [List.mem_cons, not_or] at h
    rw [ih h.2.2, zeroed, if_neg (Ne.symm h.1)]
  | case2 cs _ => rfl

/-- A plus sign is no digit. -/
theorem DigitsOf.not_mem_plus (h : DigitsOf cs bs) : '+' ∉ cs := by
  intro hmem
  have hlow : '+' ∈ Hex.pairs bs := by
    rw [← h]
    exact List.mem_map.2 ⟨'+', hmem, by decide⟩
  obtain ⟨x, -, hx⟩ := List.mem_flatMap.1 hlow
  have hdigit : ∀ n < 16, '+' ≠ Nat.digitChar n := by decide
  have hlt := x.isLt
  simp only [Hex.pair, List.mem_cons, List.not_mem_nil, or_false] at hx
  exact hx.elim (hdigit _ (by omega)) (hdigit _ (by omega))

theorem mem_bare_plus : '+' ∈ bare text ↔ '+' ∈ text.toList := by
  simp [bare, show isBlank '+' = false by decide]

/-- A text is read as bytes exactly if it spells them once every plus sign in front of a pair is
taken for a zero, and any other text is refused. So every text that spells bytes is read as these,
and whatever else is read holds a plus sign. -/
theorem readCode_eq_ok_iff_spells (text : String) (bs : List Byte) :
    (readCode text = .ok bs ↔ DigitsOf (plusAsZero (bare text)) bs)
    ∧ ((∃ e, readCode text = .error e) ↔ ∀ bs, ¬DigitsOf (plusAsZero (bare text)) bs)
    ∧ ((readCode text = .ok bs ↔ Spells text bs)
      ↔ ¬(readCode text = .ok bs ∧ '+' ∈ text.toList)) := by
  refine ⟨readCode_eq_ok_iff, ?_, ?_⟩
  · rcases hread : readCode text with e | bs'
    · refine iff_of_true ⟨e, rfl⟩ fun bs h => ?_
      rw [← readCode_eq_ok_iff, hread] at h
      cases h
    · exact iff_of_false nofun fun h => h bs' (readCode_eq_ok_iff.1 hread)
  have hspells (h : Spells text bs) : readCode text = .ok bs ∧ '+' ∉ text.toList := by
    have hplus := h.not_mem_plus
    refine ⟨readCode_eq_ok_iff.2 ?_, mt mem_bare_plus.2 hplus⟩
    rwa [plusAsZero_eq_self hplus]
  constructor
  · rintro hiff ⟨hread, hplus⟩
    exact (hspells (hiff.1 hread)).2 hplus
  · intro hnot
    refine ⟨fun hread => ?_, fun h => (hspells h).1⟩
    have hplus : '+' ∉ bare text := fun h => hnot ⟨hread, mem_bare_plus.1 h⟩
    have hdigits := readCode_eq_ok_iff.1 hread
    rwa [plusAsZero_eq_self hplus] at hdigits

/-- A sign is no digit, but this text is read with `+1` for the byte one. -/
theorem signed_pair_read : readCode "48 +1 c8 c3" = .ok [0x48, 0x01, 0xc8, 0xc3]
    ∧ ∀ bs, ¬Spells "48 +1 c8 c3" bs := by
  have hread : readCode "48 +1 c8 c3" = .ok [0x48, 0x01, 0xc8, 0xc3] := by rfl
  have hplus : '+' ∈ bare "48 +1 c8 c3" := by decide
  exact ⟨hread, fun bs h => h.not_mem_plus hplus⟩

end Command

end Rerun
