import Mathlib.Algebra.Order.Floor.Div
import Mathlib.GroupTheory.GroupAction.Ring
import Mathlib.Logic.Function.Iterate
import Rerun.Proofs.Saved
import Rerun.SplitMix

/-!
# The stream of a generator

A generator stands for an endless stream of words, and so of bytes, eight to a word, the least
significant one first. A turn of filling gives what is missing of the first word's bytes
(`fill_of_ne_zero`), so filling takes the bytes from the start of the stream and uses up the words
they lie in (`fill_eq`), and after whole words it can be interrupted (`fill_add`). A random register
file is filled from one stream: the fields of the schema take the first words, whether they keep
them or not (`value_fillFields`), and the low ends of the vectors take the bytes behind these, one
vector after the other (`simd_fillVectors`). So all that stands in it has its place in the stream of
the seed, or is the zero that it started from (`drawn_random`).
-/

namespace Rerun

namespace SplitMix

/-- The generator after `n` words have been drawn. -/
def after (g : SplitMix) (n : Nat) : SplitMix := (fun g => g.next.2)^[n] g

/-- Word `i` of the stream, counted from zero. -/
def word (g : SplitMix) (i : Nat) : Word := (g.after i).next.1

/-- The first `n` words of the stream, and the generator behind them. -/
def words (g : SplitMix) : Nat → List Word × SplitMix
  | 0 => ([], g)
  | n + 1 =>
    let (w, g) := g.next
    let (ws, g) := g.words n
    (w :: ws, g)

/-- Byte `j` of the stream. -/
def byte (g : SplitMix) (j : Nat) : Byte := Bytes.nth (g.word (j / 8)) (j % 8)

variable (g : SplitMix)

theorem next_eq : g.next = (g.word 0, g.after 1) := rfl

theorem after_add (n m : Nat) : g.after (n + m) = (g.after n).after m := by
  rw [after, Nat.add_comm, Function.iterate_add_apply]
  rfl

theorem word_after (n i : Nat) : (g.after n).word i = g.word (n + i) := by
  rw [word, word, after_add]

/-- Behind whole words the bytes go on where the words end. -/
theorem byte_after (n j : Nat) : (g.after n).byte j = g.byte (8 * n + j) := by
  have hdiv : (8 * n + j) / 8 = n + j / 8 := by omega
  have hmod : (8 * n + j) % 8 = j % 8 := by omega
  rw [byte, byte, word_after, hdiv, hmod]

theorem words_eq (n : Nat) : g.words n = ((List.range n).map g.word, g.after n) := by
  induction n generalizing g with
  | zero => rfl
  | succ n ih =>
    have hword : g.word ∘ Nat.succ = (g.after 1).word := funext fun i => by
      rw [Function.comp_apply, word_after, Nat.add_comm]
    rw [List.range_succ_eq_map, List.map_cons, List.map_map, hword, Nat.add_comm n, after_add,
      Nat.add_comm, words, next_eq]
    dsimp only
    rw [ih]

/-! ## Filling -/

theorem low_word {n : Nat} (h : n ≤ 8) :
    Bytes.low (g.word 0) n = (List.range n).map g.byte := by
  refine List.map_congr_left fun j hj => ?_
  have hlt : j < 8 := Nat.lt_of_lt_of_le (List.mem_range.1 hj) h
  rw [byte, Nat.div_eq_of_lt hlt, Nat.mod_eq_of_lt hlt]

theorem fill_of_ne_zero {n : Nat} (h : n ≠ 0) : g.fill n
    = (Bytes.low (g.word 0) (min n 8) ++ ((g.after 1).fill (n - 8)).1,
      ((g.after 1).fill (n - 8)).2) := by
  rw [fill, if_neg h, next_eq]

/-- Filling reads the bytes of the stream in order, and uses up the words they lie in. -/
theorem fill_eq (n : Nat) : g.fill n = ((List.range n).map g.byte, g.after (n ⌈/⌉ 8)) := by
  induction n using Nat.strongRecOn generalizing g with
  | ind n ih =>
    by_cases hn : n = 0
    · subst hn
      rw [fill, if_pos rfl]
      rfl
    have hceil : n ⌈/⌉ 8 = 1 + (n - 8) ⌈/⌉ 8 := by
      rw [Nat.ceilDiv_eq_add_pred_div, Nat.ceilDiv_eq_add_pred_div]
      omega
    -- if any bytes are missing behind the first word, all eight of its own have been taken
    have hrest : (List.range (n - 8)).map (g.after 1).byte
        = (List.range (n - 8)).map (g.byte ∘ (min n 8 + ·)) := by
      refine List.map_congr_left fun j hj => ?_
      have hlt := List.mem_range.1 hj
      have height : min n 8 = 8 * 1 := by omega
      rw [Function.comp_apply, height, byte_after]
    have hsplit : List.range n
        = List.range (min n 8) ++ (List.range (n - 8)).map (min n 8 + ·) := by
      rw [← List.range_add]
      congr 1
      omega
    rw [fill_of_ne_zero g hn, ih (n - 8) (by omega), low_word g (Nat.min_le_right n 8), hceil,
      after_add, hrest, hsplit, List.map_append, List.map_map]

/-- After whole words, filling can be interrupted. -/
theorem fill_add {n : Nat} (h : 8 ∣ n) (m : Nat) :
    g.fill (n + m) = ((g.fill n).1 ++ ((g.fill n).2.fill m).1, ((g.fill n).2.fill m).2) := by
  obtain ⟨k, rfl⟩ := h
  have hwhole : 8 * k ⌈/⌉ 8 = k := by
    rw [Nat.ceilDiv_eq_add_pred_div]
    omega
  have hceil : (8 * k + m) ⌈/⌉ 8 = k + m ⌈/⌉ 8 := by
    rw [Nat.ceilDiv_eq_add_pred_div, Nat.ceilDiv_eq_add_pred_div]
    omega
  have hbyte : (g.after k).byte = g.byte ∘ (8 * k + ·) := funext fun j => g.byte_after k j
  simp only [fill_eq, hwhole, hceil, after_add, hbyte, List.range_add, List.map_append,
    List.map_map]

/-! ## The fields of a schema -/

variable (file : RegisterFile) {fields : List Field}

theorem fillFields_cons (f : Field) : g.fillFields file (f :: fields)
    = (g.after 1).fillFields (file.setWord f.slot (g.word 0)) fields := by
  conv_lhs => unfold fillFields
  rw [next_eq]

theorem fillFields_snd : (g.fillFields file fields).2 = g.after fields.length := by
  induction fields generalizing g file with
  | nil => rfl
  | cons f fields ih =>
    rw [fillFields_cons, ih, ← after_add, List.length_cons, Nat.add_comm]

/-- A vector does not keep the word of its field. -/
theorem simd_fillFields : (g.fillFields file fields).1.simd = file.simd := by
  induction fields generalizing g file with
  | nil => rfl
  | cons f fields ih =>
    rw [fillFields_cons, ih, RegisterFile.simd_setWord]

theorem value_fillFields_of_forall_ne {slot : Slot} (h : ∀ f ∈ fields, f.slot ≠ slot)
    (width : Nat) : (g.fillFields file fields).1.value slot width = file.value slot width := by
  induction fields generalizing g file with
  | nil => rfl
  | cons f fields ih =>
    obtain ⟨hf, hrest⟩ := List.forall_mem_cons.1 h
    rw [fillFields_cons, ih _ _ hrest, RegisterFile.value_setWord_of_ne (Ne.symm hf)]

/-- A field that takes a word gets the one of its own number: fields before it use theirs up even
if they do not take them, and those behind it are about other slots. -/
theorem value_fillFields (hnodup : (fields.map (·.slot)).Nodup) {i : Nat} {f : Field}
    (hf : fields[i]? = some f) (hword : ∀ v, f.slot ≠ .simd v) (width : Nat) :
    (g.fillFields file fields).1.value f.slot width = .word (g.word i) := by
  induction fields generalizing g file i with
  | nil => cases hf
  | cons f' fields ih =>
    obtain ⟨hnot, hnodup'⟩ := List.nodup_cons.1 hnodup
    rw [fillFields_cons]
    cases i with
    | zero =>
      obtain rfl := Option.some.inj hf
      have hne : ∀ f ∈ fields, f.slot ≠ f'.slot := fun f hf heq =>
        hnot (List.mem_map.2 ⟨f, hf, heq⟩)
      rw [value_fillFields_of_forall_ne _ _ hne, RegisterFile.value_setWord_self hword]
    | succ i => rw [ih _ _ hnodup' hf, word_after, Nat.add_comm]

/-! ## The vectors -/

variable {vs : List (Fin 32)} (width : Nat)

theorem fillVectors_cons (v : Fin 32) : g.fillVectors width file (v :: vs)
    = (g.after (width ⌈/⌉ 8)).fillVectors width
        (file.setSimd v (Bytes.setLow (file.simd.get v) ((List.range width).map g.byte))) vs := by
  rw [fillVectors, fill_eq]

theorem value_fillVectors {slot : Slot} (h : ∀ v, slot ≠ .simd v) (width' : Nat) :
    (g.fillVectors width file vs).1.value slot width' = file.value slot width' := by
  induction vs generalizing g file with
  | nil => rfl
  | cons v vs ih => rw [fillVectors_cons, ih, RegisterFile.value_setSimd_of_ne (h v)]

theorem simd_fillVectors_of_not_mem {v : Fin 32} (h : v ∉ vs) :
    (g.fillVectors width file vs).1.simd.get v = file.simd.get v := by
  induction vs generalizing g file with
  | nil => rfl
  | cons v' vs ih =>
    obtain ⟨hne, hrest⟩ := not_or.1 (mt List.mem_cons.2 h)
    rw [fillVectors_cons, ih _ _ hrest, RegisterFile.simd_setSimd, if_neg hne]

/-- Each vector gets the bytes behind the words of the ones before it, in place of its low ones. -/
theorem simd_fillVectors (hnodup : vs.Nodup) {k : Nat} {v : Fin 32} (hv : vs[k]? = some v) :
    (g.fillVectors width file vs).1.simd.get v
      = Bytes.setLow (file.simd.get v)
          ((List.range width).map (g.after (k * (width ⌈/⌉ 8))).byte) := by
  induction vs generalizing g file k with
  | nil => cases hv
  | cons v' vs ih =>
    obtain ⟨hnot, hnodup'⟩ := List.nodup_cons.1 hnodup
    rw [fillVectors_cons]
    cases k with
    | zero =>
      obtain rfl := Option.some.inj hv
      rw [simd_fillVectors_of_not_mem _ _ _ hnot, RegisterFile.simd_setSimd, if_pos rfl,
        Nat.zero_mul]
      rfl
    | succ k =>
      have hne : v ≠ v' := fun heq => hnot (heq ▸ List.mem_of_getElem? hv)
      rw [ih _ _ hnodup' hv, RegisterFile.simd_setSimd, if_neg hne, ← after_add, Nat.succ_mul,
        Nat.add_comm]

/-- Above the width, no vector changes. -/
theorem nth_fillVectors_of_le (v : Fin 32) {b : Nat} (h : width ≤ b) (hb : b < 64) :
    Bytes.nth ((g.fillVectors width file vs).1.simd.get v) b = Bytes.nth (file.simd.get v) b := by
  induction vs generalizing g file with
  | nil => rfl
  | cons v' vs ih =>
    rw [fillVectors_cons, ih, RegisterFile.simd_setSimd]
    split
    · next heq =>
      rw [heq, Bytes.nth_setLow _ _ (by omega), List.getElem?_eq_none (by simpa using h)]
      rfl
    · rfl

end SplitMix

namespace Arch

theorem vectorBytes_le (arch : Arch) : arch.vectorBytes ≤ 64 := by
  cases arch <;> decide

/-- No word is cut short by the end of a vector. -/
theorem eight_mul_ceilDiv (arch : Arch) : 8 * (arch.vectorBytes ⌈/⌉ 8) = arch.vectorBytes := by
  cases arch <;> rfl

theorem exists_simd_field (arch : Arch) : ∀ v, ∃ f ∈ arch.schema, f.slot = .simd v := by
  cases arch <;> decide +kernel

end Arch

namespace RegisterFile

/-- A register file holds what `g` gives for an architecture: in each field that takes a word the
one of its number, in the vectors the bytes behind the words of all fields, and zeros elsewhere. -/
structure Drawn (file : RegisterFile) (arch : Arch) (g : SplitMix) : Prop where
  words : ∀ i f, arch.schema[i]? = some f → (∀ v, f.slot ≠ .simd v) →
    file.value f.slot arch.vectorBytes = .word (g.word i)
  vectors : ∀ v : Fin 32, ∀ b < arch.vectorBytes, Bytes.nth (file.simd.get v) b
    = (g.after arch.schema.length).byte (arch.vectorBytes * v + b)
  above : ∀ v : Fin 32, ∀ b, arch.vectorBytes ≤ b → b < 64 → Bytes.nth (file.simd.get v) b = 0
  rest : ∀ slot, (∀ f ∈ arch.schema, f.slot ≠ slot) → ∀ width, file.value slot width = .word 0

variable (arch : Arch) (seed : Word)

theorem random_eq : random arch seed
    = (((⟨seed⟩ : SplitMix).after arch.schema.length).fillVectors arch.vectorBytes
        ((⟨seed⟩ : SplitMix).fillFields zero arch.schema).1 (List.finRange 32)).1 := by
  rw [← SplitMix.fillFields_snd ⟨seed⟩ zero]
  rfl

theorem simd_random (v : Fin 32) : (random arch seed).simd.get v
    = Bytes.setLow (zero.simd.get v) ((List.range arch.vectorBytes).map fun b =>
        ((⟨seed⟩ : SplitMix).after arch.schema.length).byte (arch.vectorBytes * v + b)) := by
  have hget : (List.finRange 32)[v.val]? = some v := by
    rw [List.getElem?_eq_getElem (by simp), List.getElem_finRange]
    rfl
  have hstart : 8 * (v * (arch.vectorBytes ⌈/⌉ 8)) = arch.vectorBytes * v := by
    rw [Nat.mul_left_comm, arch.eight_mul_ceilDiv, Nat.mul_comm]
  rw [random_eq, SplitMix.simd_fillVectors _ _ _ (List.nodup_finRange 32) hget,
    SplitMix.simd_fillFields]
  refine congrArg _ (List.map_congr_left fun b _ => ?_)
  rw [SplitMix.byte_after, hstart]

theorem value_random {i : Nat} {f : Field} (hf : arch.schema[i]? = some f)
    (hword : ∀ v, f.slot ≠ .simd v) (width : Nat) :
    (random arch seed).value f.slot width = .word ((⟨seed⟩ : SplitMix).word i) := by
  rw [random_eq, SplitMix.value_fillVectors _ _ _ hword,
    SplitMix.value_fillFields _ _ arch.nodup_slots hf hword]

theorem value_random_of_forall_ne {slot : Slot} (h : ∀ f ∈ arch.schema, f.slot ≠ slot)
    (width : Nat) : (random arch seed).value slot width = .word 0 := by
  have hword : ∀ v, slot ≠ .simd v := by
    rintro v rfl
    obtain ⟨f, hf, hslot⟩ := arch.exists_simd_field v
    exact h f hf hslot
  rw [random_eq, SplitMix.value_fillVectors _ _ _ hword,
    SplitMix.value_fillFields_of_forall_ne _ _ h, value_zero hword]

theorem drawn_random : (random arch seed).Drawn arch ⟨seed⟩ where
  words _ _ hf hword := value_random arch seed hf hword _
  vectors v b hb := by
    have hle := arch.vectorBytes_le
    rw [simd_random, Bytes.nth_setLow _ _ (by omega), List.getElem?_map, List.getElem?_range hb]
    rfl
  above v b hb hlt := by
    rw [random_eq, SplitMix.nth_fillVectors_of_le _ _ _ v hb hlt, SplitMix.simd_fillFields,
      simd_zero]
    exact BitVec.extractLsb'_zero
  rest _ h width := value_random_of_forall_ne arch seed h width

end RegisterFile

namespace SplitMix

/-- A generator fills with the bytes of one stream: byte by byte with those of its words in turn, up
to a last word that is cut short, so that filling can be interrupted after whole words. Every field
uses a word up, a vector without keeping it; filling the vectors leaves their upper bytes as they
were. A random register file is drawn from the stream of its seed. -/
theorem fills_from_stream :
    (∀ (g : SplitMix) (n : Nat), g.fill n
      = ((List.range n).map fun j => Bytes.nth (g.word (j / 8)) (j % 8), g.after (n ⌈/⌉ 8)))
    ∧ (∀ (g : SplitMix) (n m : Nat), 8 ∣ n →
      g.fill (n + m) = ((g.fill n).1 ++ ((g.fill n).2.fill m).1, ((g.fill n).2.fill m).2))
    ∧ (∀ (g : SplitMix) (file : RegisterFile) (fields : List Field),
      (g.fillFields file fields).1.simd = file.simd
        ∧ (g.fillFields file fields).2 = g.after fields.length)
    ∧ (∀ (g : SplitMix) (file : RegisterFile) (width : Nat) (vs : List (Fin 32)) (v : Fin 32)
      (b : Nat), width ≤ b → b < 64 → Bytes.nth ((g.fillVectors width file vs).1.simd.get v) b
        = Bytes.nth (file.simd.get v) b)
    ∧ ∀ arch seed, (RegisterFile.random arch seed).Drawn arch ⟨seed⟩ := by
  refine ⟨fun g n => g.fill_eq n, fun g _ m h => g.fill_add h m, fun g file fields => ?_,
    fun g file width vs v b h hb => g.nth_fillVectors_of_le file width v h hb,
    RegisterFile.drawn_random⟩
  exact ⟨g.simd_fillFields file, g.fillFields_snd file⟩

/-- Three bytes more after sixteen; and on AArch64 the link register, whose word is number 30, the
last vector, and what no seed reaches: the upper bytes of a vector and the masks. A vector that held
something before keeps it there. -/
theorem fills_from_stream_resumed :
    let g : SplitMix := ⟨7⟩
    let file := RegisterFile.random .arm64 7
    let full := RegisterFile.zero.setSimd 5 (BitVec.allOnes 512)
    8 ∣ 16 ∧ g.fill (16 + 3) = ((g.fill 16).1 ++ [0x02, 0x2a, 0xb1], ⟨0xdaa66d2c7ddf7446⟩)
      ∧ file.value (.gpr 30) 16 = .word 0xf89c5aca8c448a78
      ∧ Bytes.nth (file.simd.get 31) 2 = 0xb0 ∧ Bytes.nth (file.simd.get 31) 16 = 0
      ∧ file.value (.extra 3) 64 = .word 0
      ∧ Bytes.nth ((g.fillVectors 16 full [5]).1.simd.get 5) 16 = 0xff := by
  intro g file full
  obtain ⟨hfill, hresumed, -, habove, hrandom⟩ := fills_from_stream
  have hdrawn : file.Drawn .arm64 g := hrandom .arm64 7
  refine ⟨by decide, ?_, ?_, ?_, hdrawn.above 31 16 (by decide) (by decide), ?_, ?_⟩
  · have hrest : (g.fill 16).2.fill 3 = ([0x02, 0x2a, 0xb1], ⟨0xdaa66d2c7ddf7446⟩) := by
      rw [hfill g 16, hfill _ 3]
      decide +kernel
    rw [hresumed g 16 3 (by decide), hrest]
  · have hword : g.word 30 = 0xf89c5aca8c448a78 := by decide +kernel
    rw [← hword]
    exact hdrawn.words 30 ⟨"lr", .gpr 30⟩ (by decide +kernel) (by simp)
  · rw [hdrawn.vectors 31 2 (by decide)]
    decide +kernel
  · exact hdrawn.rest (.extra 3) (by decide +kernel) 64
  · rw [habove g full 16 [5] 5 16 (by decide) (by decide), RegisterFile.simd_setSimd]
    decide +kernel

end SplitMix

end Rerun
