import Rerun.Proofs.Integers
import Rerun.Proofs.Masks
import Rerun.Proofs.Overlaps
import Rerun.Proofs.Settled

/-!
# The interpreter behind guards

A machine that knows registers by their numbers and has whole words only can fail where the rules of
the interpreter cannot: at a number beyond a table, at a shift by the length of a word, at a
difference below zero or a product above a word. Here the interpreter is written for such a machine,
with a guard at each of these places. It does what the interpreter does, so no guard ever stops it
(`Guarded.step_eq`). And what an instruction leads to is written in the instruction: it is the same
from every register file, and unless it lets control go on, the registers stay as they are
(`Instruction.step_foreseen`).
-/

namespace Rerun.X64

/-- Why a guard stops an instruction. -/
inductive Breach
  /-- A place was named by a number beyond the last one. -/
  | index (length index : Nat)
  /-- A word was to be shifted by its length or more. -/
  | shift (amount : Nat)
  /-- A difference is below zero, or a product above every word. -/
  | range
deriving DecidableEq, Repr

/-- A computation on the register file that may be refused, or stopped by a guard. -/
abbrev Guarded := EStateM (Breach ⊕ EmulationError) RegisterFile

/-- A computation that meets no guard. -/
def Emulation.free {α : Type} (x : Emulation α) : Guarded α := x.adaptExcept .inr

/-- How many bytes a general register has. -/
def Width.bytes : Width → Nat
  | byte => 1
  | word => 2
  | dword => 4
  | qword => 8

/-- How many bytes a register has. Of the registers that are known by name only, `named` tells. -/
def Register.bytes (named : String → BitVec 16) : Register → Nat
  | none => 0
  | gpr r => r.width.bytes
  | mask _ => 8
  | vector w _ => w.bytes
  | other name => (named name).toNat

namespace Guarded

/-! ## Guards -/

/-- Place `k` of a table. -/
def place (length k : Nat) : Guarded (Fin length) :=
  if h : k < length then pure ⟨k, h⟩ else throw (.inl (.index length k))

def shiftLeft (w : Word) (n : Nat) : Guarded Word :=
  if n < 64 then pure (w <<< n) else throw (.inl (.shift n))

def shiftRight (w : Word) (n : Nat) : Guarded Word :=
  if n < 64 then pure (w >>> n) else throw (.inl (.shift n))

def difference (a b : Nat) : Guarded Nat :=
  if b ≤ a then pure (a - b) else throw (.inl .range)

def product (a b : Nat) : Guarded Nat :=
  if a * b < Word.count then pure (a * b) else throw (.inl .range)

/-- A word with ones in its low `bits` bits. -/
def ones (bits : Nat) : Guarded Word :=
  if 64 ≤ bits then pure (BitVec.allOnes 64)
  else do
    let power ← shiftLeft 1 bits
    return BitVec.ofNat 64 (← difference power.toNat 1)

/-- A word with a one in the highest of its low `bits` bits. -/
def top (bits : Nat) : Guarded Word := do
  shiftLeft 1 (← difference bits 1)

/-! ## Registers -/

/-- The content of the 64-bit register of a number. -/
def content (number : Nat) : Guarded Word :=
  if number = Gpr.stackPointer.val then return (← get).sp
  else do
    let k ← place 32 number
    return (← get).gpr.get k

/-- Replaces the content of the 64-bit register of a number. -/
def setContent (number : Nat) (w : Word) : Guarded Unit :=
  if number = Gpr.stackPointer.val then modify (·.setWord .sp w)
  else do
    let k ← place 32 number
    modify (·.setWord (.gpr k) w)

def readGpr (r : Gpr) : Guarded Word := do
  let all ← content r.number
  let mask ← ones (← product r.width.bytes 8)
  return (← shiftRight all r.shift) &&& mask

def writeGpr (r : Gpr) (w : Word) : Guarded Unit :=
  match r.width with
  | .qword => setContent r.number w
  | .dword => do
    let mask ← ones (← product r.width.bytes 8)
    setContent r.number (w &&& mask)
  | _ => do
    let mask ← shiftLeft (← ones (← product r.width.bytes 8)) r.shift
    let new ← shiftLeft w r.shift
    let old ← content r.number
    setContent r.number ((old &&& ~~~mask) ||| (new &&& mask))

def read : Register → Guarded Word
  | .gpr r => readGpr r
  | .mask n => do
    let k ← place 8 n.val
    return (← get).extra.get k
  | r => throw (.inr (.register r))

def write (r : Register) (w : Word) : Guarded Unit :=
  match r with
  | .gpr r => writeGpr r w
  | .mask n => do
    let k ← place 8 n.val
    modify (·.setWord (.extra k) w)
  | r => throw (.inr (.register r))

/-- The value of operand `n`: a register's content or an immediate. -/
def operand (i : Instruction) (n : Nat) : Guarded Word :=
  match i.operand n with
  | .register r => read r
  | .immediate _ value => pure value
  | o => throw (.inr (.operand i.mnemonic n o.kind))

def readPart : Option Register → Guarded Word
  | none => pure 0
  | some r => read r

/-! ## Operations -/

/-- An operation on whole words at a number of bits, with the flags of its result. -/
abbrev Operation := Nat → Word → Word → Guarded (Word × Flags)

def addition : Operation := fun bits a b => do
  return maskedAddition (← ones bits) (← top bits) a b

def subtraction : Operation := fun bits a b => do
  return maskedSubtraction (← ones bits) (← top bits) a b

/-- A bitwise operation: only the flags need the mask. -/
def bitwise (op : Word → Word → Word) : Operation := fun bits a b => do
  let mask ← ones bits
  return (op a b, Flags.ofMasked (op a b &&& mask) mask (← top bits))

def move (i : Instruction) : Guarded Unit := do
  let dst ← (Emulation.register i 0).free
  let v ← operand i 1
  write dst v

variable (named : String → BitVec 16)

def binary (i : Instruction) (keeps : Bool) (op : Operation) : Guarded Unit := do
  let dst ← (Emulation.register i 0).free
  let bits ← product (dst.bytes named) 8
  let a ← read dst
  let b ← operand i 1
  let (r, f) ← op bits a b
  modify (·.updateFlags f Flags.arithmetic)
  if keeps then write dst r

def unary (i : Instruction) (affected : Word) (op : Nat → Word → Guarded (Word × Flags)) :
    Guarded Unit := do
  let dst ← (Emulation.register i 0).free
  let bits ← product (dst.bytes named) 8
  let a ← read dst
  let (r, f) ← op bits a
  modify (·.updateFlags f affected)
  write dst r

/-- Turns over all bits, and leaves the flags alone. -/
def invert (i : Instruction) : Guarded Unit := do
  let dst ← (Emulation.register i 0).free
  let _ ← product (dst.bytes named) 8
  let a ← read dst
  write dst (~~~a)

def loadAddress (i : Instruction) : Guarded Unit := do
  let dst ← (Emulation.register i 0).free
  match i.operand 1 with
  | .memory a =>
    if a.ipRelative then throw (.inr (.operand i.mnemonic 1 (Operand.memory a).kind))
    let base ← readPart a.base
    let index ← readPart a.index
    write dst (base + index * a.scale + a.displacement)
  | o => throw (.inr (.operand i.mnemonic 1 o.kind))

def exchange (i : Instruction) : Guarded Unit := do
  let a ← (Emulation.register i 0).free
  let b ← (Emulation.register i 1).free
  let va ← read a
  let vb ← read b
  write a vb
  write b va

def vector (i : Instruction) (op : BitVec 128 → BitVec 128 → BitVec 128) : Guarded Unit := do
  let dst ← (Emulation.lane i 0).free
  let src ← (Emulation.lane i 1).free
  let s ← place 32 src.val
  let d ← place 32 dst.val
  modify fun file => file.setSimd d ((file.simd.get d).extractLsb' 128 384
    ++ op ((file.simd.get d).setWidth 128) ((file.simd.get s).setWidth 128))

def compute (i : Instruction) : Guarded Unit :=
  match i.mnemonic with
  | .nop => pure ()
  | .mov | .kmovq => move i
  | .add => binary named i true addition
  | .sub => binary named i true subtraction
  | .cmp => binary named i false subtraction
  | .and => binary named i true (bitwise (· &&& ·))
  | .or => binary named i true (bitwise (· ||| ·))
  | .xor => binary named i true (bitwise (· ^^^ ·))
  | .test => binary named i false (bitwise (· &&& ·))
  | .inc => unary named i (Flags.arithmetic &&& ~~~Flags.carryBit) fun bits a => addition bits a 1
  | .dec =>
    unary named i (Flags.arithmetic &&& ~~~Flags.carryBit) fun bits a => subtraction bits a 1
  | .neg => unary named i Flags.arithmetic fun bits a => subtraction bits 0 a
  | .not => invert named i
  | .lea => loadAddress i
  | .xchg => exchange i
  | .movdqa | .movdqu | .movaps | .movups => vector i fun _ s => s
  | .pxor | .xorps => vector i fun d s => d ^^^ s
  | .paddq => vector i addQuads
  | .pcmpeqd => vector i equalDoubles
  | m => throw (.inr (.instruction m))

/-- Runs one instruction. -/
def step (i : Instruction) : Guarded Step :=
  match i.flow with
  | .next => do
    compute named i
    pure .proceed
  | .ret => pure (.leave .ret)
  | .unconditionalBranch | .conditionalBranch | .call => pure (.leave (.branch i.target))
  | .indirectBranch | .indirectCall => pure (.leave (.branch none))
  | .interrupt | .transaction | .exception => throw (.inr (.instruction i.mnemonic))

/-! ## The guards hold -/

theorem place_of_lt {length k : Nat} (h : k < length) : place length k = pure ⟨k, h⟩ := dif_pos h

theorem shiftLeft_shift (r : Gpr) (w : Word) : shiftLeft w r.shift = pure (w <<< r.shift) := by
  cases r <;> rfl

theorem shiftRight_shift (r : Gpr) (w : Word) : shiftRight w r.shift = pure (w >>> r.shift) := by
  cases r <;> rfl

theorem product_bytes (w : Width) : product w.bytes 8 = pure w.bits := by
  cases w <;> rfl

theorem ones_bits (w : Width) : ones w.bits = pure w.mask := by
  cases w <;> rfl

theorem top_bits (w : Width) : top w.bits = pure w.top := by
  cases w <;> rfl

theorem product_register (r : Register) :
    product (r.bytes named) 8 = pure (r.bytes named * 8) := by
  have hle : r.bytes named ≤ 2 ^ 16 := by
    cases r with
    | gpr g => cases h : g.width <;> simp [Register.bytes, Width.bytes, h]
    | vector w _ => cases w <;> simp [Register.bytes, VectorWidth.bytes]
    | other name => exact Nat.le_of_lt (named name).isLt
    | _ => simp [Register.bytes]
  have hcount : Word.count = 2 ^ 64 := rfl
  exact if_pos (by omega)

/-! ## Without guards -/

variable {α β : Type}

theorem free_bind (x : Emulation α) (f : α → Emulation β) :
    (x >>= f).free = x.free >>= fun a => (f a).free := by
  funext file
  simp only [Emulation.free, EStateM.adaptExcept, bind, EStateM.bind]
  cases x file <;> rfl

theorem run_content (n : Fin 16) (file : RegisterFile) :
    (content n).run file = .ok (file.full n) file := by
  unfold content RegisterFile.full
  by_cases hn : n = Gpr.stackPointer
  · rw [if_pos (congrArg Fin.val hn), if_pos hn]
    rfl
  · rw [if_neg fun h => hn (Fin.ext h), if_neg hn,
      place_of_lt (Nat.lt_of_lt_of_le n.isLt (by decide)), pure_bind]
    rfl

theorem run_setContent (n : Fin 16) (w : Word) (file : RegisterFile) :
    (setContent n w).run file = .ok () (file.setFull n w) := by
  unfold setContent RegisterFile.setFull
  by_cases hn : n = Gpr.stackPointer
  · rw [if_pos (congrArg Fin.val hn), if_pos hn]
    rfl
  · rw [if_neg fun h => hn (Fin.ext h), if_neg hn,
      place_of_lt (Nat.lt_of_lt_of_le n.isLt (by decide)), pure_bind]
    rfl

theorem readGpr_eq (r : Gpr) : readGpr r = (Emulation.read (.gpr r)).free := by
  funext file
  show (readGpr r).run file = .ok (file.readGpr r) file
  simp only [readGpr, product_bytes, ones_bits, shiftRight_shift, pure_bind]
  rw [EStateM.run_bind, run_content]
  rfl

theorem writeGpr_eq (r : Gpr) (w : Word) : writeGpr r w = (Emulation.write (.gpr r) w).free := by
  funext file
  show (writeGpr r w).run file = .ok () (file.writeGpr r w)
  unfold writeGpr RegisterFile.writeGpr
  cases h : r.width with
  | qword => exact run_setContent r.number w file
  | dword =>
    simp only [product_bytes, ones_bits, pure_bind]
    exact run_setContent r.number _ file
  | _ =>
    simp only [product_bytes, ones_bits, shiftLeft_shift, pure_bind]
    rw [EStateM.run_bind, run_content]
    exact run_setContent r.number _ file

theorem read_eq (r : Register) : read r = (Emulation.read r).free := by
  cases r with
  | gpr r => exact readGpr_eq r
  | mask n =>
    simp only [read, place_of_lt n.isLt, pure_bind]
    rfl
  | _ => rfl

theorem write_eq (r : Register) (w : Word) : write r w = (Emulation.write r w).free := by
  cases r with
  | gpr r => exact writeGpr_eq r w
  | mask n =>
    simp only [write, place_of_lt n.isLt, pure_bind]
    rfl
  | _ => rfl

theorem operand_eq (i : Instruction) (n : Nat) : operand i n = (Emulation.operand i n).free := by
  unfold operand Emulation.operand
  cases i.operand n with
  | register r => exact read_eq r
  | _ => rfl

theorem readPart_eq (p : Option Register) : readPart p = (Emulation.readPart p).free := by
  cases p with
  | none => rfl
  | some r => exact read_eq r

/-! ## Operations do what they do -/

theorem move_eq (i : Instruction) : move i = (Emulation.move i).free := by
  simp only [move, Emulation.move, free_bind, operand_eq, write_eq]

theorem exchange_eq (i : Instruction) : exchange i = (Emulation.exchange i).free := by
  simp only [exchange, Emulation.exchange, free_bind, read_eq, write_eq]

theorem loadAddress_eq (i : Instruction) : loadAddress i = (Emulation.loadAddress i).free := by
  unfold loadAddress Emulation.loadAddress
  rw [free_bind]
  congr 1
  funext dst
  cases i.operand 1 with
  | memory a =>
    by_cases hip : a.ipRelative
    · simp only [hip, ↓reduceIte]
      rfl
    · simp only [hip, Bool.false_eq_true, ↓reduceIte, free_bind, readPart_eq, write_eq]
  | _ => rfl

theorem vector_eq (i : Instruction) (op : BitVec 128 → BitVec 128 → BitVec 128) :
    vector i op = (Emulation.vector i op).free := by
  simp only [vector, Emulation.vector, free_bind, place_of_lt (Fin.isLt _), pure_bind]
  rfl

/-- On whole words `wide` does what `op` does at each width, as far as the bits of that width go. -/
def Widens (wide : Operation) (op : {w : Nat} → BitVec w → BitVec w → BitVec w × Flags) : Prop :=
  ∀ (w : Width) (a b : Word), ∃ r,
    wide w.bits a b = pure (r, (op (a.setWidth w.bits) (b.setWidth w.bits)).2)
      ∧ r.setWidth w.bits = (op (a.setWidth w.bits) (b.setWidth w.bits)).1

/-- The same of an operation on one word. -/
def WidensOne (wide : Nat → Word → Guarded (Word × Flags))
    (op : {w : Nat} → BitVec w → BitVec w × Flags) : Prop :=
  ∀ (w : Width) (a : Word), ∃ r,
    wide w.bits a = pure (r, (op (a.setWidth w.bits)).2)
      ∧ r.setWidth w.bits = (op (a.setWidth w.bits)).1

section

variable {wide : Operation} {op : {w : Nat} → BitVec w → BitVec w → BitVec w × Flags}

theorem Widens.right (h : Widens wide op) {c : Word} (c' : {w : Nat} → BitVec w)
    (hc : ∀ w : Width, c.setWidth w.bits = c') :
    WidensOne (fun bits a => wide bits a c) fun a => op a c' := fun w a => by
  have hop := h w a c
  rwa [hc w] at hop

theorem Widens.left (h : Widens wide op) {c : Word} (c' : {w : Nat} → BitVec w)
    (hc : ∀ w : Width, c.setWidth w.bits = c') :
    WidensOne (fun bits a => wide bits c a) fun a => op c' a := fun w a => by
  have hop := h w c a
  rwa [hc w] at hop

end

theorem addition_widens : Widens addition fun a b => X64.addition a b := fun w a b =>
  ⟨_, by simp only [addition, ones_bits, top_bits, pure_bind, maskedAddition_eq],
    w.setWidth_setWidth _⟩

theorem subtraction_widens : Widens subtraction fun a b => X64.subtraction a b := fun w a b =>
  ⟨_, by simp only [subtraction, ones_bits, top_bits, pure_bind, maskedSubtraction_eq],
    w.setWidth_setWidth _⟩

theorem bitwise_widens {op : Word → Word → Word} {op' : {w : Nat} → BitVec w → BitVec w → BitVec w}
    (hop : ∀ (w : Width) (a b : Word),
      (op a b).setWidth w.bits = op' (a.setWidth w.bits) (b.setWidth w.bits)) :
    Widens (bitwise op) fun a b => X64.bitwise (op' a b) := fun w a b =>
  ⟨_, by simp only [bitwise, ones_bits, top_bits, pure_bind, ofMasked_and, hop], hop w a b⟩

/-- A register is as long as the operations on it are wide, or it is not read at all. -/
theorem width_or_refuses (r : Register) :
    (∃ w : Width, r.bits = w.bits ∧ r.bytes named * 8 = w.bits)
      ∨ ∃ e, Emulation.read r = throw e := by
  cases r with
  | gpr g =>
    refine .inl ⟨g.width, rfl, ?_⟩
    show g.width.bytes * 8 = g.width.bits
    cases g.width <;> rfl
  | mask n => exact .inl ⟨.qword, rfl, rfl⟩
  | _ => exact .inr ⟨_, rfl⟩

/-- A write looks at no more bits than the register has. -/
theorem write_congr {r : Register} {v w : Word} (h : v.setWidth r.bits = w.setWidth r.bits) :
    Emulation.write r v = Emulation.write r w := by
  cases r with
  | gpr g =>
    have hwrite : ∀ file : RegisterFile, file.writeGpr g v = file.writeGpr g w :=
      fun file => (file.writeGpr_eq_iff g).2 h
    simp only [Emulation.write, hwrite]
  | mask n =>
    simp only [Register.bits, BitVec.setWidth_eq] at h
    rw [h]
  | _ => rfl

/-- So the bits of its width are all of a result that it takes. -/
theorem write_cut {r : Register} {w : Width} (hbits : r.bits = w.bits) {v : Word}
    {x : BitVec w.bits} (hcut : v.setWidth w.bits = x) :
    Emulation.write r v = Emulation.write r (x.setWidth 64) :=
  write_congr (by rw [hbits, w.setWidth_setWidth, hcut])

theorem binary_eq {wide : Operation} {op : {w : Nat} → BitVec w → BitVec w → BitVec w × Flags}
    (hop : Widens wide op) (i : Instruction) (keeps : Bool) :
    binary named i keeps wide = (Emulation.binary i keeps op).free := by
  simp only [binary, Emulation.binary, free_bind, product_register, read_eq, operand_eq, write_eq,
    pure_bind]
  congr 1
  funext dst
  rcases width_or_refuses named dst with ⟨w, hbits, hbytes⟩ | ⟨e, he⟩
  · congr 1
    funext a
    congr 1
    funext b
    obtain ⟨r, hr, hcut⟩ := hop w a b
    rw [hbytes, hr, pure_bind, write_cut hbits hcut, hbits]
    cases keeps <;> rfl
  · -- without a width there is no highest bit, but the read is refused before one is asked for
    rw [he]
    rfl

theorem unary_eq {wide : Nat → Word → Guarded (Word × Flags)}
    {op : {w : Nat} → BitVec w → BitVec w × Flags} (hop : WidensOne wide op) (i : Instruction)
    (affected : Word) : unary named i affected wide = (Emulation.unary i affected op).free := by
  simp only [unary, Emulation.unary, free_bind, product_register, read_eq, write_eq, pure_bind]
  congr 1
  funext dst
  rcases width_or_refuses named dst with ⟨w, hbits, hbytes⟩ | ⟨e, he⟩
  · congr 1
    funext a
    obtain ⟨r, hr, hcut⟩ := hop w a
    rw [hbytes, hr, pure_bind, write_cut hbits hcut, hbits]
    rfl
  · rw [he]
    rfl

theorem invert_eq (i : Instruction) :
    invert named i = (Emulation.unary i 0 fun a => X64.bitwise (~~~a)).free := by
  have hkeep : ∀ f : Flags, (modify (·.updateFlags f 0) : Emulation Unit) = pure () := fun f => by
    funext file
    exact congrArg (EStateM.Result.ok ()) (file.updateFlags_zero f)
  simp only [invert, Emulation.unary, free_bind, product_register, read_eq, write_eq, pure_bind,
    hkeep]
  congr 1
  funext dst
  rcases width_or_refuses named dst with ⟨w, hbits, -⟩ | ⟨e, he⟩
  · congr 1
    funext a
    rw [write_cut hbits (BitVec.setWidth_not w.bits_le), hbits]
    rfl
  · rw [he]
    rfl

theorem one_setWidth (w : Width) : (1 : Word).setWidth w.bits = 1 := by
  cases w <;> rfl

theorem zero_setWidth (w : Width) : (0 : Word).setWidth w.bits = 0 := by
  cases w <;> rfl

theorem compute_eq (i : Instruction) : compute named i = i.compute.free := by
  unfold compute Instruction.compute
  cases i.mnemonic
  case mov | kmovq => exact move_eq i
  case add => exact binary_eq named addition_widens i true
  case sub => exact binary_eq named subtraction_widens i true
  case cmp => exact binary_eq named subtraction_widens i false
  case and => exact binary_eq named (bitwise_widens fun _ _ _ => BitVec.setWidth_and) i true
  case or => exact binary_eq named (bitwise_widens fun _ _ _ => BitVec.setWidth_or) i true
  case xor => exact binary_eq named (bitwise_widens fun _ _ _ => BitVec.setWidth_xor) i true
  case test => exact binary_eq named (bitwise_widens fun _ _ _ => BitVec.setWidth_and) i false
  case inc => exact unary_eq named (addition_widens.right 1 one_setWidth) i _
  case dec => exact unary_eq named (subtraction_widens.right 1 one_setWidth) i _
  case neg => exact unary_eq named (subtraction_widens.left 0 zero_setWidth) i _
  case not => exact invert_eq named i
  case lea => exact loadAddress_eq i
  case xchg => exact exchange_eq i
  case movdqa | movdqu | movaps | movups | pxor | xorps | paddq | pcmpeqd => exact vector_eq i _
  all_goals rfl

/-- Behind its guards an instruction does what it does without them. -/
theorem step_eq (i : Instruction) : step named i = i.step.free := by
  unfold step Instruction.step
  cases i.flow with
  | next =>
    simp only [free_bind, compute_eq]
    rfl
  | _ => rfl

end Guarded

/-- Run from `file`, `x` ends with `r` and leaves `file'`. -/
def Concludes {ε α : Type} (x : EStateM ε RegisterFile α) (file : RegisterFile) (r : Except ε α)
    (file' : RegisterFile) : Prop :=
  x.run file = match r with
    | .ok a => .ok a file'
    | .error e => .error e file'

theorem Concludes.free {α : Type} {x : Emulation α} {file file' : RegisterFile}
    {r : Except EmulationError α} (h : Concludes x file r file') :
    Concludes x.free file (r.mapError .inr) file' := by
  change EStateM.adaptExcept _ x file = _
  change x file = _ at h
  rw [EStateM.adaptExcept, h]
  cases r <;> rfl

/-- The instruction alone settles whether it is refused, and why, whether it leaves the block, and
how, or whether control goes on; and unless control goes on, the registers stay as they are. No
guard stops it. -/
theorem Instruction.step_foreseen (named : String → BitVec 16) (i : Instruction) :
    ∃ r : Except EmulationError Step, ∀ file, ∃ file',
      Concludes i.step file r file'
        ∧ Concludes (Guarded.step named i) file (r.mapError .inr) file'
        ∧ (r = .ok .proceed ∨ file' = file) := by
  have hguarded : ∀ {file file' r}, Concludes i.step file r file' →
      Concludes (Guarded.step named i) file (r.mapError .inr) file' := fun h => by
    rw [Guarded.step_eq]
    exact h.free
  rcases i.step_cases with ⟨e, h⟩ | ⟨e, -, h⟩ | h
  · exact ⟨.error e, fun file => ⟨file, h file, hguarded (h file), .inr rfl⟩⟩
  · exact ⟨.ok (.leave e), fun file => ⟨file, h file, hguarded (h file), .inr rfl⟩⟩
  · refine ⟨.ok .proceed, fun file => ?_⟩
    obtain ⟨file', hf⟩ := h file
    exact ⟨file', hf, hguarded hf, .inl rfl⟩

end Rerun.X64
