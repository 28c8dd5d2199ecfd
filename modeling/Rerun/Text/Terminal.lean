/-!
# Text in a terminal stream

A stream for a terminal holds text and sequences. An escape starts a sequence; most sequences say
how the text behind them is to look. `plain` is what such a stream says when the looks are left
out.
-/

namespace Rerun.Text

/-- Where the reader of a stream stands. -/
inductive Place
  /-- In text. -/
  | text
  /-- Behind an escape. -/
  | escape
  /-- Behind an escape and marks, which one character more completes. -/
  | escapeMarks
  /-- In a control sequence, which a letter ends. -/
  | control
  /-- Before the parameters of a device string. -/
  | deviceStart
  /-- Among the parameters of a device string. -/
  | deviceParameters
  /-- Behind the parameters of a device string. -/
  | deviceMarks
  /-- In a string that is not for the screen. -/
  | string
  /-- In a command to the system, which a bell ends. -/
  | command
deriving DecidableEq, Repr

namespace Place

/-- Whether characters that lay out text act here. -/
def laysOut : Place → Bool
  | text | escape | escapeMarks | control => true
  | deviceStart | deviceParameters | deviceMarks | string | command => false

/-- The place behind a character of `0x20` to `0x7e` that is not shown. -/
def afterGraphic (p : Place) (c : Char) : Place :=
  let isMark := c.toNat < 0x30
  match p with
  | text => text
  | escape =>
    if isMark then escapeMarks
    else if c = '[' then control
    else if c = ']' then command
    else if c = 'P' then deviceStart
    else if c = 'X' ∨ c = '^' ∨ c = '_' then string
    else text
  | escapeMarks => if isMark then escapeMarks else text
  | control => if c.toNat < 0x40 then control else text
  | deviceStart =>
    if isMark then deviceMarks else if c.toNat < 0x40 then deviceParameters else string
  | deviceParameters =>
    if isMark then deviceMarks else if c.toNat < 0x3c then deviceParameters else string
  | deviceMarks => if isMark then deviceMarks else string
  | string => string
  | command => command

/-- The place behind a control. An escape always starts anew; two controls break a sequence off. -/
def afterControl (p : Place) (c : Char) : Place :=
  if c = '\x1b' then escape
  else if c = '\x18' ∨ c = '\x1a' ∨ (c = '\x07' ∧ p = command) then text
  else p

/-- The place behind a character beyond ASCII that is not shown. A string ends at the byte
`0x9c`. -/
def afterWide (p : Place) (c : Char) : Place :=
  if p = string ∧ (String.utf8EncodeChar c).contains 0x9c then text else p

end Place

/-- The reader of a stream. -/
structure Reader where
  place : Place
  /-- Whether text is shown although a sequence has not ended: a character that lays out text
  lets it in, and the next control closes it out again. -/
  aside : Bool
deriving DecidableEq, Repr

namespace Reader

/-- The reader at the start of a stream. -/
def start : Reader := ⟨.text, false⟩

/-- Reads a character, and tells whether it is shown. -/
def read (r : Reader) (c : Char) : Reader × Bool :=
  if c = '\t' ∨ c = '\n' ∨ c = '\x0c' ∨ c = '\r' then
    if r.place.laysOut then ({ r with aside := true }, true) else (r, false)
  else if c.toNat < 0x20 ∨ c.toNat = 0x7f then (⟨r.place.afterControl c, false⟩, false)
  else if r.place = .text ∨ r.aside then
    (if c.toNat < 0x80 then r else .start, true)
  else if c.toNat < 0x80 then (⟨r.place.afterGraphic c, false⟩, false)
  else (⟨r.place.afterWide c, false⟩, false)

/-- What of a stream is shown. -/
def shown (r : Reader) : List Char → List Char
  | [] => []
  | c :: cs =>
    let (next, isShown) := r.read c
    if isShown then c :: next.shown cs else next.shown cs

/-- Text without controls is shown as it is. -/
theorem shown_start (cs : List Char) (h : ∀ c ∈ cs, 0x20 ≤ c.toNat ∧ c.toNat ≠ 0x7f) :
    start.shown cs = cs := by
  induction cs with
  | nil => rfl
  | cons c cs ih =>
    obtain ⟨hc, hcs⟩ := List.forall_mem_cons.1 h
    have hread : start.read c = (start, true) := by
      have hlow : c ≠ '\t' ∧ c ≠ '\n' ∧ c ≠ '\x0c' ∧ c ≠ '\r' := by
        refine ⟨?_, ?_, ?_, ?_⟩ <;> (rintro rfl; revert hc; decide)
      have hlt : ¬ c.toNat < 0x20 := by omega
      simp [read, start, hlow, hlt, hc.2]
    simp [shown, hread, ih hcs]

end Reader

/-- The text in a stream. -/
def plain (s : String) : String := String.ofList (Reader.start.shown s.toList)

/-- A text that looks as a number says, and the usual look behind it. -/
def styled (look : Nat) (s : String) : String :=
  "\x1b[" ++ toString look ++ "m" ++ s ++ "\x1b[0m"

end Rerun.Text
