import PageAssembly.Text.Quoted

/-!
# Texts as bytes

Texts are stored in files as UTF-8.

## Main definitions

* `Utf8.encode` — the bytes of a text
* `Utf8.decode` — the text of the longest start of some bytes that is well formed, and the first
  fault
* `Utf8.Fault` — where the bytes stop being well formed, and how

## Design notes

A fault is the longest start of a character that cannot be finished: one byte that starts no
character, the bytes up to one that cannot follow, or the bytes up to the end of the input.  The
byte behind a first byte has a narrower range than later ones where a shorter spelling of the same
character, a surrogate or a number beyond the code points would follow otherwise.
-/

namespace PageAssembly.Utf8

/-- How bytes stop being well formed. -/
inductive Reason where
  /-- A byte that no character starts with. -/
  | invalidStart
  /-- A byte that cannot follow the bytes before it. -/
  | invalidContinuation
  /-- The input ends inside a character. -/
  | unexpectedEnd
  deriving DecidableEq, Repr

/-- The first place at which bytes are not well formed. -/
structure Fault where
  /-- The number of bytes before it. -/
  position : Nat
  /-- The bytes that cannot be read. -/
  bytes : List UInt8
  /-- How they fail. -/
  reason : Reason
  deriving DecidableEq, Repr

/-- The wording of a reason. -/
def Reason.wording : Reason → String
  | .invalidStart => "invalid start byte"
  | .invalidContinuation => "invalid continuation byte"
  | .unexpectedEnd => "unexpected end of data"

/-- The place of a fault in its wording. -/
def Fault.place (f : Fault) : String :=
  match f.bytes with
  | [b] => s!"byte 0x{(Text.hex 2 b.toNat).str} in position {f.position}"
  | bs => s!"bytes in position {f.position}-{f.position + bs.length - 1}"

/-- The wording of a fault. -/
def Fault.message (f : Fault) : String :=
  s!"'utf-8' codec can't decode {f.place}: {f.reason.wording}"

/-- The bytes of a text. -/
def encode (s : Text) : List UInt8 := s.flatMap String.utf8EncodeChar

/-- How many bytes follow a first byte, and the range of the next one. -/
def shape? (first : Nat) : Option (Nat × Nat × Nat) :=
  if 0xC2 ≤ first ∧ first ≤ 0xDF then some (1, 0x80, 0xBF)
  else if first = 0xE0 then some (2, 0xA0, 0xBF)
  else if first = 0xED then some (2, 0x80, 0x9F)
  else if 0xE1 ≤ first ∧ first ≤ 0xEF then some (2, 0x80, 0xBF)
  else if first = 0xF0 then some (3, 0x90, 0xBF)
  else if 0xF1 ≤ first ∧ first ≤ 0xF3 then some (3, 0x80, 0xBF)
  else if first = 0xF4 then some (3, 0x80, 0x8F)
  else none

/-- The bits of a first byte that belong to the character's number. -/
def firstBits (first count : Nat) : Nat := first % Nat.pow 2 (6 - count)

/-- Reads the bytes that still belong to a character: `left` of them, the next one between `low`
and `high`.  `taken` holds the bytes read so far in reverse and `value` their number. -/
def readTail (left low high value : Nat) (taken bytes : List UInt8) :
    Except (List UInt8 × Reason) (Nat × List UInt8) :=
  match left, bytes with
  | 0, bytes => .ok (value, bytes)
  | _ + 1, [] => .error (taken.reverse, .unexpectedEnd)
  | left + 1, b :: bytes =>
    if low ≤ b.toNat ∧ b.toNat ≤ high then
      readTail left 0x80 0xBF (value * 64 + (b.toNat - 0x80)) (b :: taken) bytes
    else .error (taken.reverse, .invalidContinuation)

theorem readTail_length_le {left low high value v : Nat} {taken bytes rest : List UInt8}
    (h : readTail left low high value taken bytes = .ok (v, rest)) :
    rest.length ≤ bytes.length := by
  fun_induction readTail left low high value taken bytes with
  | case1 => simp_all
  | case2 => simp at h
  | case3 low high value taken left b bytes hr ih =>
    have := ih h
    simp only [List.length_cons]
    omega
  | case4 => simp at h

/-- The work behind `decode`; `done` holds the text read so far in reverse. -/
def decodeFrom (done : Text) (position : Nat) (bytes : List UInt8) : Text × Option Fault :=
  match bytes with
  | [] => (done.reverse, none)
  | b :: bytes =>
    if b.toNat < 0x80 then decodeFrom (Char.ofNat b.toNat :: done) (position + 1) bytes
    else
      match shape? b.toNat with
      | none => (done.reverse, some ⟨position, [b], .invalidStart⟩)
      | some (count, low, high) =>
        match _h : readTail count low high (firstBits b.toNat count) [b] bytes with
        | .error (bad, reason) => (done.reverse, some ⟨position, bad, reason⟩)
        | .ok (value, rest) =>
          decodeFrom (Char.ofNat value :: done) (position + count + 1) rest
termination_by bytes.length
decreasing_by
  · simp
  · have := readTail_length_le _h
    simp only [List.length_cons]
    omega

/-- The text of well-formed bytes up to the first fault, and that fault. -/
def decode (bytes : List UInt8) : Text × Option Fault := decodeFrom [] 0 bytes

theorem length_decodeFrom_le (done : Text) (position : Nat) (bytes : List UInt8) :
    (decodeFrom done position bytes).1.length ≤ done.length + bytes.length := by
  fun_induction decodeFrom done position bytes with
  | case1 => simp
  | case2 done position b bytes hb ih =>
    simp only [List.length_cons] at ih ⊢
    omega
  | case3 => simp
  | case4 => simp
  | case5 done position b bytes hb count low high hs value rest h ih =>
    have := readTail_length_le h
    simp only [List.length_cons] at ih ⊢
    omega

/-- A text has no more characters than bytes. -/
theorem length_decode_le (bytes : List UInt8) : (decode bytes).1.length ≤ bytes.length := by
  simpa [decode] using length_decodeFrom_le [] 0 bytes

end PageAssembly.Utf8
