/-
The filter between a guest's serial console and the host's terminal
(`terminal::filter`).

`ConsoleFilter` reads the guest's output byte by byte and passes text, the C0
controls a console uses and an allowlist of escape sequences.  It emits an escape
sequence only once the sequence is complete and allowed.  Each step returns the
filter's next state and the bytes it appends to `out`.

UTF-8 validation is `str::from_utf8` in the source and Lean's own decoder here.
-/
import Mathlib.Algebra.Group.Nat.Defs
import Mathlib.Tactic.Common

namespace ConsoleFilter

def esc : UInt8 := 0x1b
def enq : UInt8 := 0x05
def bel : UInt8 := 0x07
def can : UInt8 := 0x18
def sub : UInt8 := 0x1a

/-- The longest escape sequence the filter holds back. -/
def maxSeq : ℕ := 128

/-- U+FFFD, written for malformed UTF-8. -/
def replacement : List UInt8 := [0xef, 0xbf, 0xbd]

/-- The DEC private modes a guest may set. -/
def decModes : List ℕ := [1, 5, 6, 7, 12, 25, 47, 1047, 1048, 1049, 2004]

/-- Where the filter is in the byte stream. -/
inductive State where
  | ground
  | escape
  | escapeIntermediate
  | csi
  | csiIgnore
  | controlString
  deriving DecidableEq, Repr

/-- The filter.  `utf8` is the filled part of the source's four-byte buffer. -/
structure Filter where
  state : State := .ground
  seq : List UInt8 := []
  utf8 : List UInt8 := []
  utf8Want : ℕ := 0
  deriving DecidableEq, Repr

/-! ### The allowlist -/

def inRange (lo hi b : UInt8) : Bool := decide (lo ≤ b) && decide (b ≤ hi)

/-- `str::parse::<u32>` on the bytes of `p`. -/
def parseU32 (p : List UInt8) : Option ℕ :=
  let digits := match p with
    | 0x2b :: tail => tail
    | _ => p
  if digits.isEmpty then none
  else digits.foldlM (fun acc b =>
    let v := acc * 10 + (b.toNat - 0x30)
    if inRange 0x30 0x39 b && decide (v < 2 ^ 32) then some v else none) 0

/-- `slice::split` at every `sep`. -/
def splitOn (sep : UInt8) : List UInt8 → List (List UInt8)
  | [] => [[]]
  | b :: rest =>
    match splitOn sep rest with
    | [] => [[b]]
    | first :: more => if b = sep then [] :: first :: more else (b :: first) :: more

/-- Whether every mode in a `;`-separated list is one of `decModes`. -/
def modesAllowed (params : List UInt8) : Bool :=
  !params.isEmpty && (splitOn 0x3b params).all fun p =>
    match parseU32 p with
    | some m => decModes.contains m
    | none => false

/-- Whether an erase in display leaves the scrollback alone. -/
def eraseAllowed (params : List UInt8) : Bool :=
  params == [] || params == [0x30] || params == [0x31] || params == [0x32]

/-- The final bytes allowed with any parameters. -/
def plainFinal (fin : UInt8) : Bool :=
  fin == 0x40 || inRange 0x41 0x49 fin || inRange 0x4b 0x4d fin || fin == 0x50 || fin == 0x53
    || fin == 0x58 || fin == 0x5a || fin == 0x61 || fin == 0x62 || inRange 0x64 0x66 fin
    || fin == 0x6d || fin == 0x72 || fin == 0x73 || fin == 0x60

/-- The table of `csi_allowed`, arm by arm. -/
def csiForm (marker : Option UInt8) (params inter : List UInt8) (fin : UInt8) : Bool :=
  if marker = none ∧ inter = [] ∧ plainFinal fin then true
  else if marker = none ∧ inter = [] ∧ fin = 0x54 then !params.contains 0x3b
  else if (marker = none ∨ marker = some 0x3f) ∧ inter = [] ∧ fin = 0x4a then eraseAllowed params
  else if marker = none ∧ inter = [] ∧ fin = 0x75 then params.isEmpty
  else if marker = none ∧ inter = [] ∧ (fin = 0x68 ∨ fin = 0x6c) then params == [0x34]
  else if marker = some 0x3f ∧ inter = [] ∧ (fin = 0x68 ∨ fin = 0x6c) then modesAllowed params
  else if marker = some 0x3f ∧ inter = [] ∧ fin = 0x4b then true
  else if marker = none ∧ inter = [0x20] ∧ fin = 0x71 then true
  else if marker = none ∧ inter = [0x21] ∧ fin = 0x70 then true
  else false

/-- The private marker a control sequence may begin with, and what follows it. -/
def takeMarker (rest : List UInt8) : Option UInt8 × List UInt8 :=
  match rest with
  | m :: tail => if inRange 0x3c 0x3f m then (some m, tail) else (none, rest)
  | [] => (none, [])

def isInter (b : UInt8) : Bool := inRange 0x20 0x2f b

def isParam (b : UInt8) : Bool := inRange 0x30 0x39 b || b == 0x3b || b == 0x3a

/-- Whether a control sequence may reach the terminal; `body` is everything after
`ESC [`. -/
def csiAllowed (body : List UInt8) : Bool :=
  match body.getLast? with
  | none => false
  | some fin =>
    let (marker, rest) := takeMarker body.dropLast
    let params := rest.takeWhile fun b => !isInter b
    let inter := rest.dropWhile fun b => !isInter b
    if !params.all isParam || !inter.all isInter then false
    else csiForm marker params inter fin

/-! ### The filter -/

/-- `str::from_utf8`, as the characters of the string. -/
def fromUtf8 (bytes : List UInt8) : Option (List Char) :=
  bytes.toByteArray.utf8Decode?.map Array.toList

def isC1 (c : Char) : Bool := decide (0x80 ≤ c.toNat) && decide (c.toNat ≤ 0x9f)

/-- A C0 control passes unless it is ENQ. -/
def execute (b : UInt8) : List UInt8 := if b ≠ enq then [b] else []

namespace Filter

def startEscape (f : Filter) : Filter := { f with seq := [esc], state := .escape }

/-- Adds `b` to the sequence held back.  Past `maxSeq` a control sequence is
dropped up to its final byte. -/
def hold (f : Filter) (b : UInt8) : Filter :=
  if f.seq.length < maxSeq then { f with seq := f.seq ++ [b] }
  else if f.state = .csi then { f with state := .csiIgnore }
  else f

def startUtf8 (f : Filter) (b : UInt8) : Filter × List UInt8 :=
  if inRange 0xc2 0xdf b then ({ f with utf8 := [b], utf8Want := 2 }, [])
  else if inRange 0xe0 0xef b then ({ f with utf8 := [b], utf8Want := 3 }, [])
  else if inRange 0xf0 0xf4 b then ({ f with utf8 := [b], utf8Want := 4 }, [])
  else (f, replacement)

/-- Emits the collected character, a replacement for a malformed one, or nothing
for a C1 control. -/
def finishUtf8 (f : Filter) : Filter × List UInt8 :=
  let out := match fromUtf8 f.utf8 with
    | some cs => if cs.all fun c => !isC1 c then f.utf8 else []
    | none => replacement
  ({ f with utf8Want := 0 }, out)

def ground (f : Filter) (b : UInt8) : Filter × List UInt8 :=
  if b = esc then (f.startEscape, [])
  else if b ≤ 0x1f then (f, execute b)
  else if b ≤ 0x7f then (f, [b])
  else f.startUtf8 b

/-- Back in the ground state, where a byte outside every sequence goes. -/
def toGround (f : Filter) : Filter := { f with state := .ground }

def isControlStringStart (b : UInt8) : Bool :=
  b == 0x5d || b == 0x50 || b == 0x58 || b == 0x5e || b == 0x5f

/-- The final bytes of the two-byte escapes that pass. -/
def escapeFinal (b : UInt8) : Bool :=
  b == 0x37 || b == 0x38 || b == 0x44 || b == 0x45 || b == 0x4d || b == 0x3d || b == 0x3e

def escape (f : Filter) (b : UInt8) : Filter × List UInt8 :=
  if b = esc then (f.startEscape, [])
  else if b = can ∨ b = sub then (f.toGround, [])
  else if b ≤ 0x1f then (f, execute b)
  else if b = 0x5b then ({ f with seq := f.seq ++ [b], state := .csi }, [])
  else if isControlStringStart b then ({ f with state := .controlString }, [])
  else if isInter b then ({ f with seq := f.seq ++ [b], state := .escapeIntermediate }, [])
  else if escapeFinal b then (f.toGround, [esc, b])
  else if b ≤ 0x7f then (f.toGround, [])
  else f.toGround.ground b

def isCharsetSlot (b : UInt8) : Bool := inRange 0x28 0x2b b

def isCharset (b : UInt8) : Bool := b == 0x30 || b == 0x41 || b == 0x42

/-- Whether the held sequence with final byte `b` designates a character set. -/
def designates (f : Filter) (b : UInt8) : Bool :=
  match f.seq with
  | [_, slot] => isCharsetSlot slot && isCharset b
  | _ => false

def escapeIntermediate (f : Filter) (b : UInt8) : Filter × List UInt8 :=
  if b = esc then (f.startEscape, [])
  else if b = can ∨ b = sub then (f.toGround, [])
  else if b ≤ 0x1f then (f, execute b)
  else if b ≤ 0x2f then (f.hold b, [])
  else if b ≤ 0x7e then (f.toGround, if f.designates b then f.seq ++ [b] else [])
  else if b = 0x7f then (f, [])
  else f.toGround.ground b

def csi (f : Filter) (b : UInt8) : Filter × List UInt8 :=
  if b = esc then (f.startEscape, [])
  else if b = can ∨ b = sub then (f.toGround, [])
  else if b ≤ 0x1f then (f, execute b)
  else if b ≤ 0x3f then (f.hold b, [])
  else if b ≤ 0x7e then
    let f := { f with seq := f.seq ++ [b] }
    (f.toGround, if csiAllowed (f.seq.drop 2) then f.seq else [])
  else if b = 0x7f then (f, [])
  else f.toGround.ground b

def csiIgnore (f : Filter) (b : UInt8) : Filter × List UInt8 :=
  if b = esc then (f.startEscape, [])
  else if b = can ∨ b = sub ∨ inRange 0x40 0x7e b then (f.toGround, [])
  else if b ≤ 0x1f then (f, execute b)
  else if b ≤ 0x3f ∨ b = 0x7f then (f, [])
  else f.toGround.ground b

def controlString (f : Filter) (b : UInt8) : Filter :=
  if b = esc then f.startEscape
  else if b = bel ∨ b = can ∨ b = sub then f.toGround
  else f

/-- A byte that continues no UTF-8 character. -/
def dispatch (f : Filter) (b : UInt8) : Filter × List UInt8 :=
  match f.state with
  | .ground => f.ground b
  | .escape => f.escape b
  | .escapeIntermediate => f.escapeIntermediate b
  | .csi => f.csi b
  | .csiIgnore => f.csiIgnore b
  | .controlString => (f.controlString b, [])

/-- Filters one byte. -/
def push (f : Filter) (b : UInt8) : Filter × List UInt8 :=
  if f.utf8Want ≠ 0 then
    if inRange 0x80 0xbf b then
      let f := { f with utf8 := f.utf8 ++ [b] }
      if f.utf8.length = f.utf8Want then f.finishUtf8 else (f, [])
    else
      -- a character cut short by a byte that cannot continue it
      let r := { f with utf8Want := 0 }.dispatch b
      (r.1, replacement ++ r.2)
  else f.dispatch b

/-- Filters `input`, one call of `filter`. -/
def filter (f : Filter) : List UInt8 → Filter × List UInt8
  | [] => (f, [])
  | b :: rest =>
    let r := f.push b
    let r' := r.1.filter rest
    (r'.1, r.2 ++ r'.2)

/-- One call of `filter` after another. -/
def filterAll (f : Filter) : List (List UInt8) → Filter × List UInt8
  | [] => (f, [])
  | chunk :: chunks =>
    let r := f.filter chunk
    let r' := r.1.filterAll chunks
    (r'.1, r.2 ++ r'.2)

end Filter

/-- What a new filter has emitted after calls with these chunks. -/
def emitted (chunks : List (List UInt8)) : List UInt8 := (({} : Filter).filterAll chunks).2

end ConsoleFilter
