import Mathlib.Data.List.Basic

/-!
# JSON text, one byte at a time

RFC 8259 as a pushdown machine over bytes: `step` consumes one byte, `run` a
text, and `parse` asks that the machine ends with one complete value. The
machine only decides the grammar. What it builds (`Raw`) keeps string
contents as they were written and numbers as the decimals they spell, so
that a reader which skips a value and one which materialises it can share
it.

A run over a concatenation is a run after a run (`run_append`); there is no
fuel and no position, which is what the arguments about cut texts rest on.
-/

namespace Json

abbrev Bytes := List UInt8

-- a text is searched, not the type of its bytes
instance (priority := 2000) {p : UInt8 → Prop} [DecidablePred p] (b : Bytes) :
    Decidable (∀ c ∈ b, p c) := List.decidableBAll p b

/-- The byte of an ASCII character. -/
abbrev ascii (c : Char) : UInt8 := c.toUInt8

/-- A number as written: `± mantissa · 10 ^ (± exp - fracDigits)`. -/
structure NumLit where
  neg : Bool
  mantissa : Nat
  fracDigits : Nat
  expNeg : Bool
  exp : Nat
  /-- Neither a fraction nor an exponent was written. -/
  integral : Bool
  deriving DecidableEq

/-- A value as written. A string is what stands between its quotes. -/
inductive Raw where
  | null
  | bool (b : Bool)
  | number (n : NumLit)
  | string (s : Bytes)
  | array (items : List Raw)
  | object (members : List (Bytes × Raw))

def isWs (c : UInt8) : Bool := c = ascii ' ' || c = ascii '\n' || c = ascii '\t' || c = ascii '\r'

def isDigit (c : UInt8) : Bool := ascii '0' ≤ c && c ≤ ascii '9'

def digitVal (c : UInt8) : Nat := c.toNat - 48

def hexVal (c : UInt8) : Option Nat :=
  if isDigit c then some (digitVal c)
  else if ascii 'a' ≤ c && c ≤ ascii 'f' then some (c.toNat - 87)
  else if ascii 'A' ≤ c && c ≤ ascii 'F' then some (c.toNat - 55)
  else none

/-- How far into a number the machine is. -/
inductive NumPhase where
  | minus
  | zero
  | int
  | point
  | frac
  | exp
  | expSign
  | expDigits
  deriving DecidableEq

namespace NumPhase

/-- A number may end here. -/
def accepting : NumPhase → Bool
  | zero | int | frac | expDigits => true
  | _ => false

end NumPhase

namespace NumLit

def start (neg : Bool) : NumLit := ⟨neg, 0, 0, false, 0, true⟩

def pushDigit (n : NumLit) (c : UInt8) : NumLit :=
  { n with mantissa := n.mantissa * 10 + digitVal c }

def pushFrac (n : NumLit) (c : UInt8) : NumLit :=
  { n.pushDigit c with fracDigits := n.fracDigits + 1 }

def pushExp (n : NumLit) (c : UInt8) : NumLit := { n with exp := n.exp * 10 + digitVal c }

end NumLit

/-- The byte continues the number. -/
def numStep (n : NumLit) (c : UInt8) : NumPhase → Option (NumPhase × NumLit)
  | .minus =>
    if c = ascii '0' then some (.zero, n)
    else if isDigit c then some (.int, n.pushDigit c)
    else none
  | .zero => pointOrExp
  | .int => if isDigit c then some (.int, n.pushDigit c) else pointOrExp
  | .point => if isDigit c then some (.frac, n.pushFrac c) else none
  | .frac => if isDigit c then some (.frac, n.pushFrac c) else expMark
  | .exp =>
    if c = ascii '-' then some (.expSign, { n with expNeg := true })
    else if c = ascii '+' then some (.expSign, n)
    else if isDigit c then some (.expDigits, n.pushExp c)
    else none
  | .expSign => if isDigit c then some (.expDigits, n.pushExp c) else none
  | .expDigits => if isDigit c then some (.expDigits, n.pushExp c) else none
where
  expMark : Option (NumPhase × NumLit) :=
    if c = ascii 'e' || c = ascii 'E' then some (.exp, { n with integral := false }) else none
  pointOrExp : Option (NumPhase × NumLit) :=
    if c = ascii '.' then some (.point, { n with integral := false }) else expMark

/-- An array or object whose end has not been seen, its parts in reverse. -/
inductive Frame where
  | items (done : List Raw)
  | members (done : List (Bytes × Raw)) (key : Bytes)

/-- What the machine expects next. A string is a value, or a key after the
members `done`. -/
inductive Mode where
  | value
  /-- After `[`: a value or the end of the array. -/
  | firstItem
  /-- In an object: a key, or its end when there is no member yet. -/
  | key (done : List (Bytes × Raw))
  | colon (done : List (Bytes × Raw)) (key : Bytes)
  | string (dest : Option (List (Bytes × Raw))) (content : Bytes)
  | escape (dest : Option (List (Bytes × Raw))) (content : Bytes)
  | hex (dest : Option (List (Bytes × Raw))) (content : Bytes) (left : Nat)
  | literal (rest : Bytes) (v : Raw)
  | number (phase : NumPhase) (n : NumLit)
  | after (v : Raw)

structure State where
  mode : Mode
  stack : List Frame

def State.init : State := ⟨.value, []⟩

def isSimpleEscape (c : UInt8) : Bool :=
  c = ascii '"' || c = ascii '\\' || c = ascii '/' || c = ascii 'b' || c = ascii 'f'
    || c = ascii 'n' || c = ascii 'r' || c = ascii 't'

/-- The first byte of a value. -/
def startValue (stack : List Frame) (c : UInt8) : Option State :=
  if c = ascii '"' then some ⟨.string none [], stack⟩
  else if c = ascii '[' then some ⟨.firstItem, .items [] :: stack⟩
  else if c = ascii '{' then some ⟨.key [], stack⟩
  else if c = ascii 't' then some ⟨.literal [ascii 'r', ascii 'u', ascii 'e'] (.bool true), stack⟩
  else if c = ascii 'f' then
    some ⟨.literal [ascii 'a', ascii 'l', ascii 's', ascii 'e'] (.bool false), stack⟩
  else if c = ascii 'n' then some ⟨.literal [ascii 'u', ascii 'l', ascii 'l'] .null, stack⟩
  else if c = ascii '-' then some ⟨.number .minus (.start true), stack⟩
  else (numStep (.start false) c .minus).map fun p => ⟨.number p.1 p.2, stack⟩

/-- A byte after a complete value. -/
def afterValue (v : Raw) (c : UInt8) : List Frame → Option State
  | .items done :: stack =>
    if c = ascii ',' then some ⟨.value, .items (v :: done) :: stack⟩
    else if c = ascii ']' then some ⟨.after (.array (v :: done).reverse), stack⟩
    else none
  | .members done key :: stack =>
    if c = ascii ',' then some ⟨.key ((key, v) :: done), stack⟩
    else if c = ascii '}' then some ⟨.after (.object ((key, v) :: done).reverse), stack⟩
    else none
  | [] => none

/-- The end of a string. -/
def endString (content : Bytes) (stack : List Frame) : Option (List (Bytes × Raw)) → State
  | none => ⟨.after (.string content.reverse), stack⟩
  | some done => ⟨.colon done content.reverse, stack⟩

def step (s : State) (c : UInt8) : Option State :=
  match s.mode with
  | .value => if isWs c then some s else startValue s.stack c
  | .firstItem =>
    if isWs c then some s
    else if c = ascii ']' then some ⟨.after (.array []), s.stack.tail⟩
    else startValue s.stack c
  | .key done =>
    if isWs c then some s
    else if c = ascii '"' then some ⟨.string (some done) [], s.stack⟩
    else if c = ascii '}' && done.isEmpty then some ⟨.after (.object []), s.stack⟩
    else none
  | .colon done key =>
    if isWs c then some s
    else if c = ascii ':' then some ⟨.value, .members done key :: s.stack⟩
    else none
  | .string dest content =>
    if c = ascii '"' then some (endString content s.stack dest)
    else if c = ascii '\\' then some ⟨.escape dest (c :: content), s.stack⟩
    else if c < 0x20 then none
    else some ⟨.string dest (c :: content), s.stack⟩
  | .escape dest content =>
    if isSimpleEscape c then some ⟨.string dest (c :: content), s.stack⟩
    else if c = ascii 'u' then some ⟨.hex dest (c :: content) 4, s.stack⟩
    else none
  | .hex dest content left =>
    if (hexVal c).isSome then
      if left ≤ 1 then some ⟨.string dest (c :: content), s.stack⟩
      else some ⟨.hex dest (c :: content) (left - 1), s.stack⟩
    else none
  | .literal rest v =>
    match rest with
    | [] => none
    | [d] => if c = d then some ⟨.after v, s.stack⟩ else none
    | d :: rest => if c = d then some ⟨.literal rest v, s.stack⟩ else none
  | .number phase n =>
    match numStep n c phase with
    | some (phase, n) => some ⟨.number phase n, s.stack⟩
    | none =>
      if !phase.accepting then none
      else if isWs c then some ⟨.after (.number n), s.stack⟩
      else afterValue (.number n) c s.stack
  | .after v => if isWs c then some s else afterValue v c s.stack

def run (s : State) : Bytes → Option State
  | [] => some s
  | c :: rest => (step s c).bind fun s => run s rest

/-- The value, when the machine may stop here. -/
def State.finish (s : State) : Option Raw :=
  match s.mode, s.stack with
  | .after v, [] => some v
  | .number phase n, [] => if phase.accepting then some (.number n) else none
  | _, _ => none

/-- The one value a text spells. -/
def parse (text : Bytes) : Option Raw := (run .init text).bind State.finish

@[simp] theorem run_nil (s : State) : run s [] = some s := rfl

@[simp] theorem run_cons (s : State) (c : UInt8) (rest : Bytes) :
    run s (c :: rest) = (step s c).bind fun s => run s rest := rfl

theorem step_value {stack : List Frame} {c : UInt8} (h : isWs c = false) :
    step ⟨.value, stack⟩ c = startValue stack c := by
  simp [step, h]

theorem step_string {dest : Option (List (Bytes × Raw))} {content : Bytes} {stack : List Frame}
    {c : UInt8} (hquote : c ≠ ascii '"') (hescape : c ≠ ascii '\\') (hcontrol : ¬ c < 0x20) :
    step ⟨.string dest content, stack⟩ c = some ⟨.string dest (c :: content), stack⟩ := by
  simp [step, hquote, hescape, hcontrol]

theorem step_hex {dest : Option (List (Bytes × Raw))} {content : Bytes} {stack : List Frame}
    {left : Nat} {c : UInt8} (h : (hexVal c).isSome = true) :
    step ⟨.hex dest content left, stack⟩ c =
      some ⟨if left ≤ 1 then .string dest (c :: content) else .hex dest (c :: content) (left - 1),
        stack⟩ := by
  simp only [step, h, if_true]
  split <;> rfl

theorem step_number {phase phase' : NumPhase} {n n' : NumLit} {stack : List Frame} {c : UInt8}
    (h : numStep n c phase = some (phase', n')) :
    step ⟨.number phase n, stack⟩ c = some ⟨.number phase' n', stack⟩ := by
  simp [step, h]

theorem run_append (s : State) (xs ys : Bytes) :
    run s (xs ++ ys) = (run s xs).bind fun s => run s ys := by
  induction xs generalizing s with
  | nil => rfl
  | cons c rest ih =>
    rw [List.cons_append, run_cons, run_cons]
    cases step s c with
    | none => rfl
    | some s' => exact ih s'

end Json
