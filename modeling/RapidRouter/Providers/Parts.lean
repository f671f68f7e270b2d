import RapidRouter.Providers.Render

/-!
# What a chunk gives to write

A renderer that writes blocks, one open at a time, takes of an OpenAI chunk its
text and, call by call, a name that opens a call and a piece of its arguments.
`Orderly` says of such parts that no piece of arguments is for a call other than
the one that is open; a client's grammar, in which only the open block can be
written to, depends on nothing else.
-/

namespace RapidRouter.Providers

open Json

/-- A tool call is known by its index among the chunk's. -/
inductive Part where
  | text (text : String)
  | name (index : Nat) (id : Value) (name : String)
  | args (index : Nat) (fragment : String)

def callParts (call : Value) : List Part :=
  (((call.index "function").index "name").asStr.toList.map
      fun name => .name (toolIndex call) (call.index "id") name) ++
    (nonEmptyStr ((call.index "function").index "arguments")).toList.map
      fun fragment => .args (toolIndex call) fragment

def chunkParts (chunk : Value) : List Part :=
  let delta := (firstChoice chunk).index "delta"
  (nonEmptyStr (delta.index "content")).toList.map .text ++
    (elements (delta.index "tool_calls")).flatMap callParts

def parts (chunks : List Value) : List Part := chunks.flatMap chunkParts

/-- The pieces of arguments, each with its call's index. -/
def fragments (ps : List Part) : List (Nat × String) :=
  ps.filterMap fun
    | .args index fragment => some (index, fragment)
    | _ => none

/-- The names, each with its call's index and id. -/
def namings (ps : List Part) : List (Nat × Value × String) :=
  ps.filterMap fun
    | .name index id name => some (index, id, name)
    | _ => none

/-! ## Parts in order -/

/-- What the last part that opened something opened. -/
inductive Current where
  | nothing
  | text
  | call (index : Nat)
  /-- A call that was named again after it had been given arguments. -/
  | again
  deriving DecidableEq

structure Progress where
  /-- How many blocks there have been. -/
  opened : Nat
  current : Current
  /-- The calls that have been given arguments. -/
  begun : List Nat

namespace Progress

def init : Progress := ⟨0, .nothing, []⟩

/-- There are as many blocks as indices. -/
def open_ (p : Progress) (current : Current) : Option Progress :=
  if p.opened < 2 ^ 64 then some { p with opened := p.opened + 1, current := current } else none

def next (p : Progress) : Part → Option Progress
  | .text _ => if p.current = .text then some p else p.open_ .text
  | .name index _ _ => p.open_ (if index ∈ p.begun then .again else .call index)
  | .args index _ =>
    if p.current = .call index then some { p with begun := index :: p.begun } else none

end Progress

/-- Every piece of arguments is for the call named last, with no text since, and
that call has been named before only if it had no arguments then; and there are
no more than 2^64 blocks to number. -/
def Orderly (ps : List Part) : Prop := (ps.foldlM Progress.next .init).isSome = true

instance (ps : List Part) : Decidable (Orderly ps) := inferInstanceAs (Decidable (_ = _))

end RapidRouter.Providers
