import PhpOutline.Symbol

/-!
# Declaration intents

A declaration keyword waits for the character that ends the header: a brace for class-like
declarations, a parenthesis for functions.
-/

namespace PhpOutline

inductive Terminator where
  | brace
  | paren
deriving DecidableEq, Repr, Inhabited

def Kind.terminator (kind : Kind) : Terminator :=
  if kind.isClassLike then .brace else .paren

structure Intent where
  kind : Kind
  /-- Sequence number of the keyword's label. -/
  keyword : Nat
deriving DecidableEq, Repr, Inhabited

def Intent.terminator (intent : Intent) : Terminator := intent.kind.terminator

/-- The oldest intent comes first. -/
structure IntentQueue where
  waiting : List Intent
deriving DecidableEq, Repr, Inhabited

namespace IntentQueue

def empty : IntentQueue := ⟨[]⟩

def push (queue : IntentQueue) (intent : Intent) : IntentQueue := ⟨queue.waiting ++ [intent]⟩

def confirmedBy (queue : IntentQueue) (terminator : Terminator) : List Intent :=
  queue.waiting.filter (·.terminator == terminator)

def settle (queue : IntentQueue) (terminator : Terminator) : IntentQueue :=
  ⟨queue.waiting.filter (·.terminator != terminator)⟩

def size (queue : IntentQueue) : Nat := queue.waiting.length

end IntentQueue

end PhpOutline
