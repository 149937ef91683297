import PhpOutline.Label

/-!
# Lookback

A bounded history of labels, of which the most recent ones are kept.
-/

namespace PhpOutline

structure Lookback where
  capacity : Nat
  /-- The newest label comes first. -/
  recent : List Label
  next : Nat
deriving DecidableEq, Repr, Inhabited

namespace Lookback

/-- Room for at least two labels. Capacities that cannot be allocated are outside of the model. -/
def empty (capacity : Nat) : Lookback := ⟨max capacity 2, [], 0⟩

def push (history : Lookback) (text : String) (start : Position) (braceDepth : Nat) : Lookback where
  capacity := history.capacity
  recent := (⟨history.next, text, start, braceDepth⟩ :: history.recent).take history.capacity
  next := history.next + 1

/-- Walks from the newest label back to the one numbered `seq`; `later` is the label seen just before. -/
def labelAfter (seq : Nat) (later : Option Label) : List Label → Option Label
  | [] => none
  | label :: older => if label.seq = seq then later else labelAfter seq (some label) older

def nameAfter (history : Lookback) (seq : Nat) : Option Label :=
  labelAfter seq none history.recent

def get? (history : Lookback) (seq : Nat) : Option Label :=
  if seq < history.next then history.recent[history.next - 1 - seq]? else none

end Lookback

end PhpOutline
