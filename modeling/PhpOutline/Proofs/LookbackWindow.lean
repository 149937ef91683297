import Mathlib.Data.List.Range
import PhpOutline.Proofs.LookbackHistory

/-!
# The window of a lookback

After any number of pushes a lookback holds a window of the labels: the last ones, as many as there is
room for, under consecutive numbers. There are two ways to look a label up, by walking back from the
newest label and by counting from an end of the window. Main statement: both give the label that was
pushed under the number asked for, as long as the walk or the count stays within the window, and
nothing otherwise.
-/

namespace PhpOutline.Lookback

/-- What is pushed: a text, where it starts, and how many braces are open around it. -/
structure Pushed where
  text : String
  start : Position
  braceDepth : Nat
deriving DecidableEq, Repr, Inhabited

def Pushed.label (pushed : Pushed) (seq : Nat) : Label :=
  ⟨seq, pushed.text, pushed.start, pushed.braceDepth⟩

def pushAll (history : Lookback) (words : List Pushed) : Lookback :=
  words.foldl (fun history word => history.push word.text word.start word.braceDepth) history

/-- All that was pushed, each under its number. -/
def pushedLabels (words : List Pushed) : List Label := words.mapIdx fun seq word => word.label seq

/-- The label numbered `seq`, found by counting from the oldest label kept. -/
def fromOldest? (history : Lookback) (seq : Nat) : Option Label :=
  history.recent.getLast?.bind fun oldest =>
    if oldest.seq ≤ seq then history.recent.reverse[seq - oldest.seq]? else none

section Pushes

variable (capacity : Nat) (words : List Pushed)

theorem pushAll_concat (history : Lookback) (word : Pushed) :
    history.pushAll (words ++ [word]) =
      (history.pushAll words).push word.text word.start word.braceDepth := by
  simp [pushAll]

theorem capacity_pushAll : ((empty capacity).pushAll words).capacity = max capacity 2 := by
  induction words using List.reverseRecOn with
  | nil => rfl
  | append_singleton words word ih =>
      rw [pushAll_concat]
      exact ih

theorem length_pushedLabels : (pushedLabels words).length = words.length := List.length_mapIdx

theorem getElem?_pushedLabels (seq : Nat) : (pushedLabels words)[seq]? = words[seq]?.map (·.label seq) :=
  List.getElem?_mapIdx

/-- What was pushed under a number, said with the number in range. -/
theorem ite_getElem?_pushedLabels (within : Prop) [Decidable within] (seq : Nat) :
    (if within then (pushedLabels words)[seq]? else none) =
      if within ∧ seq < words.length then words[seq]?.map (·.label seq) else none := by
  rw [getElem?_pushedLabels]
  by_cases hpushed : seq < words.length
  · simp only [hpushed, and_true]
  · rw [List.getElem?_eq_none (Nat.not_lt.mp hpushed), Option.map_none, ite_self, ite_self]

theorem remembers_pushAll : ((empty capacity).pushAll words).Remembers (pushedLabels words) := by
  induction words using List.reverseRecOn with
  | nil => exact remembers_empty capacity
  | append_singleton words word ih =>
      have hpush := ih.push word.text word.start word.braceDepth
      rw [length_pushedLabels] at hpush
      rw [pushAll_concat, pushedLabels, List.mapIdx_concat]
      exact hpush

end Pushes

/-! ## The window -/

section Window

variable {history : Lookback} {labels : List Label}

theorem Remembers.reverse_recent (hhistory : history.Remembers labels) :
    history.recent.reverse = labels.drop (labels.length - history.capacity) := by
  rw [hhistory.recent_eq, List.reverse_take, List.reverse_reverse, List.length_reverse]

theorem Remembers.length_recent (hhistory : history.Remembers labels) :
    history.recent.length = min history.capacity labels.length := by
  rw [hhistory.recent_eq, List.length_take, List.length_reverse]

theorem Remembers.seq_reverse_recent (hhistory : history.Remembers labels) :
    history.recent.reverse.map Label.seq =
      List.range' (labels.length - history.capacity) (min history.capacity labels.length) := by
  apply List.ext_getElem
  · simp [hhistory.length_recent]
  · intro i hleft hright
    have hi : i < history.recent.reverse.length := by simpa using hleft
    have hlabel : labels[labels.length - history.capacity + i]? = some history.recent.reverse[i] := by
      rw [← List.getElem?_drop, ← hhistory.reverse_recent]
      exact List.getElem?_eq_getElem hi
    rw [List.getElem_map, List.getElem_range', hhistory.numbered _ _ hlabel, Nat.one_mul]

/-- A push makes room by dropping the oldest label just if there is none left. -/
theorem Remembers.recent_push (hhistory : history.Remembers labels) (hroom : 0 < history.capacity)
    (text : String) (start : Position) (braceDepth : Nat) :
    (history.push text start braceDepth).recent = ⟨history.next, text, start, braceDepth⟩ ::
      if history.recent.length = history.capacity then history.recent.dropLast else history.recent := by
  obtain ⟨room, hcapacity⟩ := Nat.exists_eq_succ_of_ne_zero hroom.ne'
  have hlength := hhistory.length_recent
  rw [Lookback.push]
  dsimp only
  rw [hcapacity, List.take_succ_cons, List.cons_inj_right]
  split_ifs with hfull
  · rw [List.dropLast_eq_take, hfull]
    rfl
  · apply List.take_of_length_le
    omega

/-- Counting from the oldest label finds what counting from the newest finds. -/
theorem Remembers.get?_eq_fromOldest? (hhistory : history.Remembers labels) (seq : Nat) :
    history.get? seq = history.fromOldest? seq := by
  rw [hhistory.get?_eq, fromOldest?, ← List.head?_reverse, hhistory.reverse_recent, List.head?_drop]
  cases holdest : labels[labels.length - history.capacity]? with
  | none =>
      -- nothing is kept, so either nothing was pushed or there is no room at all
      have hempty := List.getElem?_eq_none_iff.mp holdest
      rw [Option.bind_none, ite_eq_right_iff]
      intro hwithin
      exact List.getElem?_eq_none (by omega)
  | some oldest =>
      rw [Option.bind_some, hhistory.numbered _ _ holdest, List.getElem?_drop]
      refine if_ctx_congr (by omega) (fun hwithin => ?_) fun _ => rfl
      rw [Nat.add_sub_cancel' hwithin]

theorem Remembers.nameAfter_of_isSome (hhistory : history.Remembers labels) {seq : Nat}
    (hfound : (history.get? seq).isSome) : history.nameAfter seq = history.get? (seq + 1) := by
  by_cases hwithin : labels.length ≤ seq + history.capacity
  · rw [hhistory.nameAfter_eq, hhistory.get?_eq, if_pos hwithin, if_pos (by omega)]
  · rw [hhistory.get?_eq, if_neg hwithin] at hfound
    cases hfound

theorem Remembers.nameAfter_of_eq_none (hhistory : history.Remembers labels) {seq : Nat}
    (hmissing : history.get? seq = none) : history.nameAfter seq = none := by
  rw [hhistory.nameAfter_eq, ite_eq_right_iff]
  intro hwithin
  rw [hhistory.get?_eq, if_pos hwithin, List.getElem?_eq_none_iff] at hmissing
  exact List.getElem?_eq_none (Nat.le_succ_of_le hmissing)

end Window

/-! ## Both ways to look up -/

/-- The two ways to look up agree with what was pushed. With `count` pushes made and `kept` of them
within the window:
* the numbers run up to `count`, and the window holds the last `kept` labels, numbered one by one;
* a further push drops the oldest label just if the lookback is full;
* the label numbered `seq` is found just if it is within the window, from either end of it;
* the label after it is found just if both are within the window;
* so the label after is the one under the next number if `seq` is found, and is not found otherwise. -/
theorem lookups_eq_pushed (capacity : Nat) (words : List Pushed) :
    let history := (empty capacity).pushAll words
    let count := words.length
    let kept := min count (max capacity 2)
    history.next = count ∧
    history.recent.reverse = (pushedLabels words).drop (count - kept) ∧
    history.recent.length = kept ∧
    history.recent.reverse.map Label.seq = List.range' (count - kept) kept ∧
    (∀ word : Pushed, (history.push word.text word.start word.braceDepth).recent =
      word.label count :: if kept = max capacity 2 then history.recent.dropLast else history.recent) ∧
    (∀ seq, history.get? seq =
      if count - kept ≤ seq ∧ seq < count then words[seq]?.map (·.label seq) else none) ∧
    (∀ seq, history.fromOldest? seq = history.get? seq) ∧
    (∀ seq, history.nameAfter seq =
      if count - kept ≤ seq ∧ seq + 1 < count then words[seq + 1]?.map (·.label (seq + 1))
      else none) ∧
    (∀ seq, (history.get? seq).isSome → history.nameAfter seq = history.get? (seq + 1)) ∧
    (∀ seq, history.get? seq = none → history.nameAfter seq = none) := by
  intro history count kept
  have hhistory : history.Remembers (pushedLabels words) := remembers_pushAll capacity words
  have hcapacity : history.capacity = max capacity 2 := capacity_pushAll capacity words
  have hcount : (pushedLabels words).length = count := length_pushedLabels words
  have hnext : history.next = count := hhistory.next_eq.trans hcount
  have hlength : history.recent.length = kept := by
    rw [hhistory.length_recent, hcapacity, hcount, Nat.min_comm]
  have hstart : (pushedLabels words).length - history.capacity = count - kept := by
    rw [hcapacity, hcount]
    omega
  refine ⟨hnext, hstart ▸ hhistory.reverse_recent, hlength, ?_, ?_, ?_,
    fun seq => (hhistory.get?_eq_fromOldest? seq).symm, ?_, fun _ => hhistory.nameAfter_of_isSome,
    fun _ => hhistory.nameAfter_of_eq_none⟩
  · rw [hhistory.seq_reverse_recent, hstart, ← hhistory.length_recent, hlength]
  · intro word
    rw [hhistory.recent_push (by omega), hnext, hlength, hcapacity]
    rfl
  · intro seq
    rw [hhistory.get?_eq, ite_getElem?_pushedLabels]
    exact if_congr (by omega) rfl rfl
  · intro seq
    rw [hhistory.nameAfter_eq, ite_getElem?_pushedLabels]
    exact if_congr (by omega) rfl rfl

example :
    let history := (empty 0).pushAll
      [⟨"class", ⟨1, 6⟩, 0⟩, ⟨"Foo", ⟨1, 12⟩, 0⟩, ⟨"extends", ⟨1, 16⟩, 0⟩]
    (history.nameAfter 1).map (·.text) = some "extends" ∧ history.nameAfter 0 = none := by decide

end PhpOutline.Lookback
