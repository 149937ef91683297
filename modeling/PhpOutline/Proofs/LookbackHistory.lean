import Mathlib.Data.List.Induction
import PhpOutline.Lookback

/-!
# The lookback and the whole history

A lookback forgets. Beside it stands the list of all labels that were ever pushed, in order, and what
the lookback answers is said in terms of that list: the labels within reach, which are the last
`capacity` ones, are found under their numbers, and the others are not found at all.
-/

namespace PhpOutline.Lookback

/-- Every label carries its place in the list. -/
def Numbered (labels : List Label) : Prop :=
  ∀ (i : Nat) (label : Label), labels[i]? = some label → label.seq = i

theorem numbered_nil : Numbered [] := by
  intro i label hlabel
  simp at hlabel

theorem numbered_concat_iff {labels : List Label} {label : Label} :
    Numbered (labels ++ [label]) ↔ Numbered labels ∧ label.seq = labels.length := by
  constructor
  · intro hnumbered
    refine ⟨fun i other hother => hnumbered i other ?_, hnumbered _ label (by simp)⟩
    have hlt : i < labels.length := (List.getElem?_eq_some_iff.mp hother).1
    rw [List.getElem?_append_left hlt, hother]
  · rintro ⟨hnumbered, hseq⟩ i other hother
    by_cases hlt : i < labels.length
    · rw [List.getElem?_append_left hlt] at hother
      exact hnumbered i other hother
    · obtain ⟨hbound, hget⟩ := List.getElem?_eq_some_iff.mp hother
      have hi : i = labels.length := by
        simp only [List.length_append, List.length_singleton] at hbound
        omega
      subst hi
      simp only [List.getElem_concat_length] at hget
      rw [← hget, hseq]

/-- The labels are all that were ever pushed, and the lookback holds the last of them. -/
structure Remembers (history : Lookback) (labels : List Label) : Prop where
  numbered : Numbered labels
  next_eq : history.next = labels.length
  recent_eq : history.recent = labels.reverse.take history.capacity

theorem remembers_empty (capacity : Nat) : (empty capacity).Remembers [] :=
  ⟨numbered_nil, rfl, by simp [empty]⟩

variable {history : Lookback} {labels : List Label}

theorem Remembers.push (hhistory : history.Remembers labels) (text : String) (start : Position)
    (braceDepth : Nat) :
    (history.push text start braceDepth).Remembers
      (labels ++ [⟨labels.length, text, start, braceDepth⟩]) where
  numbered := numbered_concat_iff.mpr ⟨hhistory.numbered, rfl⟩
  next_eq := by simp [Lookback.push, hhistory.next_eq]
  recent_eq := by
    cases hcapacity : history.capacity with
    | zero => simp [Lookback.push, hcapacity]
    | succ room =>
        -- dropping the oldest before or after the push makes no difference
        simp [Lookback.push, hcapacity, hhistory.next_eq, hhistory.recent_eq, List.take_take]

/-- The walk back from the newest of the labels within reach: it finds the label after the one
numbered `seq`, or `later` if that is the newest. -/
theorem labelAfter_take_reverse (hnumbered : Numbered labels) (seq reach : Nat)
    (later : Option Label) :
    labelAfter seq later (labels.reverse.take reach) =
      if seq < labels.length ∧ labels.length ≤ seq + reach then labels[seq + 1]?.or later
      else none := by
  induction labels using List.reverseRecOn generalizing reach later with
  | nil => simp [labelAfter]
  | append_singleton labels label ih =>
      obtain ⟨hnumbered, hseq⟩ := numbered_concat_iff.mp hnumbered
      cases reach with
      | zero =>
          rw [if_neg (by simp only [List.length_append, List.length_singleton]; omega)]
          simp [labelAfter]
      | succ reach =>
          rw [List.reverse_concat, List.take_succ_cons, labelAfter, hseq, ih hnumbered]
          simp only [List.length_append, List.length_singleton]
          by_cases hnewest : labels.length = seq
          · subst hnewest
            simp
          · rw [if_neg hnewest]
            by_cases hwithin : seq < labels.length ∧ labels.length ≤ seq + reach
            · have hget : labels[seq + 1]?.or (some label) = (labels ++ [label])[seq + 1]? := by
                by_cases hlast : seq + 1 < labels.length
                · simp [List.getElem?_append_left, hlast]
                · have hend : seq + 1 = labels.length := by omega
                  simp [hend]
              have hlt : seq + 1 < (labels ++ [label]).length := by
                simp only [List.length_append, List.length_singleton]
                omega
              rw [if_pos hwithin, if_pos (by omega), hget, List.getElem?_eq_getElem hlt, Option.some_or]
            · rw [if_neg hwithin, if_neg (by omega)]

/-- The label after the one numbered `seq` is found exactly if the latter is within reach. -/
theorem Remembers.nameAfter_eq (hhistory : history.Remembers labels) (seq : Nat) :
    history.nameAfter seq =
      if labels.length ≤ seq + history.capacity then labels[seq + 1]? else none := by
  rw [nameAfter, hhistory.recent_eq, labelAfter_take_reverse hhistory.numbered, Option.or_none]
  by_cases hlt : seq < labels.length
  · simp only [hlt, true_and]
  · have hnone : labels[seq + 1]? = none := List.getElem?_eq_none (by omega)
    simp [hlt, hnone]

theorem Remembers.get?_eq (hhistory : history.Remembers labels) (seq : Nat) :
    history.get? seq = if labels.length ≤ seq + history.capacity then labels[seq]? else none := by
  rw [get?, hhistory.next_eq, hhistory.recent_eq, List.getElem?_take]
  by_cases hlt : seq < labels.length
  · have hplace : labels.reverse[labels.length - 1 - seq]? = labels[seq]? := by
      rw [List.getElem?_reverse (by omega)]
      congr 1
      omega
    rw [if_pos hlt, hplace]
    exact if_congr (by omega) rfl rfl
  · have hnone : labels[seq]? = none := List.getElem?_eq_none (by omega)
    rw [if_neg hlt, hnone, ite_self]

end PhpOutline.Lookback
