import Mathlib.Data.List.Nodup

/-!
# Lists with distinct keys

The fields of an object and the entries of a disk are lists of pairs in which each key stands once. What
is found under a key is then the one value that stands with it, and the order of the pairs has no part
in it.
-/

namespace PhpOutline

variable {κ α : Type} [BEq κ] [LawfulBEq κ] {pairs others : List (κ × α)}

theorem lookup_eq_some_iff_mem (hkeys : (pairs.map Prod.fst).Nodup) {key : κ} {value : α} :
    pairs.lookup key = some value ↔ (key, value) ∈ pairs := by
  induction pairs with
  | nil => simp
  | cons pair pairs ih =>
      obtain ⟨hfirst, hkeys⟩ := List.nodup_cons.mp hkeys
      rw [List.lookup_cons, List.mem_cons, ← ih hkeys]
      by_cases hkey : key = pair.1
      · subst hkey
        have hother : pairs.lookup pair.1 ≠ some value := by
          rw [Ne, ih hkeys]
          exact fun hmem => hfirst (List.mem_map.mpr ⟨_, hmem, rfl⟩)
        simp [hother, Prod.ext_iff, eq_comm]
      · rw [beq_eq_false_iff_ne.mpr hkey]
        simp [hkey, Prod.ext_iff]

theorem lookup_eq_of_mem_iff (hkeys : (pairs.map Prod.fst).Nodup) (hothers : (others.map Prod.fst).Nodup)
    {key : κ} (hmem : ∀ value, (key, value) ∈ pairs ↔ (key, value) ∈ others) :
    pairs.lookup key = others.lookup key := by
  refine Option.ext fun value => ?_
  rw [lookup_eq_some_iff_mem hkeys, lookup_eq_some_iff_mem hothers, hmem]

end PhpOutline
