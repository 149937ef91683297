/-!
# Values by URI

A map from URIs to values, held as a list with one entry for each URI. The order of the entries
carries no meaning.
-/

namespace PhpOutline

structure UriMap (α : Type) where
  entries : List (String × α)
deriving DecidableEq, Repr, Inhabited

namespace UriMap

variable {α : Type}

def empty : UriMap α := ⟨[]⟩

def get? (map : UriMap α) (uri : String) : Option α := map.entries.lookup uri

def contains (map : UriMap α) (uri : String) : Bool := (map.get? uri).isSome

def erase (map : UriMap α) (uri : String) : UriMap α := ⟨map.entries.filter (·.1 != uri)⟩

def insert (map : UriMap α) (uri : String) (value : α) : UriMap α :=
  ⟨(map.erase uri).entries ++ [(uri, value)]⟩

/-! ## Look-ups after changes -/

theorem get?_empty (uri : String) : (empty : UriMap α).get? uri = none := rfl

theorem get?_erase_self (map : UriMap α) (uri : String) : (map.erase uri).get? uri = none := by
  simp only [get?, erase, List.lookup_eq_none_iff, List.mem_filter, bne_iff_ne]
  intro entry hentry
  simpa using Ne.symm hentry.2

theorem get?_erase_of_ne {uri other : String} (h : other ≠ uri) (map : UriMap α) :
    (map.erase uri).get? other = map.get? other := by
  obtain ⟨entries⟩ := map
  simp only [get?, erase]
  induction entries with
  | nil => rfl
  | cons entry rest ih =>
    obtain ⟨key, value⟩ := entry
    by_cases hkey : key = uri
    · subst hkey
      simpa [List.lookup_cons, beq_false_of_ne h] using ih
    · simp [hkey, List.lookup_cons, ih]

theorem get?_insert_self (map : UriMap α) (uri : String) (value : α) :
    (map.insert uri value).get? uri = some value := by
  have herased := map.get?_erase_self uri
  simp only [get?, insert, List.lookup_append] at herased ⊢
  simp [herased]

theorem get?_insert_of_ne {uri other : String} (h : other ≠ uri) (map : UriMap α) (value : α) :
    (map.insert uri value).get? other = map.get? other := by
  have herased := map.get?_erase_of_ne h
  simp only [get?, insert, List.lookup_append] at herased ⊢
  simp [herased, List.lookup_cons, beq_false_of_ne h]

def size (map : UriMap α) : Nat := map.entries.length

end UriMap

end PhpOutline
