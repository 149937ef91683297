import Mathlib.Algebra.Group.Nat.Defs
import PhpOutline.Config
import PhpOutline.Proofs.DistinctKeys

/-!
# Settings as an object gives them

The settings of a session and its scan options stand in one object, each under its key and in its form.
Main statement: an object all of whose settings are valid gives the ones it has, with the defaults for
the others, and everything else gives the defaults only.
-/

namespace PhpOutline

/-! ## Forms of values -/

/-- How values are written, and which of them can be. -/
structure Form (α : Type) where
  write : α → Json
  fits : α → Prop := fun _ => True

namespace Form

def flag : Form Bool where
  write := .bool

def count : Form Nat where
  write := .nat
  fits n := n < 2 ^ 64

def names : Form (List String) where
  write strings := .arr (strings.map .str)

variable {α : Type} (form : Form α)

def Valid (json : Json) : Prop := ∃ value, json = form.write value ∧ form.fits value

/-- The value of a setting: the one under its key, or the default if there is nothing under it. -/
def Gives (fields : List (String × Json)) (key : String) (fallback value : α) : Prop :=
  (fields.lookup key = some (form.write value) ∧ form.fits value) ∨
    (fields.lookup key = none ∧ value = fallback)

/-- The function reads exactly the values that are written in the form. -/
def IsReadBy (read : Json → Option α) : Prop :=
  ∀ json value, read json = some value ↔ json = form.write value ∧ form.fits value

variable {form} {fields : List (String × Json)} {key : String} {fallback value : α}

theorem exists_gives_iff (fallback : α) : (∃ value, form.Gives fields key fallback value) ↔
    ∀ json, fields.lookup key = some json → form.Valid json := by
  constructor
  · rintro ⟨value, ⟨hfield, hfits⟩ | ⟨hmissing, -⟩⟩ json hjson
    · obtain rfl : form.write value = json := Option.some.inj (hfield.symm.trans hjson)
      exact ⟨value, rfl, hfits⟩
    · rw [hmissing] at hjson
      cases hjson
  · intro hvalid
    cases hfield : fields.lookup key with
    | none => exact ⟨fallback, Or.inr ⟨hfield, rfl⟩⟩
    | some json =>
        obtain ⟨value, rfl, hfits⟩ := hvalid json hfield
        exact ⟨value, Or.inl ⟨hfield, hfits⟩⟩

theorem IsReadBy.withDefault?_eq_some_iff {read : Json → Option α} (hread : form.IsReadBy read) :
    (Json.obj fields).withDefault? key read fallback = some value ↔
      form.Gives fields key fallback value := by
  have hfield : (Json.obj fields).field? key = fields.lookup key := rfl
  rw [Json.withDefault?, hfield, Gives]
  cases fields.lookup key with
  | none =>
      rw [Option.some_inj]
      constructor
      · rintro rfl
        exact Or.inr ⟨rfl, rfl⟩
      · rintro (⟨hfield, -⟩ | ⟨-, rfl⟩)
        · cases hfield
        · rfl
  | some json =>
      change read json = some value ↔ _
      rw [hread, Option.some_inj]
      constructor
      · exact Or.inl
      · rintro (hfield | ⟨hmissing, -⟩)
        · exact hfield
        · cases hmissing

end Form

theorem isReadBy_bool? : Form.flag.IsReadBy Json.bool? := by
  intro json value
  cases json <;> simp [Json.bool?, Form.flag]

theorem isReadBy_nat64? : Form.count.IsReadBy Json.nat64? := by
  intro json value
  cases json with
  | int number =>
      simp only [Json.nat64?, Json.natUpTo?, Json.intBetween?, Form.count, Json.nat, Json.int.injEq]
      split_ifs with hbounds
      · rw [Option.map_some, Option.some_inj]
        omega
      · rw [Option.map_none]
        refine iff_of_false nofun fun ⟨hnumber, hsmall⟩ => hbounds ?_
        omega
  | _ => simp [Json.nat64?, Json.natUpTo?, Json.intBetween?, Form.count, Json.nat]

theorem mapM_string?_eq_some_iff {items : List Json} {strings : List String} :
    items.mapM Json.string? = some strings ↔ items = strings.map .str := by
  induction items generalizing strings with
  | nil => cases strings <;> simp
  | cons item items ih =>
      rw [List.mapM_cons, Option.bind_eq_bind, Option.bind_eq_some_iff]
      cases item with
      | str text =>
          simp only [Json.string?, Option.some_inj, exists_eq_left', Option.bind_eq_bind,
            Option.bind_eq_some_iff, ih, Option.pure_def]
          constructor
          · rintro ⟨rest, rfl, rfl⟩
            rfl
          · intro hitems
            obtain ⟨first, rest, rfl, hfirst, rfl⟩ := List.map_eq_cons_iff.mp hitems.symm
            obtain rfl := Json.str.inj hfirst
            exact ⟨rest, rfl, rfl⟩
      | _ => cases strings <;> simp [Json.string?]

theorem isReadBy_names : Form.names.IsReadBy (Json.list? Json.string?) := by
  intro json value
  cases json with
  | arr items => simp [Json.list?, Json.items?, Form.names, mapM_string?_eq_some_iff]
  | _ => simp [Json.list?, Json.items?, Form.names]

/-! ## All settings -/

namespace Config

/-- The keys of the settings, each with the values that are valid under it. -/
def settings : List (String × (Json → Prop)) :=
  [("distinctInterfaces", Form.flag.Valid), ("lookbackCapacity", Form.count.Valid),
    ("chunkSize", Form.count.Valid), ("indexWorkspace", Form.flag.Valid),
    ("diagnostics", Form.flag.Valid), ("excludeDirs", Form.names.Valid),
    ("maxWorkspaceSymbols", Form.count.Valid)]

/-- Each setting among the fields of an object has a valid value. -/
def AllValid (fields : List (String × Json)) : Prop :=
  ∀ setting ∈ settings, ∀ json, fields.lookup setting.1 = some json → setting.2 json

/-- The settings are those among the fields of an object, and the defaults otherwise. -/
structure GivenBy (config : Config) (fields : List (String × Json)) : Prop where
  distinctInterfaces :
    Form.flag.Gives fields "distinctInterfaces" true config.scan.distinctInterfaces
  lookbackCapacity : Form.count.Gives fields "lookbackCapacity" 128 config.scan.lookbackCapacity
  chunkSize : Form.count.Gives fields "chunkSize" 8192 config.scan.chunkSize
  indexWorkspace : Form.flag.Gives fields "indexWorkspace" true config.indexWorkspace
  diagnostics : Form.flag.Gives fields "diagnostics" true config.diagnostics
  excludeDirs :
    Form.names.Gives fields "excludeDirs" ["vendor", "node_modules"] config.excludeDirs
  maxWorkspaceSymbols : Form.count.Gives fields "maxWorkspaceSymbols" 200 config.maxWorkspaceSymbols

/-- The numbers are such that they can be written. -/
structure Fits (config : Config) : Prop where
  lookbackCapacity : config.scan.lookbackCapacity < 2 ^ 64
  chunkSize : config.scan.chunkSize < 2 ^ 64
  maxWorkspaceSymbols : config.maxWorkspaceSymbols < 2 ^ 64

variable {fields : List (String × Json)} {config : Config}

theorem allValid_iff_exists : AllValid fields ↔ ∃ config : Config, config.GivenBy fields := by
  simp only [AllValid, settings, List.forall_mem_cons]
  constructor
  · rintro ⟨h₁, h₂, h₃, h₄, h₅, h₆, h₇, -⟩
    obtain ⟨_, h₁⟩ := (Form.exists_gives_iff true).mpr h₁
    obtain ⟨_, h₂⟩ := (Form.exists_gives_iff 128).mpr h₂
    obtain ⟨_, h₃⟩ := (Form.exists_gives_iff 8192).mpr h₃
    obtain ⟨_, h₄⟩ := (Form.exists_gives_iff true).mpr h₄
    obtain ⟨_, h₅⟩ := (Form.exists_gives_iff true).mpr h₅
    obtain ⟨_, h₆⟩ := (Form.exists_gives_iff ["vendor", "node_modules"]).mpr h₆
    obtain ⟨_, h₇⟩ := (Form.exists_gives_iff 200).mpr h₇
    exact ⟨⟨⟨_, _, _⟩, _, _, _, _⟩, h₁, h₂, h₃, h₄, h₅, h₆, h₇⟩
  · rintro ⟨config, h₁, h₂, h₃, h₄, h₅, h₆, h₇⟩
    exact ⟨(Form.exists_gives_iff _).mp ⟨_, h₁⟩, (Form.exists_gives_iff _).mp ⟨_, h₂⟩,
      (Form.exists_gives_iff _).mp ⟨_, h₃⟩, (Form.exists_gives_iff _).mp ⟨_, h₄⟩,
      (Form.exists_gives_iff _).mp ⟨_, h₅⟩, (Form.exists_gives_iff _).mp ⟨_, h₆⟩,
      (Form.exists_gives_iff _).mp ⟨_, h₇⟩, nofun⟩

theorem ofJson?_obj_eq_some_iff : ofJson? (.obj fields) = some config ↔ config.GivenBy fields := by
  simp only [ofJson?, ScanOptions.ofObject?, Option.bind_eq_bind, Option.pure_def,
    Option.bind_eq_some_iff, isReadBy_bool?.withDefault?_eq_some_iff,
    isReadBy_nat64?.withDefault?_eq_some_iff, isReadBy_names.withDefault?_eq_some_iff, Option.some_inj]
  constructor
  · rintro ⟨_, ⟨_, h₁, _, h₂, _, h₃, rfl⟩, _, h₄, _, h₅, _, h₆, _, h₇, rfl⟩
    exact ⟨h₁, h₂, h₃, h₄, h₅, h₆, h₇⟩
  · rintro ⟨h₁, h₂, h₃, h₄, h₅, h₆, h₇⟩
    exact ⟨_, ⟨_, h₁, _, h₂, _, h₃, rfl⟩, _, h₄, _, h₅, _, h₆, _, h₇, rfl⟩

/-- Only what stands under the keys of settings matters. -/
theorem ofJson?_congr {others : List (String × Json)}
    (hsame : ∀ setting ∈ settings, fields.lookup setting.1 = others.lookup setting.1) :
    ofJson? (.obj fields) = ofJson? (.obj others) := by
  simp only [settings, List.forall_mem_cons] at hsame
  obtain ⟨h₁, h₂, h₃, h₄, h₅, h₆, h₇, -⟩ := hsame
  simp only [ofJson?, ScanOptions.ofObject?, Json.withDefault?, Json.field?, Json.fields?,
    Option.bind_some, h₁, h₂, h₃, h₄, h₅, h₆, h₇]

theorem Fits.ofJson?_toJson (hfits : config.Fits) : ofJson? config.toJson = some config := by
  apply ofJson?_obj_eq_some_iff.mpr
  exact {
    distinctInterfaces := Or.inl ⟨rfl, trivial⟩
    lookbackCapacity := Or.inl ⟨rfl, hfits.lookbackCapacity⟩
    chunkSize := Or.inl ⟨rfl, hfits.chunkSize⟩
    indexWorkspace := Or.inl ⟨rfl, trivial⟩
    diagnostics := Or.inl ⟨rfl, trivial⟩
    excludeDirs := Or.inl ⟨rfl, trivial⟩
    maxWorkspaceSymbols := Or.inl ⟨rfl, hfits.maxWorkspaceSymbols⟩ }

theorem ofSettings_of_ofJson? {json : Json} (hjson : ofJson? json = some config) :
    ofSettings (some json) = config := by
  rw [ofSettings, Option.bind_some, hjson, Option.getD_some]

theorem ofSettings_eq_default {json : Json} (hjson : ∀ config, ofJson? json ≠ some config) :
    ofSettings (some json) = {} := by
  rw [ofSettings, Option.bind_some, Option.eq_none_iff_forall_ne_some.mpr hjson, Option.getD_none]

end Config

/-! ## All or nothing -/

/-- **All settings or none.** Whatever JSON value a session is given:
* if it is an object in which each setting has a valid value, those it has are as it gives them, and the
  others have their defaults;
* if it is no object, or has an invalid value under the key of any setting, all settings have their
  defaults;
* neither the order of the fields nor those under other keys matter;
* the settings that a configuration is written as are read as that configuration. -/
theorem Config.ofSettings_all_or_none (json : Json) :
    (∀ fields, json = .obj fields → AllValid fields → (ofSettings (some json)).GivenBy fields) ∧
    ((∀ fields, json = .obj fields → ∃ setting ∈ settings, ∃ value,
        fields.lookup setting.1 = some value ∧ ¬setting.2 value) →
      ofSettings (some json) = {}) ∧
    (∀ fields others, json = .obj fields → (fields.map Prod.fst).Nodup →
      (others.map Prod.fst).Nodup →
      (∀ setting ∈ settings, ∀ value, (setting.1, value) ∈ fields ↔ (setting.1, value) ∈ others) →
      ofSettings (some json) = ofSettings (some (.obj others))) ∧
    (∀ config : Config, config.Fits → ofSettings (some config.toJson) = config) ∧
    ofSettings none = {} := by
  refine ⟨?_, ?_, ?_, fun config hfits => ofSettings_of_ofJson? hfits.ofJson?_toJson, rfl⟩
  · rintro fields rfl hvalid
    obtain ⟨config, hconfig⟩ := allValid_iff_exists.mp hvalid
    rwa [ofSettings_of_ofJson? (ofJson?_obj_eq_some_iff.mpr hconfig)]
  · intro hinvalid
    refine ofSettings_eq_default fun config hconfig => ?_
    cases json with
    | obj fields =>
        obtain ⟨setting, hsetting, value, hfield, hvalue⟩ := hinvalid fields rfl
        have hvalid := allValid_iff_exists.mpr ⟨config, ofJson?_obj_eq_some_iff.mp hconfig⟩
        exact hvalue (hvalid setting hsetting value hfield)
    | _ => cases hconfig
  · rintro fields others rfl hfields hothers hsame
    have hlookup : ∀ setting ∈ settings, fields.lookup setting.1 = others.lookup setting.1 :=
      fun setting hsetting => lookup_eq_of_mem_iff hfields hothers (hsame setting hsetting)
    rw [ofSettings, ofSettings, Option.bind_some, Option.bind_some, ofJson?_congr hlookup]

/-- An unknown key does no harm, and a number of 65 bits spoils a setting beside it. -/
theorem Config.ofSettings_all_or_none_too_large :
    (ofSettings (some (.obj [("tabSize", .null), ("chunkSize", .nat 512),
        ("diagnostics", .bool false)]))).GivenBy
      [("tabSize", .null), ("chunkSize", .nat 512), ("diagnostics", .bool false)] ∧
    ofSettings (some (.obj [("chunkSize", .nat (2 ^ 64)), ("diagnostics", .bool false)])) = {} := by
  constructor
  · refine (ofSettings_all_or_none _).1 _ rfl (allValid_iff_exists.mpr
      ⟨{ scan := { chunkSize := 512 }, diagnostics := false }, ?_⟩)
    exact ⟨Or.inr ⟨rfl, rfl⟩, Or.inr ⟨rfl, rfl⟩, Or.inl ⟨rfl, show 512 < 2 ^ 64 by decide⟩,
      Or.inr ⟨rfl, rfl⟩, Or.inl ⟨rfl, trivial⟩, Or.inr ⟨rfl, rfl⟩, Or.inr ⟨rfl, rfl⟩⟩
  · refine (ofSettings_all_or_none _).2.1 fun fields hfields => ?_
    obtain rfl := Json.obj.inj hfields
    refine ⟨("chunkSize", Form.count.Valid), by simp [settings], .nat (2 ^ 64), rfl, ?_⟩
    rintro ⟨value, hvalue, hfits⟩
    have hsame : (2 ^ 64 : Nat) = value := Int.ofNat.inj (Json.int.inj hvalue)
    exact absurd hfits (hsame ▸ Nat.lt_irrefl _)

end PhpOutline
