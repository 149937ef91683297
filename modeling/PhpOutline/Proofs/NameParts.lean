import Mathlib.Data.List.TakeWhile
import PhpOutline.Proofs.SearchOrder

/-!
# Searching for a part of a name

A search compares the query with the name after both have been put in lower case. The lower case of a
part of a name is a part of the lower case of the name, with one exception: whether a capital sigma
becomes a final sigma depends on the letters around it, and a query that begins or ends near a sigma
lacks letters that the name has. So there are queries that do not find a name which contains them as
they stand. They are known from the query alone.
-/

namespace PhpOutline

namespace Case

/-! ## The form of a sigma -/

/-- The first character that is not passed over when a letter is looked for. -/
def nearest (text : List Char) : Option Char := text.find? (!isIgnorable ·)

theorem meetsCased_eq (text : List Char) : meetsCased text = (nearest text).any isCased := by
  rw [meetsCased, nearest, List.find?_not_eq_head?_dropWhile]
  cases text.dropWhile isIgnorable <;> rfl

theorem nearest_append (first second : List Char) :
    nearest (first ++ second) = (nearest first).or (nearest second) :=
  List.find?_append

/-- The form of a sigma between two characters, either of which may be missing. -/
def sigmaBetween (before after : Option Char) : Char :=
  if before.any isCased && !after.any isCased then 'ς' else 'σ'

theorem lowerSigma_eq (before after : List Char) :
    lowerSigma before after = sigmaBetween (nearest before) (nearest after) := by
  rw [lowerSigma, meetsCased_eq, meetsCased_eq, sigmaBetween]

/-- The form of a sigma is settled by the characters around it: before it stands what is not a letter,
or after it stands a letter, or at least there is something on either side. -/
def Settled (before after : Option Char) : Prop :=
  before.any (!isCased ·) ∨ after.any isCased ∨ before.isSome ∧ after.isSome

instance (before after : Option Char) : Decidable (Settled before after) :=
  inferInstanceAs (Decidable (_ ∨ _ ∨ _ ∧ _))

theorem Settled.sigmaBetween_eq {before after : Option Char} (hsettled : Settled before after)
    (further later : Option Char) :
    sigmaBetween (before.or further) (after.or later) = sigmaBetween before after := by
  cases before with
  | none => cases after <;> simp_all [Settled, sigmaBetween]
  | some c => cases after <;> simp_all [Settled, sigmaBetween]

theorem not_settled_iff {before after : Option Char} :
    ¬Settled before after ↔
      (before = none ∧ after.any isCased = false) ∨ (before.any isCased ∧ after = none) := by
  unfold Settled
  cases before with
  | none => simp
  | some c => cases after <;> simp

/-! ## The lower case of a part of a text -/

/-- The lower case of a text between two others, the first of which is given backwards. -/
def lowercaseBetween (before : List Char) : List Char → List Char → List Char
  | [], _ => []
  | c :: rest, after =>
    (if c = 'Σ' then [lowerSigma before (rest ++ after)] else lowerChar c) ++
      lowercaseBetween (c :: before) rest after

theorem lowercaseAfter_append (before text after : List Char) :
    lowercaseAfter before (text ++ after) =
      lowercaseBetween before text after ++ lowercaseAfter (text.reverse ++ before) after := by
  induction text generalizing before with
  | nil => rfl
  | cons c rest ih =>
      rw [List.cons_append, lowercaseAfter, ih, lowercaseBetween, List.append_assoc]
      simp

theorem lowercaseAfter_eq (before text : List Char) :
    lowercaseAfter before text = lowercaseBetween before text [] := by
  have happend := lowercaseAfter_append before text []
  rwa [List.append_nil, lowercaseAfter, List.append_nil] at happend

theorem length_lowercaseBetween (before before' text after after' : List Char) :
    (lowercaseBetween before text after).length = (lowercaseBetween before' text after').length := by
  induction text generalizing before before' with
  | nil => rfl
  | cons c rest ih =>
      rw [lowercaseBetween, lowercaseBetween, List.length_append, List.length_append,
        ih (c :: before) (c :: before')]
      split_ifs <;> rfl

/-- The sigmas of a text have the same forms between one pair of texts as between another. -/
def SameForms (text before after before' after' : List Char) : Prop :=
  ∀ first rest, text = first ++ 'Σ' :: rest →
    lowerSigma (first.reverse ++ before) (rest ++ after) =
      lowerSigma (first.reverse ++ before') (rest ++ after')

theorem sameForms_cons_iff {c : Char} {rest before after before' after' : List Char} :
    SameForms (c :: rest) before after before' after' ↔
      (c = 'Σ' → lowerSigma before (rest ++ after) = lowerSigma before' (rest ++ after')) ∧
        SameForms rest (c :: before) after (c :: before') after' := by
  constructor
  · intro hsame
    refine ⟨?_, ?_⟩
    · rintro rfl
      exact hsame [] rest rfl
    · rintro first last rfl
      simpa using hsame (c :: first) last rfl
  · rintro ⟨hhead, hrest⟩ first last heq
    cases first with
    | nil =>
        obtain ⟨rfl, rfl⟩ := List.cons.inj heq
        exact hhead rfl
    | cons d first =>
        obtain ⟨rfl, rfl⟩ := List.cons.inj heq
        simpa using hrest first last rfl

/-- The lower case of a text between two others depends on them through the forms of its sigmas. -/
theorem lowercaseBetween_eq_iff {text before after before' after' : List Char} :
    lowercaseBetween before text after = lowercaseBetween before' text after' ↔
      SameForms text before after before' after' := by
  induction text generalizing before before' with
  | nil => simp [lowercaseBetween, SameForms]
  | cons c rest ih =>
      rw [sameForms_cons_iff, ← ih, lowercaseBetween, lowercaseBetween]
      by_cases hsigma : c = 'Σ'
      · simp [hsigma]
      · simp [hsigma]

/-- The form of every sigma of the text is settled within the text. -/
def SettlesSigmas (text : List Char) : Prop :=
  ∀ first rest, text = first ++ 'Σ' :: rest → Settled (nearest first.reverse) (nearest rest)

theorem SettlesSigmas.sameForms {text : List Char} (hsettles : SettlesSigmas text)
    (before after : List Char) : SameForms text before after [] [] := by
  intro first rest htext
  have hstable := (hsettles first rest htext).sigmaBetween_eq (nearest before) (nearest after)
  simpa only [lowerSigma_eq, nearest_append, List.append_nil] using hstable

/-! ## Parts that are lost -/

/-- A text that fits into a longer one, but not at its end, begins with the first character. -/
theorem head?_eq_of_infix_cons {text longer : List Char} {c : Char} (hpart : text <:+: c :: longer)
    (hlength : text.length = longer.length) (hne : text ≠ longer) : text.head? = some c := by
  obtain hstart | hlater := List.infix_cons_iff.mp hpart
  · cases text with
    | nil => exact absurd (List.length_eq_zero_iff.mp hlength.symm).symm hne
    | cons d rest => rw [(List.cons_prefix_cons.mp hstart).1, List.head?_cons]
  · exact absurd (hlater.eq_of_length hlength) hne

theorem getLast?_eq_of_infix_concat {text longer : List Char} {c : Char}
    (hpart : text <:+: longer ++ [c]) (hlength : text.length = longer.length) (hne : text ≠ longer) :
    text.getLast? = some c := by
  have hbackwards : text.reverse <:+: c :: longer.reverse := by
    simpa using List.reverse_infix.mpr hpart
  have hhead := head?_eq_of_infix_cons hbackwards (by simpa using hlength) (by simpa using hne)
  rwa [List.head?_reverse] at hhead

theorem lowercase_append_three (before text after : List Char) :
    lowercase (before ++ text ++ after) =
      lowercaseBetween [] before (text ++ after) ++ lowercaseBetween before.reverse text after ++
        lowercaseAfter (text.reverse ++ before.reverse) after := by
  rw [lowercase, List.append_assoc, lowercaseAfter_append, lowercaseAfter_append, List.append_nil,
    List.append_assoc]

theorem SameForms.lowercase_part {text before after : List Char}
    (hsame : SameForms text before.reverse after [] []) :
    lowercase text <:+: lowercase (before ++ text ++ after) := by
  rw [lowercase_append_three, lowercaseBetween_eq_iff.mpr hsame, ← lowercaseAfter_eq]
  exact List.infix_append _ _ _

/-- The first character is a letter that decides the form of a sigma next to it, and the second one is
its lower case. -/
structure Decides (c lower : Char) : Prop where
  cased : isCased c
  visible : isIgnorable c = false
  ne_sigma : c ≠ 'Σ'
  lowerChar_eq : lowerChar c = [lower]

theorem Decides.nearest_eq {c lower : Char} (hdecides : Decides c lower) : nearest [c] = some c := by
  simp [nearest, hdecides.visible]

theorem decides_a : Decides 'A' 'a' :=
  ⟨by decide +kernel, by decide +kernel, by decide, by decide +kernel⟩

theorem decides_b : Decides 'B' 'b' :=
  ⟨by decide +kernel, by decide +kernel, by decide, by decide +kernel⟩

section Unsettled

variable {first rest : List Char} {c lower : Char}

/-- Nothing decides the sigma before it. With a letter in front, it becomes final. -/
theorem Decides.head?_lowercase (hdecides : Decides c lower) (hbefore : nearest first.reverse = none)
    (hafter : (nearest rest).any isCased = false)
    (hpart : lowercase (first ++ 'Σ' :: rest) <:+: lowercase (c :: (first ++ 'Σ' :: rest))) :
    (lowercase (first ++ 'Σ' :: rest)).head? = some lower := by
  rw [lowercase.eq_def (c :: _), lowercaseAfter, if_neg hdecides.ne_sigma,
    hdecides.lowerChar_eq, lowercaseAfter_eq] at hpart
  rw [lowercase, lowercaseAfter_eq] at hpart ⊢
  refine head?_eq_of_infix_cons hpart (length_lowercaseBetween ..) fun heq => ?_
  have hform := lowercaseBetween_eq_iff.mp heq first rest rfl
  simp [lowerSigma_eq, nearest_append, sigmaBetween, hbefore, hafter, hdecides.nearest_eq,
    hdecides.cased] at hform

/-- There is a letter before the sigma and nothing decides it after it. With a letter at the end, it is
no longer final. -/
theorem Decides.getLast?_lowercase (hdecides : Decides c lower)
    (hbefore : (nearest first.reverse).any isCased) (hafter : nearest rest = none)
    (hpart : lowercase (first ++ 'Σ' :: rest) <:+: lowercase (first ++ 'Σ' :: rest ++ [c])) :
    (lowercase (first ++ 'Σ' :: rest)).getLast? = some lower := by
  rw [lowercase.eq_def (_ ++ [c]), lowercaseAfter_append, lowercaseAfter,
    if_neg hdecides.ne_sigma, hdecides.lowerChar_eq, lowercaseAfter, List.append_nil] at hpart
  rw [lowercase, lowercaseAfter_eq] at hpart ⊢
  refine getLast?_eq_of_infix_concat hpart (length_lowercaseBetween ..) fun heq => ?_
  have hform := lowercaseBetween_eq_iff.mp heq first rest rfl
  simp [lowerSigma_eq, nearest_append, sigmaBetween, hbefore, hafter, hdecides.nearest_eq,
    hdecides.cased] at hform

end Unsettled

/-- If the lower case of a text is found in the lower case of every text that contains it, the sigmas of
the text are settled. -/
theorem settlesSigmas_of_forall_part {text : List Char}
    (hall : ∀ longer, text <:+: longer → lowercase text <:+: lowercase longer) : SettlesSigmas text := by
  rintro first rest rfl
  by_contra hopen
  obtain ⟨hbefore, hafter⟩ | ⟨hbefore, hafter⟩ := not_settled_iff.mp hopen
  · have hhead : ∀ c lower, Decides c lower → (lowercase (first ++ 'Σ' :: rest)).head? = some lower :=
      fun c lower hdecides => hdecides.head?_lowercase hbefore hafter
        (hall _ (List.infix_cons (List.infix_refl _)))
    exact absurd ((hhead _ _ decides_a).symm.trans (hhead _ _ decides_b)) (by decide)
  · have hlast : ∀ c lower, Decides c lower → (lowercase (first ++ 'Σ' :: rest)).getLast? = some lower :=
      fun c lower hdecides => hdecides.getLast?_lowercase hbefore hafter
        (hall _ (List.infix_append' [] _ [c]))
    exact absurd ((hlast _ _ decides_a).symm.trans (hlast _ _ decides_b)) (by decide)

/-- The queries that are found in every text that contains them. -/
theorem forall_part_iff {text : List Char} :
    (∀ longer, text <:+: longer → lowercase text <:+: lowercase longer) ↔ SettlesSigmas text := by
  refine ⟨settlesSigmas_of_forall_part, ?_⟩
  rintro hsettles _ ⟨before, after, rfl⟩
  exact (hsettles.sameForms before.reverse after).lowercase_part

theorem settlesSigmas_iff {text : List Char} :
    SettlesSigmas text ↔ ∀ i < text.length, text[i]? = some 'Σ' →
      Settled (nearest (text.take i).reverse) (nearest (text.drop (i + 1))) := by
  constructor
  · intro hsettles i hi hsigma
    refine hsettles _ _ ?_
    rw [List.getElem?_eq_some_iff] at hsigma
    obtain ⟨_, hget⟩ := hsigma
    rw [← hget, List.getElem_cons_drop, List.take_append_drop]
  · rintro hall first rest rfl
    simpa using hall first.length (by simp) (by simp)

instance (text : List Char) : Decidable (SettlesSigmas text) := decidable_of_iff _ settlesSigmas_iff.symm

end Case

namespace SymbolIndex

theorem mem_search_iff {index : SymbolIndex} {query : String} {hit : Hit} :
    hit ∈ index.search query ↔
      hit ∈ index.hits ∧ lowercase query.toList <:+: lowercase hit.symbol.name.toList := by
  rw [search, List.mem_mergeSort, List.mem_filter, Symbol.matchesQuery_iff]

theorem exists_hit_of_name (name : List Char) :
    ∃ (index : SymbolIndex) (hit : Hit), hit ∈ index.hits ∧ hit.symbol.name.toList = name := by
  let symbol : Symbol := { (default : Symbol) with name := .ofList name }
  exact ⟨after [.update "" [symbol]], ⟨"", symbol⟩, List.mem_cons_self, String.toList_ofList⟩

/-- **Searching for a part of a name.** The queries that find every symbol whose name contains them as
they stand are those whose capital sigmas have, within the query, what settles their form; every query
without a capital sigma is one. Any other query finds a name that contains it where its sigmas have the
same forms in the name as in the query. -/
theorem search_part_iff (query : String) :
    ((∀ (index : SymbolIndex) (hit : Hit), hit ∈ index.hits →
        query.toList <:+: hit.symbol.name.toList → hit ∈ index.search query) ↔
      Case.SettlesSigmas query.toList) ∧
    ('Σ' ∉ query.toList → Case.SettlesSigmas query.toList) ∧
    ∀ (index : SymbolIndex) (hit : Hit) (before after : List Char), hit ∈ index.hits →
      hit.symbol.name.toList = before ++ query.toList ++ after →
        Case.SameForms query.toList before.reverse after [] [] → hit ∈ index.search query := by
  refine ⟨?_, ?_, ?_⟩
  · rw [← Case.forall_part_iff]
    constructor
    · intro hfound name hpart
      obtain ⟨index, hit, hhit, rfl⟩ := exists_hit_of_name name
      exact (mem_search_iff.mp (hfound index hit hhit hpart)).2
    · intro hall index hit hhit hpart
      exact mem_search_iff.mpr ⟨hhit, hall _ hpart⟩
  · rintro hnone first rest hquery
    exact absurd (hquery ▸ List.mem_append_right first List.mem_cons_self) hnone
  · intro index hit before after hhit hname hsame
    rw [mem_search_iff, hname]
    exact ⟨hhit, hsame.lowercase_part⟩

/-- A class with a sigma in the middle of its name. -/
def signpost : Hit := ⟨"file:///a.php", ⟨"ΟΔΟΣΗΜΑ", .classDecl, 1, 12, 19, 0⟩⟩

def signpostIndex : SymbolIndex := after [.update signpost.uri [signpost.symbol]]

/-- With the letter after the sigma in the query, the name is found. -/
theorem search_part_iff_signpost :
    signpost ∈ signpostIndex.hits ∧ "ΟΔΟΣΗ".toList <:+: signpost.symbol.name.toList ∧
      Case.SettlesSigmas "ΟΔΟΣΗ".toList ∧ signpost ∈ signpostIndex.search "ΟΔΟΣΗ" :=
  have hhit : signpost ∈ signpostIndex.hits := by decide
  have hpart : "ΟΔΟΣΗ".toList <:+: signpost.symbol.name.toList := by decide
  have hsettles : Case.SettlesSigmas "ΟΔΟΣΗ".toList := by decide +kernel
  ⟨hhit, hpart, hsettles, (search_part_iff "ΟΔΟΣΗ").1.mpr hsettles signpostIndex signpost hhit hpart⟩

/-- A query that stops at the sigma has a final one, and the name has not. -/
theorem search_misses_part :
    signpost ∈ signpostIndex.hits ∧ "ΟΔΟΣ".toList <:+: signpost.symbol.name.toList ∧
      signpost ∉ signpostIndex.search "ΟΔΟΣ" := by
  have hlost : ¬lowercase "ΟΔΟΣ".toList <:+: lowercase signpost.symbol.name.toList := by decide +kernel
  exact ⟨by decide, by decide, fun hfound => hlost (mem_search_iff.mp hfound).2⟩

end SymbolIndex

end PhpOutline
