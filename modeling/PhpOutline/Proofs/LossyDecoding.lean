import PhpOutline.Proofs.Utf8Encoding

/-!
# Lossy decoding of cut input

The lossy reading of a sequence of bytes is defined without a decoder: a character where one
stands, and elsewhere one replacement for the longest part that begins a character, or for a single
byte. Every sequence has one such reading, and it is what a decoder gives out over any cut of the
sequence into pieces.
-/

namespace PhpOutline.Utf8

open String (utf8EncodeChar)

/-! ## The lossy reading -/

/-- No character stands at the start of `part ++ rest`, and `part` is the longest part there that
begins one or is a single byte. -/
structure MaximalSubpart (part rest : List UInt8) : Prop where
  ne_nil : part ≠ []
  unconvertible : ∀ c, ¬utf8EncodeChar c <+: part ++ rest
  subpart : Begins part ∨ part.length = 1
  longest : ∀ other, other <+: part ++ rest → Begins other ∨ other.length = 1 →
    other.length ≤ part.length

/-- The characters are the bytes read from left to right, with a replacement for each part that is
not well-formed. -/
inductive Lossy : List UInt8 → List Char → Prop where
  | done : Lossy [] []
  | char {rest : List UInt8} {out : List Char} (c : Char) (hrest : Lossy rest out) :
      Lossy (utf8EncodeChar c ++ rest) (c :: out)
  | bad {part rest : List UInt8} {out : List Char} (hpart : MaximalSubpart part rest)
      (hrest : Lossy rest out) : Lossy (part ++ rest) (replacement :: out)

section Unique

variable {bytes part rest other more : List UInt8} {out : List Char}

theorem MaximalSubpart.eq (hpart : MaximalSubpart part rest) (hother : MaximalSubpart other more)
    (heq : part ++ rest = other ++ more) : part = other ∧ rest = more := by
  have hle : other.length ≤ part.length := by
    apply hpart.longest other
    · rw [heq]
      exact List.prefix_append other more
    · exact hother.subpart
  have hge : part.length ≤ other.length := by
    apply hother.longest part
    · rw [← heq]
      exact List.prefix_append part rest
    · exact hpart.subpart
  exact List.append_inj heq (Nat.le_antisymm hge hle)

theorem Lossy.eq_nil (hlossy : Lossy [] out) : out = [] := by
  generalize hbytes : ([] : List UInt8) = bytes at hlossy
  cases hlossy with
  | done => rfl
  | char c hrest =>
      have hnil := List.append_eq_nil_iff.1 hbytes.symm
      exact absurd hnil.1 (utf8EncodeChar_ne_nil c)
  | bad hpart hrest =>
      have hnil := List.append_eq_nil_iff.1 hbytes.symm
      exact absurd hnil.1 hpart.ne_nil

theorem Lossy.of_char {c : Char} (hlossy : Lossy (utf8EncodeChar c ++ rest) out) :
    ∃ later, out = c :: later ∧ Lossy rest later := by
  generalize hbytes : utf8EncodeChar c ++ rest = bytes at hlossy
  cases hlossy with
  | done =>
      have hnil := List.append_eq_nil_iff.1 hbytes
      exact absurd hnil.1 (utf8EncodeChar_ne_nil c)
  | @char _ later _ hrest =>
      obtain ⟨rfl, rfl⟩ := utf8EncodeChar_append_inj hbytes
      exact ⟨later, rfl, hrest⟩
  | bad hpart hrest =>
      refine absurd ?_ (hpart.unconvertible c)
      rw [← hbytes]
      exact List.prefix_append (utf8EncodeChar c) rest

theorem Lossy.of_bad (hpart : MaximalSubpart part rest) (hlossy : Lossy (part ++ rest) out) :
    ∃ later, out = replacement :: later ∧ Lossy rest later := by
  generalize hbytes : part ++ rest = bytes at hlossy
  cases hlossy with
  | done =>
      have hnil := List.append_eq_nil_iff.1 hbytes
      exact absurd hnil.1 hpart.ne_nil
  | @char after _ c hrest =>
      refine absurd ?_ (hpart.unconvertible c)
      rw [hbytes]
      exact List.prefix_append (utf8EncodeChar c) after
  | @bad _ _ later hother hrest =>
      obtain ⟨rfl, rfl⟩ := hpart.eq hother hbytes
      exact ⟨later, rfl, hrest⟩

/-- There is only one lossy reading. -/
theorem Lossy.unique {first second : List Char} (hfirst : Lossy bytes first)
    (hsecond : Lossy bytes second) : first = second := by
  induction hfirst generalizing second with
  | done => exact hsecond.eq_nil.symm
  | char c hrest ih =>
      obtain ⟨later, rfl, hlater⟩ := hsecond.of_char
      rw [ih hlater]
  | bad hpart hrest ih =>
      obtain ⟨later, rfl, hlater⟩ := hsecond.of_bad hpart
      rw [ih hlater]

theorem lossy_flatMap_utf8EncodeChar (text : List Char) :
    Lossy (text.flatMap utf8EncodeChar) text := by
  induction text with
  | nil => exact .done
  | cons c rest ih => exact .char c ih

end Unique

/-! ## What a decoder gives up -/

section Parts

variable {byte : UInt8} {part rest other : List UInt8}

theorem Begins.mono (hother : Begins other) (hfront : part <+: other) : Begins part := by
  obtain ⟨c, hbegins⟩ := hother
  exact ⟨c, hfront.trans hbegins⟩

theorem MaximalSubpart.intro (hne : part ≠ []) (hsubpart : Begins part ∨ part.length = 1)
    (hnone : ∀ c, ¬utf8EncodeChar c <+: part)
    (hlongest : ∀ other, other <+: part ++ rest → Begins other → other.length ≤ part.length) :
    MaximalSubpart part rest := by
  refine ⟨hne, ?_, hsubpart, ?_⟩
  · intro c hfront
    have hlength := hlongest _ hfront ⟨c, List.prefix_rfl⟩
    exact hnone c (List.prefix_of_prefix_length_le hfront (List.prefix_append part rest) hlength)
  · rintro other hfront (hbegins | hone)
    · exact hlongest other hfront hbegins
    · have hpos := List.length_pos_iff.2 hne
      omega

theorem maximalSubpart_singleton (hnone : ¬Begins [byte]) : MaximalSubpart [byte] rest := by
  refine .intro (by simp) (.inr rfl) ?_ ?_
  · intro c hfront
    obtain ⟨first, later, hencode, -⟩ := exists_utf8EncodeChar c
    rw [hencode, List.cons_prefix_cons] at hfront
    obtain ⟨rfl, -⟩ := hfront
    refine hnone ⟨c, ?_⟩
    rw [hencode]
    exact List.prefix_append [first] later
  · intro other hfront hbegins
    cases other with
    | nil => exact Nat.zero_le 1
    | cons first later =>
        obtain ⟨rfl, -⟩ := List.cons_prefix_cons.1 hfront
        refine absurd (hbegins.mono ?_) hnone
        exact List.prefix_append [first] later

theorem maximalSubpart_of_not_begins (hbegins : ProperlyBegins part) (hne : part ≠ [])
    (hnext : ¬Begins (part ++ [byte])) : MaximalSubpart part (byte :: rest) := by
  refine .intro hne (.inl hbegins.begins) hbegins.unconvertible ?_
  intro other hfront hother
  by_contra hlonger
  refine hnext (hother.mono ?_)
  have hcut : part ++ [byte] <+: part ++ byte :: rest := ⟨rest, by simp⟩
  refine List.prefix_of_prefix_length_le hcut hfront ?_
  simp only [List.length_append, List.length_singleton]
  omega

theorem maximalSubpart_nil (hbegins : ProperlyBegins part) (hne : part ≠ []) :
    MaximalSubpart part [] := by
  refine .intro hne (.inl hbegins.begins) hbegins.unconvertible ?_
  intro other hfront hother
  rw [List.append_nil] at hfront
  exact hfront.length_le

end Parts

/-! ## Decoding -/

namespace Decoder

/-- From a decoder to the next one and the parts in between: whatever is read from the bytes held
later is read, after these parts, from the bytes held and taken before. -/
structure Reads (before : Decoder) (taken : List UInt8) (after : Decoder) (items : List Item) :
    Prop where
  properlyBegins : ProperlyBegins after.carry
  lossy : ∀ rest out, Lossy (after.carry ++ rest) out →
    Lossy (before.carry ++ taken ++ rest) (items.map Item.toChar ++ out)

theorem Reads.refl {decoder : Decoder} (hdecoder : ProperlyBegins decoder.carry) :
    decoder.Reads [] decoder [] := by
  refine ⟨hdecoder, ?_⟩
  intro rest out hlossy
  simpa using hlossy

theorem Reads.trans {first second third : Decoder} {taken more : List UInt8}
    {items later : List Item} (hfirst : first.Reads taken second items)
    (hsecond : second.Reads more third later) :
    first.Reads (taken ++ more) third (items ++ later) := by
  refine ⟨hsecond.properlyBegins, ?_⟩
  intro rest out hlossy
  have hmore := hsecond.lossy rest out hlossy
  rw [List.append_assoc] at hmore
  have hall := hfirst.lossy (more ++ rest) _ hmore
  simpa [List.append_assoc] using hall

theorem reads_lead (byte : UInt8) : start.Reads [byte] (lead byte).1 (lead byte).2 := by
  have hholds := holds_classify_singleton byte
  unfold lead
  cases hverdict : classify [byte] with
  | complete c =>
      rw [hverdict] at hholds
      refine ⟨properlyBegins_nil, ?_⟩
      intro rest out hlossy
      have hbyte : [byte] = utf8EncodeChar c := hholds
      simpa [start, hbyte, Item.toChar] using Lossy.char c hlossy
  | incomplete =>
      rw [hverdict] at hholds
      refine ⟨hholds, ?_⟩
      intro rest out hlossy
      simpa [start] using hlossy
  | illFormed =>
      rw [hverdict] at hholds
      refine ⟨properlyBegins_nil, ?_⟩
      intro rest out hlossy
      exact .bad (maximalSubpart_singleton hholds) hlossy

theorem reads_push {decoder : Decoder} (byte : UInt8) (hdecoder : ProperlyBegins decoder.carry) :
    decoder.Reads [byte] (decoder.push byte).1 (decoder.push byte).2 := by
  unfold push
  split_ifs with hempty
  · have hstart : decoder = start := by
      cases decoder
      simpa [start] using hempty
    rw [hstart]
    exact reads_lead byte
  · have hholds := holds_classify_concat byte hdecoder
    cases hverdict : classify (decoder.carry ++ [byte]) with
    | complete c =>
        rw [hverdict] at hholds
        refine ⟨properlyBegins_nil, ?_⟩
        intro rest out hlossy
        have hbytes : decoder.carry ++ [byte] = utf8EncodeChar c := hholds
        rw [hbytes]
        exact .char c hlossy
    | incomplete =>
        rw [hverdict] at hholds
        refine ⟨hholds, ?_⟩
        intro rest out hlossy
        exact hlossy
    | illFormed =>
        rw [hverdict] at hholds
        -- The byte begins anew, after the bytes that were held.
        have hlead := reads_lead byte
        refine ⟨hlead.properlyBegins, ?_⟩
        intro rest out hlossy
        have hrest : Lossy (byte :: rest) ((lead byte).2.map Item.toChar ++ out) := by
          simpa [start] using hlead.lossy rest out hlossy
        have hpart : MaximalSubpart decoder.carry (byte :: rest) :=
          maximalSubpart_of_not_begins hdecoder hempty hholds
        simpa [Item.toChar] using Lossy.bad hpart hrest

theorem reads_decode {decoder : Decoder} (bytes : List UInt8)
    (hdecoder : ProperlyBegins decoder.carry) :
    decoder.Reads bytes (decoder.decode bytes).1 (decoder.decode bytes).2 := by
  induction bytes generalizing decoder with
  | nil => exact Reads.refl hdecoder
  | cons byte rest ih =>
      have hbyte := reads_push byte hdecoder
      have hrest := ih hbyte.properlyBegins
      exact hbyte.trans hrest

theorem lossy_finish {decoder : Decoder} (hdecoder : ProperlyBegins decoder.carry) :
    Lossy decoder.carry (decoder.finish.map Item.toChar) := by
  unfold finish
  split_ifs with hempty
  · rw [hempty]
    exact .done
  · simpa [Item.toChar] using Lossy.bad (maximalSubpart_nil hdecoder hempty) .done

end Decoder

/-! ## Texts -/

theorem flatMap_toList_flush (acc : List Char) : (flush acc).flatMap String.toList = acc.reverse := by
  unfold flush
  split_ifs with hempty
  · simp [hempty]
  · simp

theorem flatMap_toList_textsFrom (acc : List Char) (items : List Item) :
    (textsFrom acc items).flatMap String.toList = acc.reverse ++ items.map Item.toChar := by
  induction items generalizing acc with
  | nil => simp [textsFrom, flatMap_toList_flush]
  | cons item rest ih =>
      cases item with
      | char c => simp [textsFrom, ih, Item.toChar]
      | bad => simp [textsFrom, ih, Item.toChar, flatMap_toList_flush]

theorem toList_join_texts (items : List Item) :
    (String.join (texts items)).toList = items.map Item.toChar := by
  rw [String.toList_join]
  exact flatMap_toList_textsFrom [] items

theorem empty_notMem_flush (acc : List Char) : "" ∉ flush acc := by
  unfold flush
  split_ifs with hempty
  · simp
  · intro hmem
    have hnil : acc.reverse = [] := by
      have heq : "" = String.ofList acc.reverse := List.mem_singleton.1 hmem
      simpa using (congrArg String.toList heq).symm
    exact hempty (List.reverse_eq_nil_iff.1 hnil)

theorem empty_notMem_textsFrom (acc : List Char) (items : List Item) :
    "" ∉ textsFrom acc items := by
  induction items generalizing acc with
  | nil => exact empty_notMem_flush acc
  | cons item rest ih =>
      cases item with
      | char c => exact ih (c :: acc)
      | bad =>
          have hbad : "" ≠ String.ofList [replacement] := by decide
          simp only [textsFrom, List.mem_append, List.mem_cons, not_or]
          exact ⟨empty_notMem_flush acc, hbad, ih []⟩

/-! ## Pieces -/

namespace Decoder

/-- The decoder after some pieces of input. -/
def afterPieces (decoder : Decoder) (pieces : List (List UInt8)) : Decoder :=
  pieces.foldl (fun decoder piece => (decoder.decode piece).1) decoder

/-- The texts given out for pieces of input, one piece after the other, and at the end. -/
def pieceTexts (decoder : Decoder) : List (List UInt8) → List String
  | [] => texts decoder.finish
  | piece :: rest =>
    let (decoder, items) := decoder.decode piece
    texts items ++ decoder.pieceTexts rest

theorem properlyBegins_afterPieces {decoder : Decoder} (pieces : List (List UInt8))
    (hdecoder : ProperlyBegins decoder.carry) :
    ProperlyBegins (decoder.afterPieces pieces).carry := by
  induction pieces generalizing decoder with
  | nil => exact hdecoder
  | cons piece rest ih => exact ih (reads_decode piece hdecoder).properlyBegins

theorem lossy_pieceTexts {decoder : Decoder} (pieces : List (List UInt8))
    (hdecoder : ProperlyBegins decoder.carry) :
    Lossy (decoder.carry ++ pieces.flatten) (String.join (decoder.pieceTexts pieces)).toList := by
  induction pieces generalizing decoder with
  | nil =>
      rw [pieceTexts, toList_join_texts, List.flatten_nil, List.append_nil]
      exact lossy_finish hdecoder
  | cons piece rest ih =>
      have hpiece := reads_decode piece hdecoder
      have hrest := ih hpiece.properlyBegins
      have hall := hpiece.lossy _ _ hrest
      rw [pieceTexts, String.join_append, String.toList_append, toList_join_texts,
        List.flatten_cons, ← List.append_assoc]
      exact hall

theorem empty_notMem_pieceTexts (decoder : Decoder) (pieces : List (List UInt8)) :
    "" ∉ decoder.pieceTexts pieces := by
  induction pieces generalizing decoder with
  | nil => exact empty_notMem_textsFrom [] decoder.finish
  | cons piece rest ih =>
      simp only [pieceTexts, List.mem_append, not_or]
      exact ⟨empty_notMem_textsFrom [] _, ih _⟩

end Decoder

theorem toList_toUTF8 (text : String) :
    text.toUTF8.data.toList = text.toList.flatMap utf8EncodeChar := by
  rw [String.toUTF8_eq_toByteArray, ← String.utf8Encode_toList, List.utf8Encode,
    List.toList_data_toByteArray]

/-- **It does not matter how the input is cut.** Over any pieces, the texts given out make up the one
lossy reading of the whole input, and none of them is empty. After any number of pieces the decoder
holds at most three bytes, which are the start of a character and not all of it. In particular the
bytes of a text give that text back. -/
theorem pieceTexts_lossy (pieces : List (List UInt8)) :
    (∀ text : String, Lossy pieces.flatten text.toList ↔
      text = String.join (Decoder.start.pieceTexts pieces)) ∧
    "" ∉ Decoder.start.pieceTexts pieces ∧
    (∀ count, (Decoder.start.afterPieces (pieces.take count)).carry.length ≤ 3 ∧
      ProperlyBegins (Decoder.start.afterPieces (pieces.take count)).carry) ∧
    ∀ text : String, pieces.flatten = text.toUTF8.data.toList →
      String.join (Decoder.start.pieceTexts pieces) = text := by
  have hlossy : Lossy pieces.flatten (String.join (Decoder.start.pieceTexts pieces)).toList :=
    Decoder.lossy_pieceTexts pieces properlyBegins_nil
  refine ⟨?_, Decoder.empty_notMem_pieceTexts _ pieces, ?_, ?_⟩
  · intro text
    constructor
    · intro htext
      exact String.toList_inj.1 (htext.unique hlossy)
    · intro htext
      rw [htext]
      exact hlossy
  · intro count
    have hcarry := Decoder.properlyBegins_afterPieces (pieces.take count) properlyBegins_nil
    exact ⟨hcarry.length_le, hcarry⟩
  · intro text hbytes
    have htext := lossy_flatMap_utf8EncodeChar text.toList
    rw [← toList_toUTF8, ← hbytes] at htext
    exact String.toList_inj.1 (hlossy.unique htext)

theorem pieceTexts_lossy_split_character :
    [[0x61, 0xe2], [], [0x82], [0xac]].flatten = "a€".toUTF8.data.toList ∧
      String.join (Decoder.start.pieceTexts [[0x61, 0xe2], [], [0x82], [0xac]]) = "a€" :=
  ⟨by decide, (pieceTexts_lossy [[0x61, 0xe2], [], [0x82], [0xac]]).2.2.2 "a€" (by decide)⟩

example :
    Decoder.start.pieceTexts [[0x61, 0xf0, 0x9f], [0x80, 0x62], [0xed, 0xa0], [0xe2]] =
      ["a", "\ufffd", "b", "\ufffd", "\ufffd", "\ufffd"] := by decide

end PhpOutline.Utf8
