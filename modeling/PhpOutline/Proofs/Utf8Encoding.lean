import PhpOutline.Text.Utf8
import Mathlib.Data.List.Infix
import Mathlib.Tactic.SplitIfs

/-!
# The bytes of a character

The tests on single bytes, the width a first byte announces and the range a second byte must be in,
decide which sequences of bytes are the encoding of a character, and which begin one. Hence the
verdict on a sequence that begins a character up to its last byte says what that byte makes of it.
-/

namespace PhpOutline.Utf8

open String (utf8EncodeChar)

/-- The bytes are the first bytes of some character, and perhaps all of them. -/
def Begins (bytes : List UInt8) : Prop := ∃ c, bytes <+: utf8EncodeChar c

/-- The bytes are the first bytes of some character, but not all of them. -/
def ProperlyBegins (bytes : List UInt8) : Prop :=
  ∃ c, bytes <+: utf8EncodeChar c ∧ bytes ≠ utf8EncodeChar c

/-- The bytes can follow a first byte, as far as they go. -/
def Continues (lead : UInt8) : List UInt8 → Prop
  | [] => True
  | second :: rest => isSecond lead second ∧ ∀ byte ∈ rest, isTail byte

/-! ## Ranges of bytes -/

section Ranges

variable {lead byte : UInt8}

theorem width_cases (lead : UInt8) :
    (lead.toNat ≤ 0x7f ∧ width lead = 1) ∨
      (0xc2 ≤ lead.toNat ∧ lead.toNat ≤ 0xdf ∧ width lead = 2) ∨
      (0xe0 ≤ lead.toNat ∧ lead.toNat ≤ 0xef ∧ width lead = 3) ∨
      (0xf0 ≤ lead.toNat ∧ lead.toNat ≤ 0xf4 ∧ width lead = 4) ∨
      (0x80 ≤ lead.toNat ∧ lead.toNat ≤ 0xc1 ∨ 0xf5 ≤ lead.toNat) ∧ width lead = 0 := by
  simp only [width, UInt8.lt_iff_toNat_lt, UInt8.le_iff_toNat_le, UInt8.toNat_ofNat]
  split_ifs <;> omega

theorem width_le_four (lead : UInt8) : width lead ≤ 4 := by
  have hcases := width_cases lead
  omega

theorem isTail_iff : isTail byte ↔ 0x80 ≤ byte.toNat ∧ byte.toNat ≤ 0xbf := by
  simp [isTail, UInt8.le_iff_toNat_le]

theorem isSecond_iff :
    isSecond lead byte ↔
      (0x80 ≤ byte.toNat ∧ byte.toNat ≤ 0xbf) ∧ (lead.toNat = 0xe0 → 0xa0 ≤ byte.toNat) ∧
      (lead.toNat = 0xed → byte.toNat ≤ 0x9f) ∧ (lead.toNat = 0xf0 → 0x90 ≤ byte.toNat) ∧
      (lead.toNat = 0xf4 → byte.toNat ≤ 0x8f) := by
  simp only [isSecond, isTail, ← UInt8.toNat_inj, UInt8.le_iff_toNat_le, UInt8.toNat_ofNat]
  split_ifs <;> simp <;> omega

theorem exists_isSecond (lead : UInt8) : ∃ byte, isSecond lead byte := by
  by_cases hfirst : lead.toNat = 0xe0
  · refine ⟨0xa0, isSecond_iff.2 ?_⟩
    simp [hfirst]
  · by_cases hfourth : lead.toNat = 0xf0
    · refine ⟨0x90, isSecond_iff.2 ?_⟩
      simp [hfourth]
    · refine ⟨0x80, isSecond_iff.2 ?_⟩
      simp [hfirst, hfourth]

end Ranges

/-! ## The shape of an encoding -/

section Shape

variable {lead byte : UInt8} {tail other : List UInt8}

theorem Continues.mono (hother : Continues lead other) (hfront : tail <+: other) :
    Continues lead tail := by
  obtain ⟨rest, rfl⟩ := hfront
  cases tail with
  | nil => trivial
  | cons second tail =>
      obtain ⟨hsecond, htail⟩ := hother
      exact ⟨hsecond, fun byte hbyte => htail byte (List.mem_append_left rest hbyte)⟩

theorem continues_concat :
    Continues lead (tail ++ [byte]) ↔
      Continues lead tail ∧ (tail = [] → isSecond lead byte) ∧ (tail ≠ [] → isTail byte) := by
  cases tail with
  | nil => simp [Continues]
  | cons second tail =>
      simp only [Continues, List.cons_append, List.mem_append, List.mem_singleton]
      grind

theorem exists_utf8EncodeChar (c : Char) :
    ∃ lead tail, utf8EncodeChar c = lead :: tail ∧ width lead = tail.length + 1 ∧
      Continues lead tail := by
  have hvalid : c.val.toNat < 0xd800 ∨ 0xdfff < c.val.toNat ∧ c.val.toNat < 0x110000 := c.valid
  unfold utf8EncodeChar
  dsimp only
  -- One case for each number of bytes, the shortest first.
  split_ifs with hone htwo hthree
  · refine ⟨_, _, rfl, ?_, trivial⟩
    have hwidth := width_cases (UInt8.ofNat c.val.toNat)
    simp only [UInt8.toNat_ofNat', List.length_nil] at hwidth ⊢
    omega
  · refine ⟨_, _, rfl, ?_, ?_⟩
    · have hwidth := width_cases (UInt8.ofNat (c.val.toNat / 64 % 0x20 + 0xc0))
      simp only [UInt8.toNat_ofNat', List.length_singleton] at hwidth ⊢
      omega
    · simp only [Continues, isSecond_iff, UInt8.toNat_ofNat', List.not_mem_nil, false_implies,
        implies_true, and_true]
      omega
  · refine ⟨_, _, rfl, ?_, ?_⟩
    · have hwidth := width_cases (UInt8.ofNat (c.val.toNat / 4096 % 0x10 + 0xe0))
      simp only [UInt8.toNat_ofNat', List.length_cons, List.length_nil] at hwidth ⊢
      omega
    · simp only [Continues, isSecond_iff, isTail_iff, UInt8.toNat_ofNat', List.forall_mem_singleton]
      omega
  · refine ⟨_, _, rfl, ?_, ?_⟩
    · have hwidth := width_cases (UInt8.ofNat (c.val.toNat / 262144 % 0x08 + 0xf0))
      simp only [UInt8.toNat_ofNat', List.length_cons, List.length_nil] at hwidth ⊢
      omega
    · simp only [Continues, isSecond_iff, isTail_iff, UInt8.toNat_ofNat', List.forall_mem_cons,
        List.not_mem_nil, false_implies, implies_true, and_true]
      omega

theorem toNat_val_ofNat {n : Nat} (hvalid : n.isValidChar) : (Char.ofNat n).val.toNat = n := by
  rw [Char.ofNat, dif_pos hvalid]
  exact UInt32.toNat_ofNatLT

theorem utf8EncodeChar_ofNat_of_width_one (hwidth : width lead = 1) :
    utf8EncodeChar (.ofNat lead.toNat) = [lead] := by
  have hlead := width_cases lead
  have hvalue : (Char.ofNat lead.toNat).val.toNat = lead.toNat := by
    refine toNat_val_ofNat (.inl ?_)
    omega
  unfold utf8EncodeChar
  simp only [hvalue]
  rw [if_pos (by omega), UInt8.ofNat_toNat]

theorem utf8EncodeChar_ofNat_of_width_two {second : UInt8} (hwidth : width lead = 2)
    (hsecond : isSecond lead second) :
    utf8EncodeChar (.ofNat (lead.toNat % 32 * 64 + tailBits second)) = [lead, second] := by
  have hlead := width_cases lead
  rw [isSecond_iff] at hsecond
  have hvalue := toNat_val_ofNat (n := lead.toNat % 32 * 64 + tailBits second)
    (.inl (by unfold tailBits; omega))
  unfold utf8EncodeChar
  simp only [hvalue]
  unfold tailBits
  rw [if_neg (by omega), if_pos (by omega)]
  simp only [List.cons.injEq, and_true, ← UInt8.toNat_inj, UInt8.toNat_ofNat']
  omega

theorem utf8EncodeChar_ofNat_of_width_three {second third : UInt8} (hwidth : width lead = 3)
    (hsecond : isSecond lead second) (hthird : isTail third) :
    utf8EncodeChar (.ofNat ((lead.toNat % 16 * 64 + tailBits second) * 64 + tailBits third)) =
      [lead, second, third] := by
  have hlead := width_cases lead
  rw [isSecond_iff] at hsecond
  rw [isTail_iff] at hthird
  have hvalue := toNat_val_ofNat (n := (lead.toNat % 16 * 64 + tailBits second) * 64 + tailBits third)
    (by unfold tailBits Nat.isValidChar; omega)
  unfold utf8EncodeChar
  simp only [hvalue]
  unfold tailBits
  rw [if_neg (by omega), if_neg (by omega), if_pos (by omega)]
  simp only [List.cons.injEq, and_true, ← UInt8.toNat_inj, UInt8.toNat_ofNat']
  omega

theorem utf8EncodeChar_ofNat_of_width_four {second third fourth : UInt8} (hwidth : width lead = 4)
    (hsecond : isSecond lead second) (hthird : isTail third) (hfourth : isTail fourth) :
    utf8EncodeChar (.ofNat (((lead.toNat % 8 * 64 + tailBits second) * 64 + tailBits third) * 64 +
      tailBits fourth)) = [lead, second, third, fourth] := by
  have hlead := width_cases lead
  rw [isSecond_iff] at hsecond
  rw [isTail_iff] at hthird hfourth
  have hvalue := toNat_val_ofNat (n := ((lead.toNat % 8 * 64 + tailBits second) * 64 +
    tailBits third) * 64 + tailBits fourth) (by unfold tailBits Nat.isValidChar; omega)
  unfold utf8EncodeChar
  simp only [hvalue]
  unfold tailBits
  rw [if_neg (by omega), if_neg (by omega), if_neg (by omega)]
  simp only [List.cons.injEq, and_true, ← UInt8.toNat_inj, UInt8.toNat_ofNat']
  omega

/-- Bytes of the right ranges, as many as the first one announces, are a character. -/
theorem classify_eq_complete (hwidth : width lead = tail.length + 1) (htail : Continues lead tail) :
    ∃ c, classify (lead :: tail) = .complete c ∧ utf8EncodeChar c = lead :: tail := by
  match tail with
  | [] =>
      refine ⟨_, ?_, utf8EncodeChar_ofNat_of_width_one hwidth⟩
      simp [classify, hwidth]
  | [second] =>
      obtain ⟨hsecond, -⟩ := htail
      refine ⟨_, ?_, utf8EncodeChar_ofNat_of_width_two hwidth hsecond⟩
      simp [classify, hwidth, hsecond]
  | [second, third] =>
      obtain ⟨hsecond, hrest⟩ := htail
      have hthird : isTail third := hrest third (by simp)
      refine ⟨_, ?_, utf8EncodeChar_ofNat_of_width_three hwidth hsecond hthird⟩
      simp [classify, hwidth, hthird]
  | [second, third, fourth] =>
      obtain ⟨hsecond, hrest⟩ := htail
      have hthird : isTail third := hrest third (by simp)
      have hfourth : isTail fourth := hrest fourth (by simp)
      refine ⟨_, ?_, utf8EncodeChar_ofNat_of_width_four hwidth hsecond hthird hfourth⟩
      simp [classify, hfourth]
  | _ :: _ :: _ :: _ :: _ =>
      have hle := width_le_four lead
      simp only [List.length_cons] at hwidth
      omega

theorem classify_eq_incomplete (hwidth : tail.length + 1 < width lead)
    (htail : Continues lead tail) : classify (lead :: tail) = .incomplete := by
  match tail with
  | [] =>
      simp only [List.length_nil] at hwidth
      simp only [classify]
      split
      · omega
      · omega
      · rfl
  | [second] =>
      have hne : width lead ≠ 2 := by simp at hwidth; omega
      simp [classify, htail.1, hne]
  | [second, third] =>
      obtain ⟨hsecond, hrest⟩ := htail
      have hthird : isTail third := hrest third (by simp)
      have hne : width lead ≠ 3 := by simp at hwidth; omega
      simp [classify, hthird, hne]
  | _ :: _ :: _ :: _ =>
      have hle := width_le_four lead
      simp only [List.length_cons] at hwidth
      omega

theorem classify_eq_illFormed (htail : Continues lead tail) (hnot : ¬Continues lead (tail ++ [byte])) :
    classify (lead :: tail ++ [byte]) = .illFormed := by
  rw [continues_concat] at hnot
  match tail with
  | [] => simp_all [classify]
  | [second] => simp_all [classify]
  | [second, third] => simp_all [classify]
  | _ :: _ :: _ :: _ => simp [classify]

end Shape

/-! ## What begins a character -/

section Beginnings

variable {lead byte : UInt8} {bytes tail : List UInt8}

theorem Continues.exists_concat (htail : Continues lead tail) :
    ∃ byte, Continues lead (tail ++ [byte]) := by
  by_cases hempty : tail = []
  · obtain ⟨second, hsecond⟩ := exists_isSecond lead
    exact ⟨second, continues_concat.2 ⟨htail, fun _ => hsecond, fun hne => absurd hempty hne⟩⟩
  · exact ⟨0x80, continues_concat.2 ⟨htail, fun hnil => absurd hnil hempty, fun _ => by decide⟩⟩

/-- Bytes that follow a first byte correctly can always be completed. -/
theorem Continues.exists_utf8EncodeChar (htail : Continues lead tail)
    (hlength : tail.length + 1 ≤ width lead) :
    ∃ c rest, utf8EncodeChar c = lead :: tail ++ rest := by
  -- The induction is on the number of bytes still missing.
  induction hgap : width lead - (tail.length + 1) generalizing tail with
  | zero =>
      have hwidth : width lead = tail.length + 1 := by omega
      obtain ⟨c, -, hencode⟩ := classify_eq_complete hwidth htail
      exact ⟨c, [], by simpa using hencode⟩
  | succ missing ih =>
      obtain ⟨byte, hconcat⟩ := htail.exists_concat
      have hlonger : (tail ++ [byte]).length = tail.length + 1 := List.length_append
      obtain ⟨c, rest, hencode⟩ := ih hconcat (by omega) (by omega)
      exact ⟨c, byte :: rest, by simpa using hencode⟩

theorem begins_cons_iff :
    Begins (lead :: tail) ↔ tail.length + 1 ≤ width lead ∧ Continues lead tail := by
  constructor
  · rintro ⟨c, hfront⟩
    obtain ⟨first, whole, hencode, hwidth, hwhole⟩ := exists_utf8EncodeChar c
    rw [hencode, List.cons_prefix_cons] at hfront
    obtain ⟨rfl, hfront⟩ := hfront
    have hle := hfront.length_le
    exact ⟨by omega, hwhole.mono hfront⟩
  · rintro ⟨hlength, htail⟩
    obtain ⟨c, rest, hencode⟩ := htail.exists_utf8EncodeChar hlength
    exact ⟨c, rest, hencode.symm⟩

theorem properlyBegins_cons_iff :
    ProperlyBegins (lead :: tail) ↔ tail.length + 1 < width lead ∧ Continues lead tail := by
  constructor
  · rintro ⟨c, hfront, hne⟩
    obtain ⟨first, whole, hencode, hwidth, hwhole⟩ := exists_utf8EncodeChar c
    rw [hencode] at hfront hne
    rw [List.cons_prefix_cons] at hfront
    obtain ⟨rfl, hfront⟩ := hfront
    have hle := hfront.length_le
    have hlt : tail.length ≠ whole.length := by
      intro heq
      exact hne (by rw [hfront.eq_of_length heq])
    exact ⟨by omega, hwhole.mono hfront⟩
  · rintro ⟨hlength, htail⟩
    obtain ⟨byte, hconcat⟩ := htail.exists_concat
    have hlonger : (tail ++ [byte]).length = tail.length + 1 := List.length_append
    obtain ⟨c, rest, hencode⟩ := hconcat.exists_utf8EncodeChar (by omega)
    refine ⟨c, ⟨byte :: rest, by simp [hencode]⟩, ?_⟩
    simp [hencode]

theorem properlyBegins_nil : ProperlyBegins [] := ⟨'a', List.nil_prefix, by decide⟩

theorem ProperlyBegins.begins (hbytes : ProperlyBegins bytes) : Begins bytes := by
  obtain ⟨c, hfront, -⟩ := hbytes
  exact ⟨c, hfront⟩

theorem ProperlyBegins.length_le (hbytes : ProperlyBegins bytes) : bytes.length ≤ 3 := by
  cases bytes with
  | nil => exact Nat.zero_le 3
  | cons lead tail =>
      obtain ⟨hlength, -⟩ := properlyBegins_cons_iff.1 hbytes
      have hwidth := width_le_four lead
      simp only [List.length_cons]
      omega

theorem utf8EncodeChar_ne_nil (c : Char) : utf8EncodeChar c ≠ [] := by
  obtain ⟨lead, tail, hencode, -⟩ := exists_utf8EncodeChar c
  simp [hencode]

/-- No character begins with another one, or with itself and more. -/
theorem utf8EncodeChar_append_inj {c d : Char} {rest other : List UInt8}
    (heq : utf8EncodeChar c ++ rest = utf8EncodeChar d ++ other) : c = d ∧ rest = other := by
  have hchar : c = d := by
    have hfirst := ByteArray.utf8DecodeChar?_utf8EncodeChar_append (b := rest.toByteArray) (c := c)
    rw [← List.toByteArray_append, heq, List.toByteArray_append,
      ByteArray.utf8DecodeChar?_utf8EncodeChar_append] at hfirst
    exact (Option.some.inj hfirst).symm
  subst hchar
  exact ⟨rfl, List.append_cancel_left heq⟩

theorem ProperlyBegins.unconvertible (hbytes : ProperlyBegins bytes) (c : Char) :
    ¬utf8EncodeChar c <+: bytes := by
  rintro ⟨rest, rfl⟩
  obtain ⟨d, ⟨more, hwhole⟩, hne⟩ := hbytes
  have hsplit : utf8EncodeChar c ++ (rest ++ more) = utf8EncodeChar d ++ [] := by
    rw [← List.append_assoc, hwhole, List.append_nil]
  obtain ⟨rfl, hnil⟩ := utf8EncodeChar_append_inj hsplit
  exact hne (by rw [(List.append_eq_nil_iff.1 hnil).1, List.append_nil])

end Beginnings

/-! ## What one more byte makes of a beginning -/

/-- What a verdict says about the bytes. -/
def Verdict.Holds (bytes : List UInt8) : Verdict → Prop
  | .complete c => bytes = utf8EncodeChar c
  | .incomplete => ProperlyBegins bytes
  | .illFormed => ¬Begins bytes

theorem holds_classify_cons_concat {lead : UInt8} {tail : List UInt8} (byte : UInt8)
    (hbegins : ProperlyBegins (lead :: tail)) :
    (classify (lead :: tail ++ [byte])).Holds (lead :: tail ++ [byte]) := by
  obtain ⟨hlength, htail⟩ := properlyBegins_cons_iff.1 hbegins
  by_cases hconcat : Continues lead (tail ++ [byte])
  · by_cases hwidth : width lead = (tail ++ [byte]).length + 1
    · obtain ⟨c, hverdict, hencode⟩ := classify_eq_complete hwidth hconcat
      rw [List.cons_append, hverdict]
      exact hencode.symm
    · have hmore : (tail ++ [byte]).length + 1 < width lead := by
        simp only [List.length_append, List.length_singleton] at hwidth ⊢
        omega
      rw [List.cons_append, classify_eq_incomplete hmore hconcat]
      exact properlyBegins_cons_iff.2 ⟨hmore, hconcat⟩
  · rw [classify_eq_illFormed htail hconcat]
    intro hall
    exact hconcat (begins_cons_iff.1 hall).2

theorem holds_classify_singleton (byte : UInt8) : (classify [byte]).Holds [byte] := by
  by_cases hnone : width byte = 0
  · have hverdict : classify [byte] = .illFormed := by simp [classify, hnone]
    rw [hverdict]
    intro hbegins
    have hwidth := (begins_cons_iff.1 hbegins).1
    omega
  · by_cases hone : width byte = 1
    · have hwidth : width byte = ([] : List UInt8).length + 1 := hone
      obtain ⟨c, hverdict, hencode⟩ := classify_eq_complete hwidth trivial
      rw [hverdict]
      exact hencode.symm
    · have hmore : ([] : List UInt8).length + 1 < width byte := by
        simp only [List.length_nil]
        omega
      rw [classify_eq_incomplete hmore trivial]
      exact properlyBegins_cons_iff.2 ⟨hmore, trivial⟩

theorem holds_classify_concat {bytes : List UInt8} (byte : UInt8) (hbegins : ProperlyBegins bytes) :
    (classify (bytes ++ [byte])).Holds (bytes ++ [byte]) := by
  cases bytes with
  | nil => exact holds_classify_singleton byte
  | cons lead tail => exact holds_classify_cons_concat byte hbegins

end PhpOutline.Utf8
