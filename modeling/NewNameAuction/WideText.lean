import Mathlib.Data.List.Basic

/-! Text as UTF-16 and as UTF-8. A `WCHAR` that is half of a pair and stands without the
other half is no character; reading such a text puts U+FFFD in its place, so that only
texts of whole characters survive a conversion. -/
namespace NewNameAuction.WideText

/-! ## UTF-16 -/

def IsHigh (w : UInt16) : Prop := 0xD800 ≤ w.toNat ∧ w.toNat < 0xDC00

def IsLow (w : UInt16) : Prop := 0xDC00 ≤ w.toNat ∧ w.toNat < 0xE000

instance : DecidablePred IsHigh := fun _ => inferInstanceAs (Decidable (_ ∧ _))

instance : DecidablePred IsLow := fun _ => inferInstanceAs (Decidable (_ ∧ _))

/-- The number of the character that a pair stands for. -/
def pairCode (high low : UInt16) : Nat :=
  0x10000 + (high.toNat - 0xD800) * 0x400 + (low.toNat - 0xDC00)

/-- A `WCHAR` that stands alone. -/
def single (w : UInt16) : Char :=
  if IsHigh w ∨ IsLow w then Char.ofNat 0xFFFD else Char.ofNat w.toNat

/-- The characters of a wide text. -/
def characters : List UInt16 → List Char
  | [] => []
  | [w] => [single w]
  | high :: low :: rest =>
    if IsHigh high ∧ IsLow low then Char.ofNat (pairCode high low) :: characters rest
    else single high :: characters (low :: rest)

def wideChar (c : Char) : List UInt16 :=
  if c.toNat < 0x10000 then [UInt16.ofNat c.toNat]
  else
    [UInt16.ofNat (0xD800 + (c.toNat - 0x10000) / 0x400),
      UInt16.ofNat (0xDC00 + (c.toNat - 0x10000) % 0x400)]

/-- Characters as a wide text. -/
def wide (text : List Char) : List UInt16 := text.flatMap wideChar

/-- Every half of a pair has its other half beside it. -/
def Paired : List UInt16 → Prop
  | [] => True
  | [w] => ¬IsHigh w ∧ ¬IsLow w
  | high :: low :: rest =>
    if IsHigh high ∧ IsLow low then Paired rest
    else (¬IsHigh high ∧ ¬IsLow high) ∧ Paired (low :: rest)

def decidePaired : (w : List UInt16) → Decidable (Paired w)
  | [] => .isTrue trivial
  | [w] => inferInstanceAs (Decidable (¬IsHigh w ∧ ¬IsLow w))
  | high :: low :: rest =>
    have := decidePaired rest
    have := decidePaired (low :: rest)
    inferInstanceAs (Decidable (if IsHigh high ∧ IsLow low then Paired rest
      else (¬IsHigh high ∧ ¬IsLow high) ∧ Paired (low :: rest)))

instance : DecidablePred Paired := decidePaired

/-- A pair, and its second half alone. -/
example : Paired [0xD83D, 0xDE00] ∧ ¬Paired [0xDE00] := by decide

section Utf16

theorem toNat_ofNat_valid {n : Nat} (valid : n.isValidChar) : (Char.ofNat n).toNat = n := by
  rw [Char.ofNat, dif_pos valid]
  rfl

theorem char_range (c : Char) : c.toNat < 0xD800 ∨ 0xDFFF < c.toNat ∧ c.toNat < 0x110000 := c.valid

theorem single_valid {w : UInt16} (alone : ¬IsHigh w ∧ ¬IsLow w) : (single w).toNat = w.toNat := by
  have small := w.toNat_lt
  have range : w.toNat < 0xD800 ∨ 0xE000 ≤ w.toNat := by
    unfold IsHigh IsLow at alone
    omega
  rw [single, if_neg (not_or.mpr alone), toNat_ofNat_valid]
  unfold Nat.isValidChar
  omega

theorem pairCode_toNat {high low : UInt16} (first : IsHigh high) (second : IsLow low) :
    (Char.ofNat (pairCode high low)).toNat = pairCode high low ∧ 0x10000 ≤ pairCode high low := by
  unfold IsHigh at first
  unfold IsLow at second
  have range : 0x10000 ≤ pairCode high low ∧ pairCode high low < 0x110000 := by
    unfold pairCode
    omega
  refine ⟨toNat_ofNat_valid ?_, range.1⟩
  unfold Nat.isValidChar
  omega

/-- A character behind the basic plane is a pair. -/
theorem wideChar_large {c : Char} (large : 0x10000 ≤ c.toNat) : ∃ high low, wideChar c = [high, low] ∧
    IsHigh high ∧ IsLow low ∧ Char.ofNat (pairCode high low) = c := by
  have bound := char_range c
  have cells : wideChar c = [UInt16.ofNat (0xD800 + (c.toNat - 0x10000) / 0x400),
      UInt16.ofNat (0xDC00 + (c.toNat - 0x10000) % 0x400)] := if_neg (Nat.not_lt.mpr large)
  have first : (UInt16.ofNat (0xD800 + (c.toNat - 0x10000) / 0x400)).toNat =
      0xD800 + (c.toNat - 0x10000) / 0x400 := by
    rw [UInt16.toNat_ofNat']
    omega
  have second : (UInt16.ofNat (0xDC00 + (c.toNat - 0x10000) % 0x400)).toNat =
      0xDC00 + (c.toNat - 0x10000) % 0x400 := by
    rw [UInt16.toNat_ofNat']
    omega
  generalize UInt16.ofNat (0xD800 + (c.toNat - 0x10000) / 0x400) = high at cells first
  generalize UInt16.ofNat (0xDC00 + (c.toNat - 0x10000) % 0x400) = low at cells second
  refine ⟨high, low, cells, ?_, ?_, ?_⟩
  · unfold IsHigh
    omega
  · unfold IsLow
    omega
  · have code : pairCode high low = c.toNat := by
      unfold pairCode
      omega
    rw [code, Char.ofNat_toNat]

/-- A character of the basic plane is one `WCHAR`. -/
theorem wideChar_small {c : Char} (small : c.toNat < 0x10000) : ∃ w, wideChar c = [w] ∧
    w.toNat = c.toNat ∧ ¬IsHigh w ∧ ¬IsLow w := by
  have bound := char_range c
  have value : (UInt16.ofNat c.toNat).toNat = c.toNat := by
    rw [UInt16.toNat_ofNat']
    omega
  refine ⟨_, if_pos small, value, ?_, ?_⟩
  · unfold IsHigh
    omega
  · unfold IsLow
    omega

/-- A `WCHAR` that is no half of a pair is a character, whatever stands behind it. -/
theorem characters_single {w : UInt16} (alone : ¬IsHigh w) (rest : List UInt16) :
    characters (w :: rest) = single w :: characters rest := by
  cases rest with
  | nil => rfl
  | cons low rest => exact if_neg fun pair => alone pair.1

theorem characters_pair {high low : UInt16} (first : IsHigh high) (second : IsLow low)
    (rest : List UInt16) :
    characters (high :: low :: rest) = Char.ofNat (pairCode high low) :: characters rest :=
  if_pos ⟨first, second⟩

theorem characters_wideChar (c : Char) (rest : List UInt16) :
    characters (wideChar c ++ rest) = c :: characters rest := by
  by_cases small : c.toNat < 0x10000
  · obtain ⟨w, one, value, high, low⟩ := wideChar_small small
    have same : single w = c := Char.toNat_inj.mp ((single_valid ⟨high, low⟩).trans value)
    rw [one, List.singleton_append, characters_single high, same]
  · obtain ⟨high, low, two, first, second, same⟩ := wideChar_large (Nat.le_of_not_lt small)
    rw [two]
    exact (characters_pair first second rest).trans (by rw [same])

theorem characters_wide_append (text : List Char) (rest : List UInt16) :
    characters (wide text ++ rest) = text ++ characters rest := by
  induction text with
  | nil => rfl
  | cons c text ih =>
    rw [wide, List.flatMap_cons, List.append_assoc, characters_wideChar, ← wide, ih, List.cons_append]

/-- A text of characters is read back from UTF-16. -/
theorem characters_wide (text : List Char) : characters (wide text) = text := by
  have read := characters_wide_append text []
  rwa [List.append_nil, characters, List.append_nil] at read

theorem wideChar_single {w : UInt16} (alone : ¬IsHigh w ∧ ¬IsLow w) : wideChar (single w) = [w] := by
  have small := w.toNat_lt
  have value := single_valid alone
  rw [wideChar, if_pos (by omega), value, UInt16.ofNat_toNat]

theorem wideChar_pair {high low : UInt16} (first : IsHigh high) (second : IsLow low) :
    wideChar (Char.ofNat (pairCode high low)) = [high, low] := by
  obtain ⟨value, large⟩ := pairCode_toNat first second
  unfold IsHigh at first
  unfold IsLow at second
  have highPart : 0xD800 + (pairCode high low - 0x10000) / 0x400 = high.toNat := by
    unfold pairCode
    omega
  have lowPart : 0xDC00 + (pairCode high low - 0x10000) % 0x400 = low.toNat := by
    unfold pairCode
    omega
  rw [wideChar, value, if_neg (Nat.not_lt.mpr large), highPart, lowPart, UInt16.ofNat_toNat,
    UInt16.ofNat_toNat]

theorem wide_characters {w : List UInt16} (paired : Paired w) : wide (characters w) = w := by
  induction w using characters.induct with
  | case1 => rfl
  | case2 w => exact (List.flatMap_singleton ..).trans (wideChar_single paired)
  | case3 high low rest both ih =>
    rw [Paired, if_pos both] at paired
    rw [characters, if_pos both, wide, List.flatMap_cons, wideChar_pair both.1 both.2, ← wide, ih paired]
    rfl
  | case4 high low rest alone ih =>
    rw [Paired, if_neg alone] at paired
    rw [characters, if_neg alone, wide, List.flatMap_cons, wideChar_single paired.1, ← wide, ih paired.2]
    rfl

theorem paired_cons {w : UInt16} (alone : ¬IsHigh w ∧ ¬IsLow w) {rest : List UInt16} (paired : Paired rest) :
    Paired (w :: rest) := by
  cases rest with
  | nil => exact alone
  | cons low rest =>
    rw [Paired, if_neg fun both => alone.1 both.1]
    exact ⟨alone, paired⟩

theorem paired_wide (text : List Char) : Paired (wide text) := by
  induction text with
  | nil => trivial
  | cons c text ih =>
    rw [wide, List.flatMap_cons, ← wide]
    by_cases small : c.toNat < 0x10000
    · obtain ⟨w, one, _, alone⟩ := wideChar_small small
      rw [one]
      exact paired_cons alone ih
    · obtain ⟨high, low, two, first, second, _⟩ := wideChar_large (Nat.le_of_not_lt small)
      rw [two, List.cons_append, List.cons_append, List.nil_append, Paired, if_pos ⟨first, second⟩]
      exact ih

/-- The wide texts of characters are those without half pairs. -/
theorem paired_iff {w : List UInt16} : Paired w ↔ ∃ text, wide text = w := by
  constructor
  · exact fun paired => ⟨characters w, wide_characters paired⟩
  · rintro ⟨text, rfl⟩
    exact paired_wide text

/-- No pair goes over the end of a text when no second half stands behind it. -/
theorem characters_append {w : List UInt16} {next : UInt16} (plain : ¬IsLow next) (rest : List UInt16) :
    characters (w ++ next :: rest) = characters w ++ characters (next :: rest) := by
  induction w using characters.induct with
  | case1 => rfl
  | case2 w => exact if_neg fun both => plain both.2
  | case3 high low tail both ih =>
    rw [List.cons_append, List.cons_append, characters_pair both.1 both.2, characters_pair both.1 both.2, ih]
    rfl
  | case4 high low tail alone ih =>
    rw [List.cons_append, List.cons_append, characters, if_neg alone, characters, if_neg alone,
      ← List.cons_append, ih]
    rfl

end Utf16

/-! ## UTF-8 -/

def utf8 (text : List Char) : List UInt8 := text.flatMap String.utf8EncodeChar

section Utf8

/-- A character of ASCII is itself, in both encodings. -/
theorem utf8_ascii {c : Char} (ascii : c.toNat < 128) :
    ∃ b, String.utf8EncodeChar c = [b] ∧ b.toNat = c.toNat := by
  refine ⟨UInt8.ofNat c.toNat, if_pos (Nat.le_of_lt_succ ascii), ?_⟩
  rw [UInt8.toNat_ofNat']
  omega

theorem wideChar_ascii {c : Char} (ascii : c.toNat < 128) : ∃ w, wideChar c = [w] ∧ w.toNat = c.toNat := by
  obtain ⟨w, one, value, _⟩ := wideChar_small (c := c) (by omega)
  exact ⟨w, one, value⟩

/-- The bytes of another character are none of ASCII. -/
theorem utf8_high {c : Char} (high : 128 ≤ c.toNat) :
    String.utf8EncodeChar c ≠ [] ∧ ∀ b ∈ String.utf8EncodeChar c, 128 ≤ b.toNat := by
  have bound := char_range c
  have value : c.val.toNat = c.toNat := rfl
  refine ⟨String.utf8EncodeChar_ne_nil, ?_⟩
  unfold String.utf8EncodeChar
  simp only [value]
  rw [if_neg (by omega)]
  split_ifs
  all_goals
    simp only [List.mem_cons, List.not_mem_nil, or_false, forall_eq_or_imp, forall_eq, UInt8.toNat_ofNat']
    omega

theorem wideChar_high {c : Char} (high : 128 ≤ c.toNat) :
    wideChar c ≠ [] ∧ ∀ w ∈ wideChar c, 128 ≤ w.toNat := by
  by_cases small : c.toNat < 0x10000
  · obtain ⟨w, one, value, _⟩ := wideChar_small small
    rw [one]
    simp [value, high]
  · obtain ⟨first, second, two, isHigh, isLow, _⟩ := wideChar_large (Nat.le_of_not_lt small)
    unfold IsHigh at isHigh
    unfold IsLow at isLow
    rw [two]
    simp only [ne_eq, reduceCtorEq, not_false_eq_true, List.mem_cons, List.not_mem_nil, or_false,
      forall_eq_or_imp, forall_eq, true_and]
    omega

theorem utf8_append (text more : List Char) : utf8 (text ++ more) = utf8 text ++ utf8 more :=
  List.flatMap_append

theorem utf8_cons (c : Char) (text : List Char) : utf8 (c :: text) = String.utf8EncodeChar c ++ utf8 text :=
  List.flatMap_cons

/-- Only NUL has a zero byte. -/
theorem zero_mem_utf8Char {c : Char} (zero : 0 ∈ String.utf8EncodeChar c) : c.toNat = 0 := by
  by_cases ascii : c.toNat < 128
  · obtain ⟨b, one, value⟩ := utf8_ascii ascii
    rw [one, List.mem_singleton] at zero
    rw [← value, ← zero]
    rfl
  · exact absurd ((utf8_high (Nat.le_of_not_lt ascii)).2 0 zero) (by decide)

theorem single_ne_zero {w : UInt16} (some : w ≠ 0) : (single w).toNat ≠ 0 := by
  have positive : w.toNat ≠ 0 := fun zero => some (UInt16.toNat_inj.mp zero)
  by_cases half : IsHigh w ∨ IsLow w
  · rw [single, if_pos half]
    decide
  · rwa [single_valid (not_or.mp half)]

/-- A text without a terminator has none in UTF-8. -/
theorem zero_notMem_utf8 {w : List UInt16} (plain : 0 ∉ w) : 0 ∉ utf8 (characters w) := by
  have first {word : UInt16} {rest : List UInt16} (plain : 0 ∉ word :: rest) : word ≠ 0 ∧ 0 ∉ rest :=
    ⟨fun zero => plain (zero ▸ List.mem_cons_self), fun member => plain (List.mem_cons_of_mem _ member)⟩
  induction w using characters.induct with
  | case1 => exact List.not_mem_nil
  | case2 word =>
    rw [characters, utf8_cons, List.mem_append, not_or]
    exact ⟨fun zero => single_ne_zero (first plain).1 (zero_mem_utf8Char zero), List.not_mem_nil⟩
  | case3 high low rest both ih =>
    obtain ⟨value, large⟩ := pairCode_toNat both.1 both.2
    rw [characters, if_pos both, utf8_cons, List.mem_append, not_or]
    refine ⟨fun zero => ?_, ih (first (first plain).2).2⟩
    have none := zero_mem_utf8Char zero
    omega
  | case4 high low rest alone ih =>
    rw [characters, if_neg alone, utf8_cons, List.mem_append, not_or]
    exact ⟨fun zero => single_ne_zero (first plain).1 (zero_mem_utf8Char zero), ih (first plain).2⟩

theorem length_utf8Char (c : Char) : (String.utf8EncodeChar c).length ≤ 4 ∧
    (c.toNat < 0x10000 → (String.utf8EncodeChar c).length ≤ 3) := by
  have value : c.val.toNat = c.toNat := rfl
  unfold String.utf8EncodeChar
  simp only [value]
  split_ifs
  all_goals
    simp only [List.length_cons, List.length_nil]
    omega

theorem single_small (w : UInt16) : (single w).toNat < 0x10000 := by
  by_cases half : IsHigh w ∨ IsLow w
  · rw [single, if_pos half]
    decide
  · rw [single_valid (not_or.mp half)]
    exact w.toNat_lt

/-- A `WCHAR` takes at most three bytes. -/
theorem length_utf8 (w : List UInt16) : (utf8 (characters w)).length ≤ 3 * w.length := by
  induction w using characters.induct with
  | case1 => exact Nat.le_refl 0
  | case2 word =>
    rw [characters, utf8_cons, List.length_append]
    exact (length_utf8Char _).2 (single_small word)
  | case3 high low rest both ih =>
    have width := (length_utf8Char (Char.ofNat (pairCode high low))).1
    rw [characters, if_pos both, utf8_cons, List.length_append, List.length_cons, List.length_cons]
    omega
  | case4 high low rest alone ih =>
    have width := (length_utf8Char (single high)).2 (single_small high)
    rw [List.length_cons] at ih
    rw [characters, if_neg alone, utf8_cons, List.length_append, List.length_cons, List.length_cons]
    omega

/-- The UTF-8 of a text in ASCII is the text, and so is its UTF-16. -/
theorem utf8_of_ascii {text : List Char} (ascii : ∀ c ∈ text, c.toNat < 128) :
    utf8 text = text.map fun c => UInt8.ofNat c.toNat := by
  induction text with
  | nil => rfl
  | cons c text ih =>
    have first : String.utf8EncodeChar c = [UInt8.ofNat c.toNat] :=
      if_pos (Nat.le_of_lt_succ (ascii c List.mem_cons_self))
    rw [utf8_cons, first, ih fun d member => ascii d (List.mem_cons_of_mem _ member), List.map_cons,
      List.singleton_append]

end Utf8

end NewNameAuction.WideText
