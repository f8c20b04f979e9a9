/-
PageWalk/Proofs/Json/Strings.lean

Texts in json are read back.

A text is spelled byte by byte, each in one of three ways (`Escaped`).  So it is
enough that each byte is read back, whatever follows it: as a part of the
spelling (`takeString_escape`), and as what it stands for (`unescape?_escape`).
-/
import PageWalk.Json.Printer
import PageWalk.Json.Reader
import PageWalk.Proofs.Text.Utf8

namespace PageWalk

/-- A byte of ASCII is its character. -/
theorem Utf8.encodeChar_ascii {b : UInt8} (h : b < 0x80) : encodeChar (.ofNat b.toNat) = [b] := by
  have hfront : front b [] = (some (.ofNat b.toNat), 0) := if_pos h
  have hencode : encodeChar (.ofNat b.toNat) = b :: ([] : Bytes).take (front b []).2 :=
    encodeChar_front (congrArg Prod.fst hfront)
  rw [hencode, hfront]
  rfl

namespace Json

/-- The ways to write a byte: as it is, by a letter after a backslash, or by its
number. -/
inductive Escaped (b : UInt8) : Bytes → Prop
  | plain : b ≠ 0x22 → b ≠ 0x5C → ¬ b < 0x20 → Escaped b [b]
  | letter {c : UInt8} : c ≠ 0x75 → escaped? c = some b → Escaped b [0x5C, c]
  | number {high low : UInt8} : b < 0x20 → codeUnit? [0x30, 0x30, high, low] = some b.toNat →
      isHexDigit high = true → isHexDigit low = true →
      Escaped b [0x5C, 0x75, 0x30, 0x30, high, low]

/-- The two digits of a control character. -/
theorem hexByte_digits : ∀ n : Fin 32,
    codeUnit? [0x30, 0x30, hexByte (n / 16), hexByte (n % 16)] = some n.val ∧
      isHexDigit (hexByte (n / 16)) = true ∧ isHexDigit (hexByte (n % 16)) = true := by
  decide

theorem escaped_escape (b : UInt8) : Escaped b (escape b) := by
  unfold escape
  split
  · rename_i h
    simp only [Bool.or_eq_true, beq_iff_eq] at h
    rcases h with rfl | rfl <;> exact .letter (by decide) (by decide)
  rename_i hmarks
  -- the controls that have a letter
  iterate 5
    split
    · rename_i h
      obtain rfl := beq_iff_eq.1 h
      exact .letter (by decide) (by decide)
  split
  · rename_i hlow
    obtain ⟨hunit, hhigh, hlow'⟩ := hexByte_digits ⟨b.toNat, UInt8.lt_iff_toNat_lt.1 hlow⟩
    exact .number hlow hunit hhigh hlow'
  · rename_i hlow
    simp only [Bool.or_eq_true, beq_iff_eq, not_or] at hmarks
    exact .plain hmarks.1 hmarks.2 hlow

/-! ### One byte -/

/-- Whether or not what follows is another number, a number below the surrogates
is one character. -/
theorem unescape?_number {a b c d : UInt8} {u : Nat} (h : codeUnit? [a, b, c, d] = some u)
    (hlow : u < 0xD800) (bs : Bytes) :
    unescape? (0x5C :: 0x75 :: a :: b :: c :: d :: bs)
      = (unescape? bs).map (Utf8.encodeChar (.ofNat u) ++ ·) := by
  by_cases hnext : ∃ e f g h bs', bs = 0x5C :: 0x75 :: e :: f :: g :: h :: bs'
  · obtain ⟨e, f, g, h', bs', rfl⟩ := hnext
    rw [unescape?, h, Option.bind_some, if_neg (by simp; omega), if_neg (by simp; omega)]
  · rw [unescape?, h, Option.bind_some, if_neg (by simp; omega)]
    intro e f g h' bs' heq
    exact hnext ⟨e, f, g, h', bs', heq⟩

theorem unescape?_escape (b : UInt8) (bs : Bytes) :
    unescape? (escape b ++ bs) = (unescape? bs).map (b :: ·) := by
  have h := escaped_escape b
  generalize escape b = spelling at h
  cases h with
  | plain hquote hslash hlow =>
    rw [List.singleton_append, unescape?, if_neg (by simpa using hslash)]
    · exact fun _ _ _ _ _ _ _ _ _ heq => absurd heq hslash
    · exact fun _ _ _ _ _ heq => absurd heq hslash
    · exact fun _ _ heq => absurd heq hslash
  | letter hu hc =>
    rw [List.cons_append, List.singleton_append, unescape?, hc, Option.bind_some]
    · exact fun _ _ _ _ _ _ _ _ _ heq => absurd heq hu
    · exact fun _ _ _ _ _ heq => absurd heq hu
  | number hlow hunit _ _ =>
    have hlt : b.toNat < 0x20 := UInt8.lt_iff_toNat_lt.1 hlow
    have hascii : b < 0x80 := UInt8.lt_iff_toNat_lt.2 (hlt.trans (by decide))
    have hchar := Utf8.encodeChar_ascii hascii
    show unescape? (0x5C :: 0x75 :: 0x30 :: 0x30 :: _ :: _ :: bs) = _
    rw [unescape?_number hunit (by omega), hchar]
    rfl

theorem takeString_escape (b : UInt8) (bs : Bytes) :
    takeString (escape b ++ bs) = (takeString bs).map fun (s, rest) => (escape b ++ s, rest) := by
  have h := escaped_escape b
  generalize escape b = spelling at h
  cases h with
  | plain hquote hslash hlow =>
    rw [List.singleton_append, takeString, if_neg (by simp [hlow, hslash])]
    · rfl
    · exact fun heq => absurd heq hquote
    · exact fun _ _ _ _ _ heq => absurd heq hslash
    · exact fun _ _ heq => absurd heq hslash
  | letter hu hc =>
    rw [List.cons_append, List.singleton_append, takeString, if_pos (by rw [hc]; rfl)]
    · rfl
    · exact fun _ _ _ _ _ heq => absurd heq hu
  | number _ _ hhigh hlow =>
    show takeString (0x5C :: 0x75 :: 0x30 :: 0x30 :: _ :: _ :: bs) = _
    rw [takeString, if_pos]
    · rfl
    · have hzero : isHexDigit 0x30 = true := by decide
      simp [hhigh, hlow, hzero]

/-! ### Texts -/

/-- **Spelling a text** gives it back. -/
theorem spelledText?_spell (s : String) : spelledText? (spell s) = some s := by
  have hall : ∀ bs : Bytes, unescape? (bs.flatMap escape) = some bs := by
    intro bs
    induction bs with
    | nil => rfl
    | cons b bs ih =>
      rw [List.flatMap_cons, unescape?_escape, ih]
      rfl
  unfold spelledText? spell
  rw [hall, Option.bind_some, Utf8.decode?_encode, Option.map_some, String.ofList_toList]

@[simp] theorem text?_ofText (s : String) : text? (ofText s) = some s := spelledText?_spell s

/-- A spelling ends at its quote. -/
theorem takeString_spell (s : String) (rest : Bytes) :
    takeString (spell s ++ 0x22 :: rest) = some (spell s, rest) := by
  unfold spell
  induction Utf8.encode s.toList with
  | nil => rfl
  | cons b bs ih =>
    rw [List.flatMap_cons, List.append_assoc, takeString_escape, ih]
    rfl

end Json

end PageWalk
