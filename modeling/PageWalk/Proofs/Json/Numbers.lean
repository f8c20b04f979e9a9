/-
PageWalk/Proofs/Json/Numbers.lean

Numbers in json are taken whole.

`NumberText` says how the numbers look that are written: a whole part without
needless zeros, perhaps a fraction, perhaps an exponent with its sign.  Such a
text is taken as one number, if what follows it could not go on with it
(`takeNumber_encode`), and counters (`Whole.toDigits`) and finite doubles
(`NumberText.render`) have such texts.
-/
import PageWalk.Json.Printer
import PageWalk.Json.Reader
import PageWalk.Proofs.Decimal.Style
import PageWalk.Proofs.Text.Utf8

namespace PageWalk.Json

/-! ### The texts of numbers -/

/-- One or more digits. -/
structure Digits (ds : List Char) : Prop where
  ne_nil : ds ≠ []
  digits : ∀ c ∈ ds, c.isDigit = true

/-- A whole part. -/
inductive Whole : List Char → Prop
  | zero : Whole ['0']
  | digits {ds : List Char} : Digits ds → ds.head? ≠ some '0' → Whole ds

/-- A fraction, if there is one. -/
inductive Fraction : List Char → Prop
  | none : Fraction []
  | point {ds : List Char} : Digits ds → Fraction ('.' :: ds)

/-- An exponent with its sign, if there is one. -/
inductive Exponent : List Char → Prop
  | none : Exponent []
  | signed {sign : Char} {ds : List Char} : sign = '+' ∨ sign = '-' → Digits ds →
      Exponent ('e' :: sign :: ds)

/-- The text of a number without a sign. -/
inductive Unsigned : List Char → Prop
  | parts {whole fraction exponent : List Char} : Whole whole → Fraction fraction →
      Exponent exponent → Unsigned (whole ++ fraction ++ exponent)

/-- The text of a number. -/
inductive NumberText : List Char → Prop
  | plain {cs : List Char} : Unsigned cs → NumberText cs
  | negative {cs : List Char} : Unsigned cs → NumberText ('-' :: cs)

/-- Nothing that could go on with a number. -/
def EndsNumber (rest : Bytes) : Prop :=
  ∀ b ∈ rest.head?, isDigit b = false ∧ b ≠ 0x2E ∧ b ≠ 0x65 ∧ b ≠ 0x45

/-! ### Digits as bytes -/

theorem encodeChar_of_lt {c : Char} (h : c.toNat < 0x80) :
    ∃ b, Utf8.encodeChar c = [b] ∧ charOf b = c := by
  refine ⟨.ofNat c.toNat, if_pos h, ?_⟩
  unfold charOf
  rw [UInt8.toNat_ofNat', Nat.mod_eq_of_lt (by omega), Char.ofNat_toNat]

theorem map_charOf_encode {cs : List Char} (h : ∀ c ∈ cs, c.toNat < 0x80) :
    (Utf8.encode cs).map charOf = cs := by
  induction cs with
  | nil => rfl
  | cons c cs ih =>
    rw [List.forall_mem_cons] at h
    obtain ⟨b, hb, hchar⟩ := encodeChar_of_lt h.1
    rw [Utf8.encode_cons, hb, List.map_append, ih h.2, List.map_singleton, hchar]
    rfl

theorem toNat_lt_of_isDigit {c : Char} (h : c.isDigit = true) : c.toNat < 0x80 := by
  simp only [Char.isDigit, Bool.and_eq_true, decide_eq_true_eq] at h
  exact Nat.lt_of_le_of_lt (UInt32.le_iff_toNat_le.1 h.2) (by decide)

theorem isDigit_of_mem_encode {ds : List Char} (h : ∀ c ∈ ds, c.isDigit = true) :
    ∀ b ∈ Utf8.encode ds, isDigit b = true := by
  intro b hb
  have hchar : charOf b ∈ (Utf8.encode ds).map charOf := List.mem_map_of_mem hb
  rw [map_charOf_encode fun c hc => toNat_lt_of_isDigit (h c hc)] at hchar
  exact h _ hchar

section Taking

variable {ds : List Char} {rest : Bytes}

/-- Digits are taken up to their end. -/
theorem takeDigits_encode (h : Digits ds) (hrest : ∀ b ∈ rest.head?, isDigit b = false) :
    takeDigits (Utf8.encode ds ++ rest) = some (Utf8.encode ds, rest) := by
  have hne : Utf8.encode ds ≠ [] := by
    obtain ⟨c, cs, rfl⟩ := List.exists_cons_of_ne_nil h.ne_nil
    obtain ⟨b, hb, -⟩ := encodeChar_of_lt (toNat_lt_of_isDigit (h.digits c List.mem_cons_self))
    rw [Utf8.encode_cons, hb]
    exact List.cons_ne_nil _ _
  have hall := isDigit_of_mem_encode h.digits
  have htake : rest.takeWhile isDigit = [] ∧ rest.dropWhile isDigit = rest := by
    cases rest with
    | nil => exact ⟨rfl, rfl⟩
    | cons b bs =>
      have hb := hrest b rfl
      exact ⟨List.takeWhile_cons_of_neg (by simp [hb]), List.dropWhile_cons_of_neg (by simp [hb])⟩
  unfold takeDigits
  rw [List.takeWhile_append_of_pos hall, List.dropWhile_append_of_pos hall, htake.1, htake.2,
    List.append_nil]
  exact if_neg (by simpa using hne)

theorem takeWhole_encode {whole : List Char} (h : Whole whole)
    (hrest : ∀ b ∈ rest.head?, isDigit b = false) :
    takeWhole (Utf8.encode whole ++ rest) = some (Utf8.encode whole, rest) := by
  cases h with
  | zero => rfl
  | digits hdigits hzero =>
    have htake := takeDigits_encode hdigits hrest
    obtain ⟨hne, hall⟩ := hdigits
    obtain ⟨c, cs, rfl⟩ := List.exists_cons_of_ne_nil hne
    obtain ⟨b, hb, hchar⟩ := encodeChar_of_lt (toNat_lt_of_isDigit (hall c List.mem_cons_self))
    rw [Utf8.encode_cons, hb] at htake ⊢
    rw [← htake]
    refine takeWhole.eq_2 _ ?_
    rintro bs heq
    -- the first digit is no zero
    obtain rfl := (List.cons.inj heq).1
    exact hzero (congrArg some hchar.symm)

theorem takeFraction_encode {fraction : List Char} (h : Fraction fraction)
    (hrest : ∀ b ∈ rest.head?, isDigit b = false ∧ b ≠ 0x2E) :
    takeFraction (Utf8.encode fraction ++ rest) = some (Utf8.encode fraction, rest) := by
  cases h with
  | none =>
    refine takeFraction.eq_2 _ ?_
    rintro bs rfl
    exact (hrest 0x2E rfl).2 rfl
  | point hdigits =>
    show (takeDigits (Utf8.encode _ ++ rest)).map _ = _
    rw [takeDigits_encode hdigits fun b hb => (hrest b hb).1]
    rfl

theorem takeExponent_encode {exponent : List Char} (h : Exponent exponent)
    (hrest : EndsNumber rest) :
    takeExponent (Utf8.encode exponent ++ rest) = some (Utf8.encode exponent, rest) := by
  cases h with
  | none =>
    cases rest with
    | nil => rfl
    | cons b bs =>
      obtain ⟨-, -, he, hE⟩ := hrest b rfl
      exact if_neg (by simp [he, hE])
  | signed hsign hdigits =>
    rename_i sign ds
    have htake := takeDigits_encode hdigits fun b hb => (hrest b hb).1
    rcases hsign with rfl | rfl
    · show (takeDigits (Utf8.encode ds ++ rest)).map _ = _
      rw [htake]
      rfl
    · show (takeDigits (Utf8.encode ds ++ rest)).map _ = _
      rw [htake]
      rfl

/-- What follows a whole part does not go on with it. -/
theorem isDigit_head_fraction {fraction exponent : List Char} (hfraction : Fraction fraction)
    (hexponent : Exponent exponent) (hrest : EndsNumber rest) :
    ∀ b ∈ (Utf8.encode fraction ++ (Utf8.encode exponent ++ rest)).head?, isDigit b = false := by
  intro b hb
  cases hfraction with
  | none =>
    cases hexponent with
    | none => exact (hrest b hb).1
    | signed =>
      obtain rfl := Option.some.inj hb
      decide
  | point =>
    obtain rfl := Option.some.inj hb
    decide

theorem isDigit_head_exponent {exponent : List Char} (hexponent : Exponent exponent)
    (hrest : EndsNumber rest) :
    ∀ b ∈ (Utf8.encode exponent ++ rest).head?, isDigit b = false ∧ b ≠ 0x2E := by
  intro b hb
  cases hexponent with
  | none => exact ⟨(hrest b hb).1, (hrest b hb).2.1⟩
  | signed =>
    obtain rfl := Option.some.inj hb
    decide

end Taking

/-! ### Numbers -/

theorem Digits.ascii {ds : List Char} (h : Digits ds) : ∀ c ∈ ds, c.toNat < 0x80 :=
  fun c hc => toNat_lt_of_isDigit (h.digits c hc)

theorem Unsigned.ascii {cs : List Char} (h : Unsigned cs) : ∀ c ∈ cs, c.toNat < 0x80 := by
  obtain ⟨hwhole, hfraction, hexponent⟩ := h
  rename_i whole fraction exponent
  have h1 : ∀ c ∈ whole, c.toNat < 0x80 := by
    cases hwhole with
    | zero => exact List.forall_mem_singleton.2 (by decide)
    | digits hdigits => exact hdigits.ascii
  have h2 : ∀ c ∈ fraction, c.toNat < 0x80 := by
    cases hfraction with
    | none => exact List.forall_mem_nil _
    | point hdigits => exact List.forall_mem_cons.2 ⟨by decide, hdigits.ascii⟩
  have h3 : ∀ c ∈ exponent, c.toNat < 0x80 := by
    cases hexponent with
    | none => exact List.forall_mem_nil _
    | signed hsign hdigits =>
      refine List.forall_mem_cons.2 ⟨by decide, List.forall_mem_cons.2 ⟨?_, hdigits.ascii⟩⟩
      rcases hsign with rfl | rfl <;> decide
  exact List.forall_mem_append.2 ⟨List.forall_mem_append.2 ⟨h1, h2⟩, h3⟩

/-- A whole part starts with a digit. -/
theorem Whole.head {whole : List Char} (h : Whole whole) :
    ∃ b bs, Utf8.encode whole = b :: bs ∧ isDigit b = true := by
  cases h with
  | zero => exact ⟨0x30, [], rfl, by decide⟩
  | digits hdigits =>
    obtain ⟨c, cs, rfl⟩ := List.exists_cons_of_ne_nil hdigits.ne_nil
    obtain ⟨b, hb, -⟩ := encodeChar_of_lt (hdigits.ascii c List.mem_cons_self)
    have hencode : Utf8.encode (c :: cs) = b :: Utf8.encode cs := by
      rw [Utf8.encode_cons, hb]
      rfl
    refine ⟨b, _, hencode, isDigit_of_mem_encode hdigits.digits b ?_⟩
    rw [hencode]
    exact List.mem_cons_self

theorem Unsigned.head {cs : List Char} (h : Unsigned cs) :
    ∃ b bs, Utf8.encode cs = b :: bs ∧ isDigit b = true := by
  obtain ⟨hwhole, -, -⟩ := h
  obtain ⟨b, bs, hb, hdigit⟩ := hwhole.head
  rw [Utf8.encode_append, Utf8.encode_append, hb]
  exact ⟨b, _, rfl, hdigit⟩

/-- The parts of a number are taken one after the other, behind a sign or not. -/
theorem takeNumber_unsigned {cs : List Char} {rest : Bytes} (h : Unsigned cs)
    (hrest : EndsNumber rest) :
    takeNumber (Utf8.encode cs ++ rest) = some (.number cs, rest) ∧
      takeNumber (0x2D :: (Utf8.encode cs ++ rest)) = some (.number ('-' :: cs), rest) := by
  have hchars := map_charOf_encode h.ascii
  obtain ⟨hwhole, hfraction, hexponent⟩ := h
  have hwhole' := takeWhole_encode hwhole (isDigit_head_fraction hfraction hexponent hrest)
  have hfraction' := takeFraction_encode hfraction (isDigit_head_exponent hexponent hrest)
  have hexponent' := takeExponent_encode hexponent hrest
  obtain ⟨b, bs, hhead, hdigit⟩ := hwhole.head
  rw [Utf8.encode_append, Utf8.encode_append] at hchars ⊢
  simp only [List.append_assoc, hhead, List.cons_append] at hchars hwhole' ⊢
  constructor
  · unfold takeNumber
    split
    rename_i sign parts hsplit
    split at hsplit
    · -- a digit is no sign
      rename_i heq
      obtain rfl := (List.cons.inj heq).1
      cases hdigit
    · cases hsplit
      simp only [hwhole', hfraction', hexponent', Option.bind_eq_bind, Option.bind_some,
        List.nil_append, List.cons_append, List.append_assoc, hchars]
      rfl
  · unfold takeNumber
    simp only [hwhole', hfraction', hexponent', Option.bind_eq_bind, Option.bind_some,
      List.nil_append, List.cons_append, List.append_assoc]
    rw [List.map_cons, hchars]
    rfl

/-- **A number is taken whole.** -/
theorem takeNumber_encode {cs : List Char} {rest : Bytes} (h : NumberText cs)
    (hrest : EndsNumber rest) :
    takeNumber (Utf8.encode cs ++ rest) = some (.number cs, rest) := by
  cases h with
  | plain h => exact (takeNumber_unsigned h hrest).1
  | negative h => exact (takeNumber_unsigned h hrest).2

/-- What a number starts with: a digit or the minus sign. -/
theorem NumberText.head {cs : List Char} (h : NumberText cs) :
    ∃ b bs, Utf8.encode cs = b :: bs ∧ (isDigit b = true ∨ b = 0x2D) := by
  cases h with
  | plain h =>
    obtain ⟨b, bs, hb, hdigit⟩ := h.head
    exact ⟨b, bs, hb, .inl hdigit⟩
  | negative => exact ⟨0x2D, _, rfl, .inr rfl⟩

/-! ### Counters -/

/-- The digits of a number start with a zero only if it is zero. -/
theorem head_toDigits {n : Nat} (h : 0 < n) : (Nat.toDigits 10 n).head? ≠ some '0' := by
  induction n using Nat.strongRecOn with
  | ind n ih =>
    by_cases hlt : n < 10
    · rw [Nat.toDigits_of_lt_base hlt]
      interval_cases n <;> decide
    · rw [Nat.toDigits_of_base_le (by decide) (by omega), List.head?_append_of_ne_nil]
      · exact ih (n / 10) (by omega) (by omega)
      · exact Nat.toDigits_ne_nil

theorem digits_toDigits (n : Nat) : Digits (Nat.toDigits 10 n) :=
  ⟨Nat.toDigits_ne_nil, fun _ hc => Nat.isDigit_of_mem_toDigits (by decide) (by decide) hc⟩

theorem Whole.toDigits (n : Nat) : Whole (Nat.toDigits 10 n) := by
  rcases Nat.eq_zero_or_pos n with rfl | hpos
  · exact .zero
  · exact .digits (digits_toDigits n) (head_toDigits hpos)

theorem NumberText.numeral (n : Nat) : NumberText (Text.numeral n) := by
  have h : Unsigned (Nat.toDigits 10 n ++ [] ++ []) := .parts (.toDigits n) .none .none
  rw [List.append_nil, List.append_nil] at h
  exact .plain h

/-! ### Doubles -/

section Doubles

variable {format : Decimal.Style} {digits : String} {ds : List Char}

theorem isDigit_of_mem_zeros (n : Nat) : ∀ c ∈ List.replicate n '0', c.isDigit = true :=
  List.all_eq_true.1 (Decimal.all_zeros n)

/-- Digits with the point after them, among them or before them. -/
theorem unsigned_place (format : Decimal.Style) (hds : digits.toList = ds) (h : Digits ds)
    (hzero : ds.head? ≠ some '0') (point : Int) :
    Unsigned (format.place digits point).toList := by
  obtain ⟨hne, hall⟩ := h
  have hplaced := Decimal.placed format hds point
  generalize (format.place digits point).toList = text at hplaced
  -- none of the texts has an exponent
  have hunsigned : ∀ {whole fraction : List Char}, Whole whole → Fraction fraction →
      Unsigned (whole ++ fraction) := by
    intro whole fraction hwhole hfraction
    have h := Unsigned.parts hwhole hfraction .none
    rwa [List.append_nil] at h
  cases hplaced with
  | after n =>
    refine hunsigned (.digits ⟨List.append_ne_nil_of_left_ne_nil hne _, ?_⟩ ?_) ?_
    · exact List.forall_mem_append.2 ⟨hall, isDigit_of_mem_zeros n⟩
    · rw [List.head?_append_of_ne_nil _ hne]
      exact hzero
    · cases format.wholeFraction with
      | true => exact .point ⟨List.cons_ne_nil _ _, isDigit_of_mem_zeros 1⟩
      | false => exact .none
  | @among n hpos hlt =>
    refine hunsigned (.digits ⟨?_, fun c hc => hall c (List.mem_of_mem_take hc)⟩ ?_)
      (.point ⟨?_, fun c hc => hall c (List.mem_of_mem_drop hc)⟩)
    · rw [Ne, List.take_eq_nil_iff, not_or]
      exact ⟨hpos.ne', hne⟩
    · rw [List.head?_take, if_neg hpos.ne']
      exact hzero
    · rw [Ne, List.drop_eq_nil_iff]
      omega
  | before n =>
    refine hunsigned .zero (.point ⟨List.append_ne_nil_of_right_ne_nil _ hne, ?_⟩)
    exact List.forall_mem_append.2 ⟨isDigit_of_mem_zeros n, hall⟩

/-- An exponent has a sign, its own or that of the style. -/
theorem exponent_toString (e : Int) :
    Exponent ("e" ++ (if 0 ≤ e then "+" else "") ++ toString e).toList := by
  rw [Int.toString_eq_repr, Int.repr_eq_if]
  split
  · rw [String.toList_append, Nat.toList_repr]
    exact .signed (.inl rfl) (digits_toDigits _)
  · rw [String.toList_append, String.toList_append, String.toList_append, Nat.toList_repr]
    exact .signed (.inr rfl) (digits_toDigits _)

/-- Digits with an exponent. -/
theorem unsigned_scientific (hsign : format.exponentSign = "+") (hds : digits.toList = ds)
    (h : Digits ds) (hzero : ds.head? ≠ some '0') (point : Int) :
    Unsigned (format.scientific digits point).toList := by
  obtain ⟨hne, hall⟩ := h
  have hexponent := exponent_toString (point - 1)
  unfold Decimal.Style.scientific
  rw [hds, hsign]
  dsimp only
  rw [String.append_assoc, String.append_assoc, String.toList_append, ← String.append_assoc]
  match ds, hne with
  | [d], _ =>
    have hwhole : Whole [d] := .digits ⟨List.cons_ne_nil _ _, hall⟩ hzero
    have htext := Unsigned.parts hwhole .none hexponent
    rw [List.append_nil] at htext
    rw [String.toList_ofList]
    exact htext
  | d :: d' :: ds, _ =>
    rw [List.forall_mem_cons] at hall
    have hwhole : Whole [d] :=
      .digits ⟨List.cons_ne_nil _ _, List.forall_mem_singleton.2 hall.1⟩ hzero
    have hfraction : Fraction ('.' :: d' :: ds) := .point ⟨List.cons_ne_nil _ _, hall.2⟩
    have htext := Unsigned.parts hwhole hfraction hexponent
    rw [String.toList_ofList]
    exact htext

end Doubles

/-- **A finite double** is written as a number. -/
theorem NumberText.render {x : Float} (h : x.isFinite = true) :
    NumberText (numberStyle.render x).toList := by
  have hsigned : ∀ s cs, Unsigned cs → NumberText (Decimal.signText s ++ cs) := by
    intro s cs hcs
    cases s with
    | negative => exact .negative hcs
    | positive => exact .plain hcs
  have hrendered := Decimal.rendered numberStyle x
  generalize (numberStyle.render x).toList = text at hrendered
  cases hrendered with
  | notANumber => exact absurd h (by decide +kernel)
  | infinity => exact absurd h (by decide +kernel)
  | negativeInfinity => exact absurd h (by decide +kernel)
  | zero s =>
    exact hsigned s _ (.parts .zero (.point ⟨List.cons_ne_nil _ _, isDigit_of_mem_zeros 1⟩) .none)
  | @finite s m d q k hparts positional hrounds =>
    -- the decimal rounds to a positive double, so it is not zero
    have hd : 0 < d := by
      rcases Nat.eq_zero_or_pos d with rfl | hpos
      · have hpos := hrounds.pos hparts.pos
        simp at hpos
      · exact hpos
    have hdigits := digits_toDigits d
    have hzero := head_toDigits hd
    refine hsigned s _ ?_
    cases positional with
    | true => exact unsigned_place numberStyle (Text.toList_toString d) hdigits hzero _
    | false => exact unsigned_scientific rfl (Text.toList_toString d) hdigits hzero _

end PageWalk.Json
