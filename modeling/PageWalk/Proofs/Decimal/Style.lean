/-
PageWalk/Proofs/Decimal/Style.lean

Doubles are read back from their texts.

Wherever a style puts the point, and whether or not it writes an exponent,
the text spells the value of the shortest decimal (`spells_place`,
`spells_scientific`), and that rounds to the double.  `Style.Placed` and
`Style.Rendered` list what these texts can be.
-/
import PageWalk.Decimal.Style
import PageWalk.Proofs.Decimal.Shortest
import PageWalk.Proofs.Text.Numeral

open Float.Model.UnpackedFloat (Sign)

namespace PageWalk.Decimal

open Text (numeralValue)

/-! ### Reading digits -/

/-- A text that starts with a digit and is read as the decimal `v`. -/
structure Spells (text : List Char) (v : ℚ) : Prop where
  digit : ∃ c cs, text = c :: cs ∧ c.isDigit = true
  value : ∃ n e, decimal? text = some (n, e) ∧ (n : ℚ) * 10 ^ e = v

/-- What may follow the digits of a number. -/
def EndsDigits (tail : List Char) : Prop := ∀ c ∈ tail.head?, c.isDigit = false ∧ c ≠ '.'

theorem endsDigits_nil : EndsDigits [] := by
  intro c hc
  cases hc

section Reading

variable {whole fraction tail : List Char} {e : Int}

theorem takeWhile_digits (hall : whole.all Char.isDigit = true)
    (htail : ∀ c ∈ tail.head?, c.isDigit = false) :
    (whole ++ tail).takeWhile Char.isDigit = whole ∧
      (whole ++ tail).dropWhile Char.isDigit = tail := by
  have hdigits : ∀ c ∈ whole, c.isDigit = true := List.all_eq_true.1 hall
  rw [List.takeWhile_append_of_pos hdigits, List.dropWhile_append_of_pos hdigits]
  cases tail with
  | nil => exact ⟨List.append_nil _, rfl⟩
  | cons c cs =>
    have hc := htail c rfl
    rw [List.takeWhile_cons_of_neg (by simp [hc]), List.dropWhile_cons_of_neg (by simp [hc])]
    exact ⟨List.append_nil _, rfl⟩

theorem starts_with_digit (hne : whole ≠ []) (hall : whole.all Char.isDigit = true)
    (tail : List Char) : ∃ c cs, whole ++ tail = c :: cs ∧ c.isDigit = true := by
  obtain ⟨c, cs, rfl⟩ := List.exists_cons_of_ne_nil hne
  exact ⟨c, cs ++ tail, rfl, List.all_eq_true.1 hall c List.mem_cons_self⟩

/-- A whole number, with or without an exponent. -/
theorem spells_whole (hne : whole ≠ []) (hall : whole.all Char.isDigit = true)
    (htail : EndsDigits tail) (he : exponent? tail = some e) :
    Spells (whole ++ tail) (numeralValue whole * 10 ^ e) := by
  obtain ⟨htake, hdrop⟩ := takeWhile_digits hall fun c hc => (htail c hc).1
  have hemp : whole.isEmpty = false := List.isEmpty_eq_false_iff.2 hne
  refine ⟨starts_with_digit hne hall tail, numeralValue whole, e, ?_, rfl⟩
  have hpoint : ∀ cs, tail ≠ '.' :: cs := by
    rintro cs rfl
    exact (htail '.' rfl).2 rfl
  unfold decimal?
  simp only [htake, hdrop, hemp, Bool.false_and, he]
  simp

/-- A number with a point, with or without an exponent. -/
theorem spells_point (hne : whole ≠ []) (hall : whole.all Char.isDigit = true)
    (hall' : fraction.all Char.isDigit = true) (htail : EndsDigits tail)
    (he : exponent? tail = some e) :
    Spells (whole ++ '.' :: (fraction ++ tail))
      (numeralValue (whole ++ fraction) * 10 ^ (e - fraction.length)) := by
  have hdot : ∀ c ∈ ('.' :: (fraction ++ tail)).head?, c.isDigit = false := by
    intro c hc
    obtain rfl := Option.some.inj hc
    rfl
  obtain ⟨htake, hdrop⟩ := takeWhile_digits hall hdot
  obtain ⟨htake', hdrop'⟩ := takeWhile_digits hall' fun c hc => (htail c hc).1
  have hemp : whole.isEmpty = false := List.isEmpty_eq_false_iff.2 hne
  refine ⟨starts_with_digit hne hall _, numeralValue (whole ++ fraction), e - fraction.length,
    ?_, rfl⟩
  unfold decimal?
  simp only [htake, hdrop, htake', hdrop', hemp, Bool.false_and, he]
  rfl

/-- A number with a point, without an exponent. -/
theorem spells_fraction (hne : whole ≠ []) (hall : whole.all Char.isDigit = true)
    (hall' : fraction.all Char.isDigit = true) :
    Spells (whole ++ '.' :: fraction)
      (numeralValue (whole ++ fraction) * 10 ^ (0 - (fraction.length : Int))) := by
  have h := spells_point hne hall hall' endsDigits_nil rfl
  rwa [List.append_nil] at h

end Reading

/-! ### Where the point stands -/

section Places

variable {digits : String} {ds : List Char}

theorem all_zeros (n : Nat) : (List.replicate n '0').all Char.isDigit = true := by
  rw [List.all_eq_true]
  intro a ha
  obtain rfl := List.eq_of_mem_replicate ha
  rfl

/-- Where the point can stand: after the digits and perhaps some zeros, among
them, or before some zeros and them. -/
inductive Style.Placed (format : Style) (ds : List Char) : Int → List Char → Prop
  | after (n : Nat) : Placed format ds (ds.length + n)
      (ds ++ List.replicate n '0' ++ (if format.wholeFraction then ".0" else "").toList)
  | among {n : Nat} : 0 < n → n < ds.length → Placed format ds n (ds.take n ++ '.' :: ds.drop n)
  | before (n : Nat) : Placed format ds (-n) (['0'] ++ '.' :: (List.replicate n '0' ++ ds))

theorem placed (format : Style) (hds : digits.toList = ds) (point : Int) :
    format.Placed ds point (format.place digits point).toList := by
  have hlength : digits.length = ds.length := by rw [← hds, String.length_toList]
  have hzeros : ∀ n, (zeros n).toList = List.replicate n '0' := fun n => String.toList_ofList
  unfold Style.place
  rw [hlength]
  dsimp only
  split
  · rename_i hle
    obtain ⟨n, hn⟩ := Int.eq_ofNat_of_zero_le (show 0 ≤ point - ds.length by omega)
    obtain rfl : point = ds.length + n := by omega
    rw [hn, Int.toNat_natCast, String.toList_append, String.toList_append, hds, hzeros]
    exact .after n
  split
  · rename_i hlt hpoint
    obtain ⟨n, rfl⟩ := Int.eq_ofNat_of_zero_le hpoint.le
    simp only [Int.toNat_natCast, String.toList_append, String.toList_ofList, hds,
      List.append_assoc]
    have hn : 0 < n ∧ n < ds.length := by omega
    exact .among hn.1 hn.2
  · rename_i hlt hpoint
    obtain ⟨n, rfl⟩ := Int.exists_eq_neg_ofNat (not_lt.1 hpoint)
    rw [neg_neg, Int.toNat_natCast, String.toList_append, String.toList_append, hzeros, hds,
      List.append_assoc]
    exact .before n

/-- Digits with the point anywhere among them, or beyond them. -/
theorem spells_place (format : Style) (hds : digits.toList = ds) (hne : ds ≠ [])
    (hall : ds.all Char.isDigit = true) (point : Int) :
    Spells (format.place digits point).toList (numeralValue ds * 10 ^ (point - ds.length)) := by
  have hplaced := placed format hds point
  generalize (format.place digits point).toList = text at hplaced
  cases hplaced with
  | after n =>
    have hwhole : (ds ++ List.replicate n '0').all Char.isDigit = true := by
      rw [List.all_append, hall, all_zeros]; rfl
    have hne' : ds ++ List.replicate n '0' ≠ [] := List.append_ne_nil_of_left_ne_nil hne _
    have hvalue := Text.numeralValue_append_zeros ds
    rw [show (ds.length : Int) + n - ds.length = n by omega, zpow_natCast]
    cases format.wholeFraction with
    | true =>
      have heq : (numeralValue ds * 10 ^ n : ℚ)
          = numeralValue ((ds ++ List.replicate n '0') ++ ['0']) * 10 ^ (0 - (1 : Int)) := by
        rw [List.append_assoc, ← List.replicate_succ', hvalue, zero_sub, zpow_neg_one, pow_succ]
        push_cast
        ring
      rw [heq]
      show Spells ((ds ++ List.replicate n '0') ++ '.' :: ['0']) _
      exact spells_fraction hne' hwhole rfl
    | false =>
      have heq : (numeralValue ds * 10 ^ n : ℚ)
          = numeralValue (ds ++ List.replicate n '0') * 10 ^ (0 : Int) := by
        rw [hvalue, zpow_zero]
        push_cast
        ring
      rw [heq]
      show Spells ((ds ++ List.replicate n '0') ++ []) _
      exact spells_whole hne' hwhole endsDigits_nil rfl
  | @among n hpos hlt =>
    have heq : (numeralValue ds * 10 ^ ((n : Int) - ds.length) : ℚ)
        = numeralValue (ds.take n ++ ds.drop n) * 10 ^ (0 - ((ds.drop n).length : Int)) := by
      rw [List.take_append_drop, List.length_drop,
        show (n : Int) - ds.length = 0 - ((ds.length - n : Nat) : Int) by omega]
    have hall' := hall
    rw [← List.take_append_drop n ds, List.all_append, Bool.and_eq_true] at hall'
    rw [heq]
    refine spells_fraction ?_ hall'.1 hall'.2
    rw [Ne, List.take_eq_nil_iff, not_or]
    exact ⟨hpos.ne', hne⟩
  | before n =>
    have heq : (numeralValue ds * 10 ^ (-(n : Int) - ds.length) : ℚ)
        = numeralValue (['0'] ++ (List.replicate n '0' ++ ds))
          * 10 ^ (0 - ((List.replicate n '0' ++ ds).length : Int)) := by
      rw [show ['0'] ++ (List.replicate n '0' ++ ds) = List.replicate (n + 1) '0' ++ ds from rfl,
        Text.numeralValue_zeros_append, List.length_append, List.length_replicate,
        show -(n : Int) - ds.length = 0 - ((n + ds.length : Nat) : Int) by omega]
    rw [heq]
    refine spells_fraction (List.cons_ne_nil _ _) (by decide) ?_
    rw [List.all_append, hall, all_zeros]; rfl

/-! ### Exponents -/

theorem splitSign_digits (n : Nat) :
    splitSign (Nat.toDigits 10 n) = (false, Nat.toDigits 10 n) := by
  obtain ⟨c, cs, h, hc, -⟩ := Text.toDigits_cons n
  rw [h]
  unfold splitSign
  split
  · rename_i heq
    injection heq with heq
    exact absurd heq (Text.ne_of_isDigit hc rfl)
  · rename_i heq
    injection heq with heq
    exact absurd heq (Text.ne_of_isDigit hc rfl)
  · rfl

/-- An exponent is read back, with or without a sign where it is not
negative. -/
theorem exponent?_toString {sign : String} (hsign : sign = "" ∨ sign = "+") (e : Int) :
    exponent? ('e' :: ((if 0 ≤ e then sign else "") ++ toString e).toList) = some e := by
  have hread : ∀ cs negative n, splitSign cs = (negative, Nat.toDigits 10 n) →
      exponent? ('e' :: cs) = some (if negative then -(n : Int) else n) := by
    intro cs negative n h
    unfold exponent?
    simp only [h, Text.numeral?_toDigits]
    rfl
  rw [Int.toString_eq_repr, Int.repr_eq_if]
  split
  · -- not negative
    rename_i he
    obtain ⟨n, rfl⟩ := Int.eq_ofNat_of_zero_le he
    rw [String.toList_append, Int.toNat_natCast, Nat.toList_repr]
    rcases hsign with rfl | rfl
    · exact hread _ false n (splitSign_digits n)
    · exact hread _ false n rfl
  · rename_i he
    obtain ⟨n, rfl⟩ := Int.exists_eq_neg_ofNat (not_le.1 he).le
    rw [neg_neg, Int.toNat_natCast, String.toList_append, String.toList_append, Nat.toList_repr]
    exact hread _ true n rfl

/-- Digits with an exponent. -/
theorem spells_scientific {format : Style}
    (hsign : format.exponentSign = "" ∨ format.exponentSign = "+") (hds : digits.toList = ds)
    (hne : ds ≠ []) (hall : ds.all Char.isDigit = true) (point : Int) :
    Spells (format.scientific digits point).toList
      (numeralValue ds * 10 ^ (point - ds.length)) := by
  have htail : ∀ cs, EndsDigits ('e' :: cs) := by
    intro cs c hc
    obtain rfl : 'e' = c := Option.some.inj hc
    exact ⟨rfl, by decide⟩
  have he := exponent?_toString hsign (point - 1)
  unfold Style.scientific
  rw [hds]
  dsimp only
  generalize (if 0 ≤ point - 1 then format.exponentSign else "") = sign at *
  have htext : ∀ mantissa : String, (mantissa ++ "e" ++ sign ++ toString (point - 1)).toList
      = mantissa.toList ++ 'e' :: (sign ++ toString (point - 1)).toList := by
    intro mantissa
    simp only [String.toList_append, List.append_assoc]
    rfl
  rw [htext]
  match ds, hne with
  | [d], _ =>
    rw [String.toList_ofList]
    exact spells_whole (List.cons_ne_nil _ _) hall (htail _) he
  | d :: d' :: ds, _ =>
    have heq : (numeralValue (d :: d' :: ds) * 10 ^ (point - ((d :: d' :: ds).length : Int)) : ℚ)
        = numeralValue ([d] ++ (d' :: ds)) * 10 ^ (point - 1 - ((d' :: ds).length : Int)) := by
      rw [List.length_cons, Nat.cast_succ,
        show point - (((d' :: ds).length : Int) + 1) = point - 1 - ((d' :: ds).length : Int) by omega]
      rfl
    rw [List.all_cons, Bool.and_eq_true] at hall
    rw [String.toList_ofList, heq]
    have hall' : [d].all Char.isDigit = true := by rw [List.all_cons, hall.1]; rfl
    exact spells_point (List.cons_ne_nil _ _) hall' hall.2 (htail _) he

end Places

/-! ### The texts of doubles -/

/-- The sign in front of a text. -/
def signText : Sign → List Char
  | .negative => ['-']
  | .positive => []

/-- The text of a double, by its kind.  The digits of a finite one are those of
a decimal that rounds to it, and the point stands where the style has it. -/
inductive Style.Rendered (format : Style) : Float → List Char → Prop
  | notANumber : Rendered format (.ofModel (.pack .notANumber)) format.notANumber.toList
  | infinity :
      Rendered format (.ofModel (.pack (.infinity .positive))) format.infinity.toList
  | negativeInfinity :
      Rendered format (.ofModel (.pack (.infinity .negative))) format.negativeInfinity.toList
  | zero (s : Sign) : Rendered format (.ofModel (.pack (.zero s)))
      (signText s ++ (if format.wholeFraction then "0.0" else "0").toList)
  | finite (s : Sign) {m d : Nat} {q k : Int} (h : Double.Parts m q) (positional : Bool) :
      Double.Rounds m q (d * 10 ^ k) →
      Rendered format (Double.ofParts s h)
        (signText s ++ (if positional then format.place (toString d) ((toString d).length + k)
          else format.scientific (toString d) ((toString d).length + k)).toList)

theorem rendered (format : Style) (x : Float) : format.Rendered x (format.render x).toList := by
  unfold Style.render
  rcases Double.kinds x with rfl | ⟨s, rfl⟩ | ⟨s, rfl⟩ | ⟨s, m, q, hparts, rfl⟩
  · rw [show Double.ofFloat _ = .notANumber by decide +kernel]
    exact .notANumber
  · cases s with
    | negative =>
      rw [show Double.ofFloat _ = .infinite true by decide +kernel]
      exact .negativeInfinity
    | positive =>
      rw [show Double.ofFloat _ = .infinite false by decide +kernel]
      exact .infinity
  · cases s with
    | negative =>
      rw [show Double.ofFloat _ = .finite true 0 (-1074) by decide +kernel]
      dsimp only
      rw [if_pos rfl, String.toList_append]
      exact .zero .negative
    | positive =>
      rw [show Double.ofFloat _ = .finite false 0 (-1074) by decide +kernel]
      dsimp only
      rw [if_pos rfl, String.toList_append]
      exact .zero .positive
  · rw [Double.ofFloat_ofParts]
    dsimp only
    rw [if_neg hparts.pos.ne', String.toList_append]
    have hrounds := shortest_rounds format.tie hparts
    generalize shortest format.tie m q = dk at *
    obtain ⟨d, k⟩ := dk
    cases s with
    | negative => exact .finite .negative hparts _ hrounds
    | positive => exact .finite .positive hparts _ hrounds

/-! ### Reading a double back -/

/-- A style whose words for what is no finite number are read back, and
whose exponents are. -/
structure Style.Readable (format : Style) : Prop where
  exponentSign : format.exponentSign = "" ∨ format.exponentSign = "+"
  notANumber : float? format.notANumber.toList = some (0.0 / 0.0)
  infinity : float? format.infinity.toList = some (1.0 / 0.0)
  negativeInfinity : float? format.negativeInfinity.toList = some (-(1.0 / 0.0))

theorem toLower_of_isDigit {c : Char} (hc : c.isDigit = true) : c.toLower = c := by
  have hle : c.val ≤ '9'.val := by
    simp only [Char.isDigit, Bool.and_eq_true, decide_eq_true_eq] at hc
    exact hc.2
  unfold Char.toLower
  rw [dif_neg]
  rintro ⟨hge, -⟩
  exact absurd (UInt32.le_trans hge hle) (by decide)

/-- A text of digits that spells what rounds to a double is read as it,
with either sign. -/
theorem float?_of_spells {text : List Char} {v : ℚ} (hspells : Spells text v) {m : Nat} {q : Int}
    (h : Double.Parts m q) (hrounds : Double.Rounds m q v) :
    float? text = some (Double.ofParts .positive h) ∧
      float? ('-' :: text) = some (Double.ofParts .negative h) := by
  obtain ⟨⟨c, cs, rfl, hc⟩, n, e, hdecimal, rfl⟩ := hspells
  have hnearest := Double.nearestFloat_eq h hrounds
  have hsign : splitSign (c :: cs) = (false, c :: cs) := by
    unfold splitSign
    split
    · rename_i heq
      injection heq with heq
      exact absurd heq (Text.ne_of_isDigit hc rfl)
    · rename_i heq
      injection heq with heq
      exact absurd heq (Text.ne_of_isDigit hc rfl)
    · rfl
  -- a text of digits is none of the words for what is no finite number
  have hword : ∀ d ds, d.isDigit = false → (c :: cs).map Char.toLower ≠ d :: ds := by
    intro d ds hd heq
    rw [List.map_cons] at heq
    injection heq with heq
    rw [toLower_of_isDigit hc] at heq
    exact absurd heq (Text.ne_of_isDigit hc hd)
  have hneg : -Double.ofParts .positive h = Double.ofParts .negative h := by
    show Float.ofModel (.pack (Double.ofParts .positive h).toModel.unpack.neg) = _
    rw [Double.unpack_ofParts]
    rfl
  have hmagnitude : ∀ negative text, splitSign text = (negative, c :: cs) →
      float? text = some (if negative then -nearestFloat n e else nearestFloat n e) := by
    intro negative text htext
    unfold float?
    simp only [htext, hword _ _ (show 'i'.isDigit = false from rfl),
      hword _ _ (show 'n'.isDigit = false from rfl), hdecimal]
    rfl
  constructor
  · rw [hmagnitude false _ hsign, hnearest]
    rfl
  · rw [hmagnitude true _ rfl, hnearest]
    exact congrArg some hneg

/-- **Every double is read back from its text**: the finite ones, zeros with
their signs, the infinities, and what is no number. -/
theorem float?_render {format : Style} (h : format.Readable) (x : Float) :
    float? (format.render x).toList = some x := by
  have hrendered := rendered format x
  generalize (format.render x).toList = text at hrendered
  cases hrendered with
  | notANumber =>
    refine h.notANumber.trans ?_
    decide +kernel
  | infinity =>
    refine h.infinity.trans ?_
    decide +kernel
  | negativeInfinity =>
    refine h.negativeInfinity.trans ?_
    decide +kernel
  | zero s => cases s <;> cases format.wholeFraction <;> decide +kernel
  | @finite s m d q k hparts positional hrounds =>
    obtain ⟨c, cs, hdigits, hc, hcs⟩ := Text.toDigits_cons d
    have hall : (Nat.toDigits 10 d).all Char.isDigit = true := by
      rw [hdigits, List.all_cons, hc, hcs]; rfl
    have hpoint : ((toString d).length : Int) + k - (Nat.toDigits 10 d).length = k := by
      rw [Text.length_toString]
      omega
    have hplace := spells_place format (Text.toList_toString d) Nat.toDigits_ne_nil hall
      ((toString d).length + k)
    have hscientific := spells_scientific h.exponentSign (Text.toList_toString d)
      Nat.toDigits_ne_nil hall ((toString d).length + k)
    rw [hpoint, Text.numeralValue_toDigits] at hplace hscientific
    have hspells : Spells (if positional then format.place (toString d) ((toString d).length + k)
        else format.scientific (toString d) ((toString d).length + k)).toList (d * 10 ^ k) := by
      cases positional with
      | true => exact hplace
      | false => exact hscientific
    cases s with
    | negative => exact (float?_of_spells hspells hparts hrounds).2
    | positive => exact (float?_of_spells hspells hparts hrounds).1

end PageWalk.Decimal
