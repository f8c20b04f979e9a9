/-
PageWalk/Proofs/Text/Utf8.lean

Where a byte sequence may be cut without breaking a character, and that
texts and the byte sequences that spell them are the same thing.

A piece never reaches beyond the next byte that does not continue a
character, whether it is whole or broken.  So reading commutes with cutting
in front of such a byte (`decode?_append`), in particular at a newline.
`decode?_encode` and `encode_of_decode?` say that writing and reading are
inverse to each other.
-/
import Mathlib.Data.List.Basic
import Mathlib.Data.List.TakeWhile
import PageWalk.Text.Utf8

namespace PageWalk.Utf8

/-! ### One piece -/

theorem decode?_cons (b : UInt8) (bs : Bytes) :
    decode? (b :: bs)
      = (front b bs).1.bind fun c => (decode? (bs.drop (front b bs).2)).map (c :: ·) := by
  unfold decode?
  rw [pieces]
  rcases front b bs with ⟨c?, k⟩
  cases c? with
  | none => simp [Except.toOption]
  | some c => cases h : (pieces (bs.drop k)).mapM Except.toOption <;> simp [Except.toOption, h]

/-- A byte below 128 is a character by itself, whatever follows. -/
theorem decode?_ascii_cons {b : UInt8} (hb : b < 0x80) (bs : Bytes) :
    decode? (b :: bs) = (decode? bs).map (Char.ofNat b.toNat :: ·) := by
  rw [decode?_cons]
  simp [front, hb]

/-- Whatever may follow a lead byte continues a character. -/
theorem following_range {b : UInt8} {n : Nat} {lo hi : UInt8}
    (h : following b = some (n, lo, hi)) : 0x80 ≤ lo ∧ hi ≤ 0xBF := by
  unfold following at h
  repeat' split at h
  all_goals simp at h
  all_goals obtain ⟨-, rfl, rfl⟩ := h; decide

theorem belonging_le (n : Nat) (lo hi : UInt8) (bs : Bytes) :
    belonging n lo hi bs ≤ bs.length := by
  rcases n with - | n
  · simp [belonging]
  · rcases bs with - | ⟨b, bs⟩
    · simp [belonging]
    · simp only [belonging]
      split
      · have h := (List.takeWhile_sublist (l := bs.take n) isContinuation).length_le
        rw [List.length_take] at h
        simp only [List.length_cons]
        omega
      · exact Nat.zero_le _

/-! ### Cutting in front of a byte that continues nothing -/

section Cut

variable {ys : Bytes} (hys : ∀ y ∈ ys.head?, isContinuation y = false)

include hys

theorem takeWhile_continuation_cut (n : Nat) (xs : Bytes) :
    ((xs ++ ys).take n).takeWhile isContinuation = (xs.take n).takeWhile isContinuation := by
  -- the first byte of `ys` ends the run
  have hstop : ∀ m, (ys.take m).takeWhile isContinuation = [] := by
    intro m
    rcases ys with - | ⟨y, ys⟩
    · simp
    · rcases m with - | m
      · rfl
      · simp [hys y rfl]
  rw [List.take_append, List.takeWhile_append]
  split
  · rename_i h
    rw [hstop, List.append_nil]
    exact ((List.takeWhile_sublist isContinuation).eq_of_length h).symm
  · rfl

theorem belonging_cut {n : Nat} {lo hi : UInt8} (hlo : 0x80 ≤ lo) (hhi : hi ≤ 0xBF)
    (xs : Bytes) : belonging n lo hi (xs ++ ys) = belonging n lo hi xs := by
  rcases n with - | n
  · simp [belonging]
  rcases xs with - | ⟨x, xs⟩
  · rcases ys with - | ⟨y, ys⟩
    · rfl
    · -- the first byte of `ys` is in no range
      have hy : ¬ (lo ≤ y ∧ y ≤ hi) := by
        rintro ⟨h1, h2⟩
        have := hys y rfl
        simp [isContinuation, UInt8.le_trans hlo h1, UInt8.le_trans h2 hhi] at this
      simp [belonging, hy]
  · simp only [List.cons_append, belonging, takeWhile_continuation_cut hys]

theorem front_cut (b : UInt8) (xs : Bytes) : front b (xs ++ ys) = front b xs := by
  unfold front
  split
  · rfl
  · rcases h : following b with - | ⟨n, lo, hi⟩
    · rfl
    · obtain ⟨hlo, hhi⟩ := following_range h
      simp only [belonging_cut hys hlo hhi]
      split
      · rename_i hk
        have hn : n ≤ xs.length := hk ▸ belonging_le n lo hi xs
        -- a whole piece takes nothing beyond `xs`
        rw [codePoint, codePoint, List.take_append_of_le_length hn]
      · rfl

omit hys in
theorem front_le (b : UInt8) (bs : Bytes) : (front b bs).2 ≤ bs.length := by
  unfold front
  split
  · exact Nat.zero_le _
  · rcases h : following b with - | ⟨n, lo, hi⟩
    · exact Nat.zero_le _
    · exact belonging_le n lo hi bs

/-- **Reading commutes with cutting** in front of a byte that continues no
character. -/
theorem decode?_append (xs : Bytes) :
    decode? (xs ++ ys) = (decode? xs).bind fun cs => (decode? ys).map (cs ++ ·) := by
  -- by the length, as a piece may take several bytes
  induction h : xs.length using Nat.strongRecOn generalizing xs with
  | ind n ih =>
    rcases xs with - | ⟨b, xs⟩
    · simp
    · rw [List.cons_append, decode?_cons, decode?_cons, front_cut hys]
      rcases front b xs, front_le b xs with ⟨⟨c?, k⟩, hk⟩
      simp only at hk ⊢
      have hlt : (xs.drop k).length < n := by
        rw [← h, List.length_drop, List.length_cons]; omega
      rw [List.drop_append_of_le_length hk, ih _ hlt _ rfl]
      cases c? <;> cases decode? (xs.drop k) <;> cases decode? ys <;> simp

end Cut

/-- What stands before a byte below 128 and what follows it are read apart. -/
theorem decode?_append_ascii_cons {b : UInt8} (hb : b < 0x80) (xs ys : Bytes) :
    decode? (xs ++ b :: ys) = (decode? xs).bind fun cs =>
      (decode? ys).map fun ds => cs ++ Char.ofNat b.toNat :: ds := by
  have hcut : ∀ y ∈ (b :: ys).head?, isContinuation y = false := by
    intro y hy
    obtain rfl : b = y := by simpa using hy
    simp only [isContinuation, Bool.and_eq_false_iff, decide_eq_false_iff_not]
    exact Or.inl (UInt8.not_le.2 hb)
  rw [decode?_append hcut, decode?_ascii_cons hb]
  cases decode? xs <;> cases decode? ys <;> simp

/-! ### Reading what was written -/

/-- The byte with a value below 256 has that value. -/
theorem toNat_byte {n : Nat} (h : n < 256) : (UInt8.ofNat n).toNat = n := by
  rw [UInt8.toNat_ofNat', Nat.mod_eq_of_lt h]

theorem le_byte_iff {a : UInt8} {n : Nat} (h : n < 256) : a ≤ UInt8.ofNat n ↔ a.toNat ≤ n := by
  rw [UInt8.le_iff_toNat_le, toNat_byte h]

theorem byte_le_iff {a : UInt8} {n : Nat} (h : n < 256) : UInt8.ofNat n ≤ a ↔ n ≤ a.toNat := by
  rw [UInt8.le_iff_toNat_le, toNat_byte h]

/-- Bytes with six bits of a code point continue a character. -/
theorem isContinuation_low (n : Nat) : isContinuation (UInt8.ofNat (0x80 + n % 64)) = true := by
  have h : 0x80 + n % 64 < 256 := by omega
  simp only [isContinuation, Bool.and_eq_true, decide_eq_true_eq, le_byte_iff h, byte_le_iff h]
  show 0x80 ≤ _ ∧ _ ≤ 0xBF
  omega

/-- What follows a lead byte of two, three and four bytes. -/
theorem following_two : ∀ k : Fin 32, 2 ≤ k.val →
    following (UInt8.ofNat (0xC0 + k.val)) = some (1, 0x80, 0xBF) := by decide

theorem following_three : ∀ k : Fin 16, following (UInt8.ofNat (0xE0 + k.val)) =
    some (2, if k.val = 0 then 0xA0 else 0x80, if k.val = 13 then 0x9F else 0xBF) := by decide

theorem following_four : ∀ k : Fin 5, following (UInt8.ofNat (0xF0 + k.val)) =
    some (3, if k.val = 0 then 0x90 else 0x80, if k.val = 4 then 0x8F else 0xBF) := by decide

theorem belonging_cons {n : Nat} {lo hi b : UInt8} {bs : Bytes} (hlo : lo ≤ b) (hhi : b ≤ hi)
    (hn : bs.length = n) (hbs : ∀ c ∈ bs, isContinuation c = true) (rest : Bytes) :
    belonging (n + 1) lo hi (b :: bs ++ rest) = n + 1 := by
  simp only [List.cons_append, belonging, hlo, hhi, decide_true, Bool.and_self, if_true]
  rw [List.take_append_of_le_length (by omega), List.take_of_length_le (by omega),
    List.takeWhile_eq_self_iff.2 hbs, hn, Nat.add_comm]

/-- The first piece, if it is a whole character of several bytes. -/
theorem front_of_following {b b' : UInt8} {n : Nat} {lo hi : UInt8} {bs : Bytes} {c : Char}
    (hb : ¬ b < 0x80) (h : following b = some (n + 1, lo, hi)) (hlo : lo ≤ b') (hhi : b' ≤ hi)
    (hn : bs.length = n) (hbs : ∀ c ∈ bs, isContinuation c = true)
    (hc : codePoint (n + 1) b (b' :: bs) = c.toNat) (rest : Bytes) :
    front b (b' :: bs ++ rest) = (some c, (b' :: bs).length) := by
  have hk := belonging_cons hlo hhi hn hbs rest
  have hcode : codePoint (n + 1) b (b' :: bs ++ rest) = c.toNat := by
    rw [← hc, codePoint, codePoint, List.take_append_of_le_length (by simp [hn])]
  unfold front
  rw [if_neg hb, h]
  simp only [hk, hcode, if_true, Char.ofNat_toNat, List.length_cons, hn]

theorem front_encodeChar (c : Char) :
    ∃ b bs, encodeChar c = b :: bs ∧ ∀ rest, front b (bs ++ rest) = (some c, bs.length) := by
  have hvalid : c.toNat < 0xD800 ∨ 0xDFFF < c.toNat ∧ c.toNat < 0x110000 := c.valid
  have lead : ∀ {n : Nat}, 0x80 ≤ n → n < 256 → ¬ UInt8.ofNat n < 0x80 := by
    intro n h h'
    rw [UInt8.not_lt, le_byte_iff h']
    exact h
  simp only [encodeChar]
  split
  · -- one byte
    rename_i h
    refine ⟨_, _, rfl, ?_⟩
    intro rest
    have hb : UInt8.ofNat c.toNat < 0x80 := by
      rw [UInt8.lt_iff_toNat_lt, toNat_byte (by omega)]
      exact h
    rw [front, if_pos hb, toNat_byte (by omega), Char.ofNat_toNat]
    rfl
  split
  · -- two bytes
    rename_i h1 h2
    refine ⟨_, _, rfl, ?_⟩
    intro rest
    refine front_of_following (lead (by omega) (by omega))
      (following_two ⟨c.toNat / 64, by omega⟩ (show 2 ≤ c.toNat / 64 by omega)) ?_ ?_ rfl
      (by simp) ?_ rest
    · rw [le_byte_iff (by omega)]; show 0x80 ≤ _; omega
    · rw [byte_le_iff (by omega)]; show _ ≤ 0xBF; omega
    · simp only [codePoint, List.take_succ_cons, List.take_zero, List.foldl_cons, List.foldl_nil]
      rw [toNat_byte (by omega), toNat_byte (by omega)]
      show _ % 32 * 64 + _ = _
      omega
  split
  · -- three bytes
    rename_i h1 h2 h3
    refine ⟨_, _, rfl, ?_⟩
    intro rest
    refine front_of_following (lead (by omega) (by omega))
      (following_three ⟨c.toNat / 4096, by omega⟩) ?_ ?_ rfl ?_ ?_ rest
    · rw [le_byte_iff (by omega)]
      show (if c.toNat / 4096 = 0 then _ else _ : UInt8).toNat ≤ _
      split
      · show 0xA0 ≤ _; omega
      · show 0x80 ≤ _; omega
    · rw [byte_le_iff (by omega)]
      show _ ≤ (if c.toNat / 4096 = 13 then _ else _ : UInt8).toNat
      split
      · show _ ≤ 0x9F; omega
      · show _ ≤ 0xBF; omega
    · intro b hb
      obtain rfl := List.mem_singleton.1 hb
      exact isContinuation_low _
    · simp only [codePoint, List.take_succ_cons, List.take_zero, List.foldl_cons, List.foldl_nil]
      rw [toNat_byte (by omega), toNat_byte (by omega), toNat_byte (by omega)]
      show (_ % 16 * 64 + _) * 64 + _ = _
      omega
  · -- four bytes
    rename_i h1 h2 h3
    refine ⟨_, _, rfl, ?_⟩
    intro rest
    refine front_of_following (lead (by omega) (by omega))
      (following_four ⟨c.toNat / 262144, by omega⟩) ?_ ?_ rfl ?_ ?_ rest
    · rw [le_byte_iff (by omega)]
      show (if c.toNat / 262144 = 0 then _ else _ : UInt8).toNat ≤ _
      split
      · show 0x90 ≤ _; omega
      · show 0x80 ≤ _; omega
    · rw [byte_le_iff (by omega)]
      show _ ≤ (if c.toNat / 262144 = 4 then _ else _ : UInt8).toNat
      split
      · show _ ≤ 0x8F; omega
      · show _ ≤ 0xBF; omega
    · intro b hb
      simp only [List.mem_cons, List.not_mem_nil, or_false] at hb
      rcases hb with rfl | rfl <;> exact isContinuation_low _
    · simp only [codePoint, List.take_succ_cons, List.take_zero, List.foldl_cons, List.foldl_nil]
      rw [toNat_byte (by omega), toNat_byte (by omega), toNat_byte (by omega), toNat_byte (by omega)]
      show ((_ % 8 * 64 + _) * 64 + _) * 64 + _ = _
      omega

/-- A text has no more characters than bytes. -/
theorem length_le_length_encode (cs : List Char) : cs.length ≤ (encode cs).length := by
  induction cs with
  | nil => exact le_rfl
  | cons c cs ih =>
    -- a character has one byte at least
    obtain ⟨b, bs, hc, -⟩ := front_encodeChar c
    rw [encode_cons, hc, List.length_append, List.length_cons, List.length_cons]
    omega

/-- **A text is read back from its bytes**, whatever follows them. -/
theorem decode?_encode_append (cs : List Char) (bs : Bytes) :
    decode? (encode cs ++ bs) = (decode? bs).map (cs ++ ·) := by
  induction cs with
  | nil => simp
  | cons c cs ih =>
    obtain ⟨b, bytes, hc, hfront⟩ := front_encodeChar c
    rw [encode_cons, hc, List.append_assoc, List.cons_append, decode?_cons, hfront]
    simp [ih, Function.comp_def]

theorem decode?_encode (cs : List Char) : decode? (encode cs) = some cs := by
  have h := decode?_encode_append cs []
  simpa using h

/-- Two texts start alike exactly if their bytes do. -/
theorem encode_isPrefix_iff {cs ds : List Char} : encode cs <+: encode ds ↔ cs <+: ds := by
  constructor
  · rintro ⟨bs, heq⟩
    have hdecode := decode?_encode ds
    rw [← heq, decode?_encode_append, Option.map_eq_some_iff] at hdecode
    obtain ⟨rest, -, heq⟩ := hdecode
    exact ⟨rest, heq⟩
  · rintro ⟨rest, rfl⟩
    exact ⟨encode rest, (encode_append cs rest).symm⟩

theorem encode_injective : Function.Injective encode := by
  intro cs ds heq
  apply Option.some.inj
  rw [← decode?_encode cs, heq, decode?_encode]

/-! ### Writing what was read -/

/-- The lead bytes, with the ranges of the bytes that may come next. -/
theorem following_bounds {b : UInt8} {n : Nat} {lo hi : UInt8}
    (h : following b = some (n, lo, hi)) :
    (n = 1 ∧ 0xC2 ≤ b.toNat ∧ b.toNat ≤ 0xDF) ∨
    (n = 2 ∧ 0xE0 ≤ b.toNat ∧ b.toNat ≤ 0xEF ∧ (b.toNat = 0xE0 → lo.toNat = 0xA0) ∧
      (b.toNat = 0xED → hi.toNat = 0x9F)) ∨
    (n = 3 ∧ 0xF0 ≤ b.toNat ∧ b.toNat ≤ 0xF4 ∧ (b.toNat = 0xF0 → lo.toNat = 0x90) ∧
      (b.toNat = 0xF4 → hi.toNat = 0x8F)) := by
  -- checked for every byte
  have key : ∀ k : Fin 256, ∀ p ∈ following (UInt8.ofNat k.val),
      (p.1 = 1 ∧ 0xC2 ≤ k.val ∧ k.val ≤ 0xDF) ∨
      (p.1 = 2 ∧ 0xE0 ≤ k.val ∧ k.val ≤ 0xEF ∧ (k.val = 0xE0 → p.2.1.toNat = 0xA0) ∧
        (k.val = 0xED → p.2.2.toNat = 0x9F)) ∨
      (p.1 = 3 ∧ 0xF0 ≤ k.val ∧ k.val ≤ 0xF4 ∧ (k.val = 0xF0 → p.2.1.toNat = 0x90) ∧
        (k.val = 0xF4 → p.2.2.toNat = 0x8F)) := by decide +kernel
  refine key ⟨b.toNat, b.toNat_lt⟩ (n, lo, hi) ?_
  rw [UInt8.ofNat_toNat]
  exact h

/-- What a whole piece consists of. -/
theorem belonging_eq_succ {n : Nat} {lo hi : UInt8} {bs : Bytes}
    (h : belonging (n + 1) lo hi bs = n + 1) :
    ∃ b cs rest, bs = b :: (cs ++ rest) ∧ cs.length = n ∧ lo ≤ b ∧ b ≤ hi ∧
      ∀ c ∈ cs, isContinuation c = true := by
  rcases bs with - | ⟨b, bs⟩
  · simp [belonging] at h
  simp only [belonging] at h
  split at h
  · rename_i hb
    simp only [Bool.and_eq_true, decide_eq_true_eq] at hb
    have hlen : ((bs.take n).takeWhile isContinuation).length = n := by omega
    have hsub := List.takeWhile_sublist (l := bs.take n) isContinuation
    have htake : (bs.take n).length = n := by
      have h1 := hsub.length_le
      have h2 := List.length_take_le n bs
      omega
    -- the run is all of what is taken
    have hself := hsub.eq_of_length (by rw [hlen, htake])
    refine ⟨b, bs.take n, bs.drop n, by rw [List.take_append_drop], htake, hb.1, hb.2, ?_⟩
    exact List.takeWhile_eq_self_iff.1 hself
  · omega

theorem toNat_of_isContinuation {b : UInt8} (h : isContinuation b = true) :
    0x80 ≤ b.toNat ∧ b.toNat ≤ 0xBF := by
  simpa [isContinuation, UInt8.le_iff_toNat_le] using h

/-- A character is known by its code point. -/
theorem toNat_char {n : Nat} (h : n.isValidChar) : (Char.ofNat n).toNat = n := by
  rw [Char.ofNat, dif_pos h]
  rfl

/-- A byte is known by its value. -/
theorem byte_eq {b : UInt8} {n : Nat} (h : n = b.toNat) : UInt8.ofNat n = b := by
  rw [h, UInt8.ofNat_toNat]

theorem encodeChar_two {b b1 : UInt8} (h1 : 0xC2 ≤ b.toNat) (h2 : b.toNat ≤ 0xDF)
    (hl : 0x80 ≤ b1.toNat) (hu : b1.toNat ≤ 0xBF) :
    encodeChar (Char.ofNat (b.toNat % 32 * 64 + b1.toNat % 64)) = [b, b1] := by
  have hc := toNat_char (n := b.toNat % 32 * 64 + b1.toNat % 64) (Or.inl (by omega))
  simp only [encodeChar, hc]
  rw [if_neg (by omega), if_pos (by omega)]
  exact congrArg₂ (fun x y => [x, y]) (byte_eq (by omega)) (byte_eq (by omega))

theorem encodeChar_three {b b1 b2 : UInt8} (h1 : 0xE0 ≤ b.toNat) (h2 : b.toNat ≤ 0xEF)
    (hl : 0x80 ≤ b1.toNat) (hu : b1.toNat ≤ 0xBF) (h3 : b.toNat = 0xE0 → 0xA0 ≤ b1.toNat)
    (h4 : b.toNat = 0xED → b1.toNat ≤ 0x9F) (hb2 : 0x80 ≤ b2.toNat ∧ b2.toNat ≤ 0xBF) :
    encodeChar (Char.ofNat ((b.toNat % 16 * 64 + b1.toNat % 64) * 64 + b2.toNat % 64))
      = [b, b1, b2] := by
  -- the range of the second byte keeps out what fits in two
  have hbig : 0x800 ≤ (b.toNat % 16 * 64 + b1.toNat % 64) * 64 + b2.toNat % 64 := by
    rcases Nat.lt_or_ge 0xE0 b.toNat with h | h
    · omega
    · have := h3 (by omega)
      omega
  have hc := toNat_char (n := (b.toNat % 16 * 64 + b1.toNat % 64) * 64 + b2.toNat % 64) (by
    -- the surrogates begin in the middle of the block of `0xED`
    rcases Nat.lt_trichotomy b.toNat 0xED with h | h | h
    · exact Or.inl (by omega)
    · have := h4 h
      exact Or.inl (by omega)
    · exact Or.inr (by omega))
  simp only [encodeChar, hc]
  rw [if_neg (by omega), if_neg (by omega), if_pos (by omega)]
  exact congrArg₂ List.cons (byte_eq (by omega))
    (congrArg₂ (fun x y => [x, y]) (byte_eq (by omega)) (byte_eq (by omega)))

theorem encodeChar_four {b b1 b2 b3 : UInt8} (h1 : 0xF0 ≤ b.toNat) (h2 : b.toNat ≤ 0xF4)
    (hl : 0x80 ≤ b1.toNat) (hu : b1.toNat ≤ 0xBF) (h3 : b.toNat = 0xF0 → 0x90 ≤ b1.toNat)
    (h4 : b.toNat = 0xF4 → b1.toNat ≤ 0x8F) (hb2 : 0x80 ≤ b2.toNat ∧ b2.toNat ≤ 0xBF)
    (hb3 : 0x80 ≤ b3.toNat ∧ b3.toNat ≤ 0xBF) :
    encodeChar (Char.ofNat
        (((b.toNat % 8 * 64 + b1.toNat % 64) * 64 + b2.toNat % 64) * 64 + b3.toNat % 64))
      = [b, b1, b2, b3] := by
  -- it keeps out what fits in three
  have hbig : 0x10000 ≤ ((b.toNat % 8 * 64 + b1.toNat % 64) * 64 + b2.toNat % 64) * 64
      + b3.toNat % 64 := by
    rcases Nat.lt_or_ge 0xF0 b.toNat with h | h
    · omega
    · have := h3 (by omega)
      omega
  -- and what is no code point any more
  have hsmall : ((b.toNat % 8 * 64 + b1.toNat % 64) * 64 + b2.toNat % 64) * 64
      + b3.toNat % 64 < 0x110000 := by
    rcases Nat.lt_or_ge b.toNat 0xF4 with h | h
    · omega
    · have := h4 (by omega)
      omega
  have hc := toNat_char (Or.inr ⟨by omega, hsmall⟩)
  simp only [encodeChar, hc]
  rw [if_neg (by omega), if_neg (by omega), if_neg (by omega)]
  exact congrArg₂ List.cons (byte_eq (by omega)) (congrArg₂ List.cons (byte_eq (by omega))
    (congrArg₂ (fun x y => [x, y]) (byte_eq (by omega)) (byte_eq (by omega))))

/-- The character of a whole piece is written as that piece. -/
theorem encodeChar_front {b : UInt8} {bs : Bytes} {c : Char} (h : (front b bs).1 = some c) :
    encodeChar c = b :: bs.take (front b bs).2 := by
  unfold front at h ⊢
  split at h
  · -- one byte
    rename_i hb
    rw [if_pos hb]
    obtain rfl := Option.some.inj h
    have hlt : b.toNat < 0x80 := UInt8.lt_iff_toNat_lt.1 hb
    have hc := toNat_char (n := b.toNat) (Or.inl (by omega))
    simp [encodeChar, hc, hlt]
  rename_i hb
  rw [if_neg hb]
  rcases hf : following b with - | ⟨n, lo, hi⟩
  · simp [hf] at h
  obtain ⟨hlo, hhi⟩ := following_range hf
  rw [UInt8.le_iff_toNat_le] at hlo hhi
  change 0x80 ≤ _ at hlo
  change _ ≤ 0xBF at hhi
  simp only [hf] at h ⊢
  split at h
  · rename_i hk
    obtain rfl := Option.some.inj h
    rw [hk]
    rcases following_bounds hf with ⟨rfl, h1, h2⟩ | ⟨rfl, h1, h2, h3, h4⟩ | ⟨rfl, h1, h2, h3, h4⟩
    · -- two bytes
      obtain ⟨b1, cs, rest, rfl, hcs, hl, hu, -⟩ := belonging_eq_succ hk
      obtain rfl := List.length_eq_zero_iff.1 hcs
      rw [UInt8.le_iff_toNat_le] at hl hu
      exact encodeChar_two h1 h2 (by omega) (by omega)
    · -- three bytes
      obtain ⟨b1, cs, rest, rfl, hcs, hl, hu, hall⟩ := belonging_eq_succ hk
      obtain ⟨b2, rfl⟩ := List.length_eq_one_iff.1 hcs
      rw [UInt8.le_iff_toNat_le] at hl hu
      apply encodeChar_three h1 h2 (by omega) (by omega)
      · intro hfirst
        have hge := h3 hfirst
        omega
      · intro hlast
        have hle := h4 hlast
        omega
      · exact toNat_of_isContinuation (hall b2 (by simp))
    · -- four bytes
      obtain ⟨b1, cs, rest, rfl, hcs, hl, hu, hall⟩ := belonging_eq_succ hk
      obtain ⟨b2, b3, rfl⟩ := List.length_eq_two.1 hcs
      rw [UInt8.le_iff_toNat_le] at hl hu
      apply encodeChar_four h1 h2 (by omega) (by omega)
      · intro hfirst
        have hge := h3 hfirst
        omega
      · intro hlast
        have hle := h4 hlast
        omega
      · exact toNat_of_isContinuation (hall b2 (by simp))
      · exact toNat_of_isContinuation (hall b3 (by simp))
  · simp at h

/-- **A text is its bytes**: what was read is written as it was. -/
theorem encode_of_decode? {bs : Bytes} {cs : List Char} (h : decode? bs = some cs) :
    encode cs = bs := by
  induction hn : bs.length using Nat.strongRecOn generalizing bs cs with
  | ind n ih =>
    rcases bs with - | ⟨b, bs⟩
    · rw [decode?_nil, Option.some.injEq] at h
      rw [← h, encode_nil]
    · rw [decode?_cons, Option.bind_eq_some_iff] at h
      obtain ⟨c, hc, h⟩ := h
      obtain ⟨ds, hds, rfl⟩ := Option.map_eq_some_iff.1 h
      have hlt : (bs.drop (front b bs).2).length < n := by
        rw [← hn, List.length_drop, List.length_cons]; omega
      rw [encode_cons, encodeChar_front hc, ih _ hlt hds rfl, List.cons_append,
        List.take_append_drop]

/-- Reading in spite of broken stretches gives the text where there is none. -/
theorem decodeLossy_of_decode? {bs : Bytes} {cs : List Char} (h : decode? bs = some cs) :
    decodeLossy bs = cs := by
  unfold decode? at h
  unfold decodeLossy
  generalize pieces bs = ps at h
  induction ps generalizing cs with
  | nil => exact Option.some.inj h
  | cons p ps ih =>
    rw [List.mapM_cons] at h
    obtain ⟨c, hc, h⟩ := Option.bind_eq_some_iff.1 h
    obtain ⟨ds, hds, h⟩ := Option.bind_eq_some_iff.1 h
    cases h
    cases p with
    | error b => cases hc
    | ok c' =>
      obtain rfl := Option.some.inj hc
      rw [List.map_cons, ih hds]

/-! ### Single characters -/

/-- A byte below 128 is written for its own character only. -/
theorem mem_of_ascii_mem_encode {b : UInt8} (hb : b < 0x80) {cs : List Char} (h : b ∈ encode cs) :
    Char.ofNat b.toNat ∈ cs := by
  obtain ⟨xs, ys, heq⟩ := List.append_of_mem h
  have hdecode := decode?_encode cs
  rw [heq, decode?_append_ascii_cons hb, Option.bind_eq_some_iff] at hdecode
  obtain ⟨front, -, hdecode⟩ := hdecode
  obtain ⟨rest, -, rfl⟩ := Option.map_eq_some_iff.1 hdecode
  exact List.mem_append_right _ List.mem_cons_self

/-- What is read in spite of broken stretches stands in the bytes, or for a
broken stretch. -/
theorem mem_of_mem_decodeLossy {c : Char} (hc : c ≠ '\uFFFD') {bs : Bytes}
    (h : c ∈ decodeLossy bs) : ∀ b ∈ encodeChar c, b ∈ bs := by
  induction hn : bs.length using Nat.strongRecOn generalizing bs with
  | ind n ih =>
    rcases bs with - | ⟨b, bs⟩
    · rw [decodeLossy, pieces_nil] at h
      cases h
    · unfold decodeLossy at h
      rw [pieces, List.map_cons] at h
      have hlt : (bs.drop (front b bs).2).length < n := by
        rw [← hn, List.length_drop, List.length_cons]; omega
      rcases List.mem_cons.1 h with hfirst | hrest
      · rcases hfront : (front b bs).1 with - | c'
        · rw [hfront] at hfirst
          exact absurd hfirst hc
        · rw [hfront] at hfirst
          subst hfirst
          rw [encodeChar_front hfront]
          exact List.cons_subset_cons b (List.take_subset _ bs)
      · intro b' hb'
        have hmem := ih _ hlt hrest rfl b' hb'
        exact List.mem_cons_of_mem _ (List.mem_of_mem_drop hmem)

end PageWalk.Utf8
