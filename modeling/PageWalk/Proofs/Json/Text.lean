/-
PageWalk/Proofs/Json/Text.lean

Json is read back from its text.

A value that is written (`Printable`) has texts for its strings and keys, and
numbers as they are spelled.  Its text starts with no space and with no closing
bracket (`head_prettyAt`), so the reader takes it for what it is; and what
follows it does not go on with it.  The induction is on the value, with one run
over the items or the members of what holds others (`takeItems_pretty`,
`takeMembers_pretty`); the fuel is used up more slowly than the text.
-/
import PageWalk.Proofs.Json.Numbers
import PageWalk.Proofs.Json.Strings

namespace PageWalk.Json

/-- The values that have a text. -/
inductive Printable : Json → Prop
  | null : Printable null
  | bool (b : Bool) : Printable (bool b)
  | number {cs : List Char} : NumberText cs → Printable (number cs)
  | text (s : String) : Printable (ofText s)
  | array {items : List Json} : (∀ j ∈ items, Printable j) → Printable (array items)
  | object {members : List (Bytes × Json)} : (∀ m ∈ members, ∃ name, m.1 = spell name) →
      (∀ m ∈ members, Printable m.2) → Printable (object members)

/-! ### Spaces -/

theorem skipSpace_skipSpace (bs : Bytes) : skipSpace (skipSpace bs) = skipSpace bs :=
  List.dropWhile_idempotent _ _

theorem skipSpace_cons {b : UInt8} (h : isSpace b = false) (bs : Bytes) :
    skipSpace (b :: bs) = b :: bs :=
  List.dropWhile_cons_of_neg (by rw [h]; exact Bool.false_ne_true)

theorem skipSpace_newLine (depth : Nat) (bs : Bytes) :
    skipSpace (newLine depth ++ bs) = skipSpace bs := by
  refine List.dropWhile_append_of_pos ?_
  intro b hb
  rcases List.mem_cons.1 hb with rfl | hb
  · rfl
  · obtain rfl := List.eq_of_mem_replicate hb
    rfl

theorem takeValue_skipSpace (fuel : Nat) (bs : Bytes) :
    takeValue fuel (skipSpace bs) = takeValue fuel bs := by
  cases fuel with
  | zero => rfl
  | succ fuel =>
    unfold takeValue
    rw [skipSpace_skipSpace]

theorem takeItems_skipSpace (fuel : Nat) (bs : Bytes) :
    takeItems fuel (skipSpace bs) = takeItems fuel bs := by
  cases fuel with
  | zero => rfl
  | succ fuel =>
    unfold takeItems
    rw [takeValue_skipSpace]

theorem takeMembers_skipSpace (fuel : Nat) (bs : Bytes) :
    takeMembers fuel (skipSpace bs) = takeMembers fuel bs := by
  cases fuel with
  | zero => rfl
  | succ fuel =>
    unfold takeMembers
    rw [skipSpace_skipSpace]

/-! ### What a text starts with -/

/-- What a number starts with is no space, and nothing else starts with it. -/
theorem starts_number {b : UInt8} (h : isDigit b = true ∨ b = 0x2D) :
    isSpace b = false ∧ ∀ b' ∈ [0x5D, 0x22, 0x5B, 0x7B, 0x6E, 0x74, 0x66], b ≠ b' := by
  have hne : ∀ b', isDigit b' = false ∧ b' ≠ 0x2D → b ≠ b' := by
    rintro _ ⟨hdigit, hminus⟩ rfl
    rcases h with h | h
    · rw [hdigit] at h
      cases h
    · exact hminus h
  constructor
  · simp [isSpace, hne 0x20 (by decide), hne 0x09 (by decide), hne 0x0A (by decide),
      hne 0x0D (by decide)]
  · intro b' hb'
    refine hne b' ?_
    revert b'
    decide +kernel

/-- The text of a value starts with no space, and closes no array. -/
theorem head_prettyAt {j : Json} (h : Printable j) (depth : Nat) :
    ∃ b bs, prettyAt depth j = b :: bs ∧ isSpace b = false ∧ b ≠ 0x5D := by
  cases h with
  | null => exact ⟨_, _, rfl, by decide, by decide⟩
  | bool b => cases b <;> exact ⟨_, _, rfl, by decide, by decide⟩
  | number h =>
    obtain ⟨b, bs, hb, hstart⟩ := h.head
    obtain ⟨hspace, hne⟩ := starts_number hstart
    exact ⟨b, bs, by rw [prettyAt, hb], hspace, hne 0x5D (by decide)⟩
  | text s => exact ⟨_, _, rfl, by decide, by decide⟩
  | @array items h => cases items <;> exact ⟨_, _, rfl, by decide, by decide⟩
  | @object members h _ => cases members <;> exact ⟨_, _, rfl, by decide, by decide⟩

theorem afterWord?_eq_none {word : String} {c : Char} {cs : List Char} {b b' : UInt8} {bs : Bytes}
    (hword : word.toList = c :: cs) (hc : Utf8.encodeChar c = [b']) (h : b ≠ b') :
    afterWord? word (b :: bs) = none := by
  unfold afterWord?
  rw [hword, Utf8.encode_cons, hc]
  refine if_neg ?_
  rw [List.singleton_append, List.isPrefixOf_cons_cons, Bool.and_eq_true, beq_iff_eq]
  exact fun hprefix => h hprefix.1.symm

/-! ### Values that hold no others -/

theorem takeValue_number {cs : List Char} {rest : Bytes} (h : NumberText cs)
    (hrest : EndsNumber rest) (fuel : Nat) :
    takeValue (fuel + 1) (Utf8.encode cs ++ rest) = some (.number cs, rest) := by
  rw [← takeNumber_encode h hrest]
  obtain ⟨b, bs, hb, hstart⟩ := h.head
  obtain ⟨hspace, hne⟩ := starts_number hstart
  have hnull : afterWord? "null" (b :: (bs ++ rest)) = none :=
    afterWord?_eq_none rfl rfl (hne 0x6E (by decide))
  have htrue : afterWord? "true" (b :: (bs ++ rest)) = none :=
    afterWord?_eq_none rfl rfl (hne 0x74 (by decide))
  have hfalse : afterWord? "false" (b :: (bs ++ rest)) = none :=
    afterWord?_eq_none rfl rfl (hne 0x66 (by decide))
  rw [hb, List.cons_append]
  unfold takeValue
  rw [skipSpace_cons hspace]
  split
  · rename_i heq
    cases heq
  · rename_i heq
    exact absurd (List.cons.inj heq).1 (hne 0x22 (by decide))
  · rename_i heq
    exact absurd (List.cons.inj heq).1 (hne 0x5B (by decide))
  · rename_i heq
    exact absurd (List.cons.inj heq).1 (hne 0x7B (by decide))
  · rw [hnull, htrue, hfalse]

theorem takeValue_text (s : String) (rest : Bytes) (fuel : Nat) :
    takeValue (fuel + 1) (quoted (spell s) ++ rest) = some (ofText s, rest) := by
  show (takeString (spell s ++ [0x22] ++ rest)).map _ = _
  rw [List.append_assoc, List.singleton_append, takeString_spell]
  rfl

/-! ### Items -/

/-- A value is taken from the front of what its text starts, and nothing more. -/
def Reads (j : Json) : Prop :=
  ∀ depth fuel rest, (prettyAt depth j).length < fuel → EndsNumber rest →
    takeValue fuel (prettyAt depth j ++ rest) = some (j, rest)

theorem endsNumber_comma (bs : Bytes) : EndsNumber (0x2C :: bs) := by
  intro b hb
  obtain rfl := Option.some.inj hb
  decide

theorem endsNumber_newLine (depth : Nat) (bs : Bytes) : EndsNumber (newLine depth ++ bs) := by
  intro b hb
  obtain rfl := Option.some.inj hb
  decide

/-- Before a value, a new line is passed over. -/
theorem Reads.newLine {j : Json} (h : Reads j) {depth fuel : Nat} {rest : Bytes}
    (hfuel : (prettyAt depth j).length < fuel) (hrest : EndsNumber rest) (depth' : Nat) :
    takeValue fuel (newLine depth' ++ (prettyAt depth j ++ rest)) = some (j, rest) := by
  rw [← takeValue_skipSpace, skipSpace_newLine, takeValue_skipSpace]
  exact h depth fuel rest hfuel hrest

theorem length_newLine (depth : Nat) : (newLine depth).length = 2 * depth + 1 := by
  unfold newLine
  rw [List.length_cons, List.length_replicate]

theorem prettyItems_singleton (depth : Nat) (j : Json) :
    prettyItems depth [j] = newLine depth ++ prettyAt depth j := by
  rw [prettyItems]

theorem prettyItems_cons (depth : Nat) (j j' : Json) (js : List Json) :
    prettyItems depth (j :: j' :: js)
      = newLine depth ++ (prettyAt depth j ++ 0x2C :: prettyItems depth (j' :: js)) := by
  rw [prettyItems, List.append_assoc]
  exact List.cons_ne_nil _ _

/-- One item, and what its end says about the others. -/
theorem takeItems_item {depth fuel : Nat} {j : Json} {rest : Bytes} (h : Reads j)
    (hfuel : (prettyAt depth j).length < fuel) (hrest : EndsNumber rest) (depth' : Nat) :
    takeItems (fuel + 1) (newLine depth' ++ (prettyAt depth j ++ rest))
      = match skipSpace rest with
        | 0x2C :: bs => (takeItems fuel bs).bind fun (js, bs) => some (j :: js, bs)
        | 0x5D :: bs => some ([j], bs)
        | _ => none := by
  rw [takeItems, h.newLine hfuel hrest]
  rfl

/-- The items of an array, up to its bracket. -/
theorem takeItems_pretty {depth fuel : Nat} {j : Json} {js : List Json}
    (h : ∀ i ∈ j :: js, Reads i) (hfuel : (prettyItems depth (j :: js)).length < fuel)
    (depth' : Nat) (rest : Bytes) :
    takeItems fuel (prettyItems depth (j :: js) ++ (newLine depth' ++ 0x5D :: rest))
      = some (j :: js, rest) := by
  induction js generalizing j fuel with
  | nil =>
    obtain ⟨fuel, rfl⟩ := Nat.exists_eq_succ_of_ne_zero (Nat.ne_zero_of_lt hfuel)
    rw [prettyItems_singleton, List.length_append, length_newLine] at hfuel
    have hj : (prettyAt depth j).length < fuel := by omega
    rw [prettyItems_singleton, List.append_assoc,
      takeItems_item (h j List.mem_cons_self) hj (endsNumber_newLine _ _), skipSpace_newLine]
    rfl
  | cons j' js ih =>
    obtain ⟨fuel, rfl⟩ := Nat.exists_eq_succ_of_ne_zero (Nat.ne_zero_of_lt hfuel)
    rw [prettyItems_cons, List.length_append, List.length_append, List.length_cons,
      length_newLine] at hfuel
    have hj : (prettyAt depth j).length < fuel := by omega
    have hjs := ih (fun i hi => h i (List.mem_cons_of_mem _ hi)) (by omega : _ < fuel)
    rw [prettyItems_cons, List.append_assoc, List.append_assoc, List.cons_append,
      takeItems_item (h j List.mem_cons_self) hj (endsNumber_comma _)]
    show (takeItems fuel _).bind _ = _
    rw [hjs]
    rfl

/-! ### Members -/

theorem prettyMembers_singleton (depth : Nat) (key : Bytes) (j : Json) :
    prettyMembers depth [(key, j)]
      = newLine depth ++ (quoted key ++ 0x3A :: 0x20 :: prettyAt depth j) := by
  rw [prettyMembers]
  simp only [List.append_assoc, List.cons_append, List.nil_append]

theorem prettyMembers_cons (depth : Nat) (key : Bytes) (j : Json) (m : Bytes × Json)
    (ms : List (Bytes × Json)) : prettyMembers depth ((key, j) :: m :: ms)
      = newLine depth ++ (quoted key ++ 0x3A :: 0x20 ::
        (prettyAt depth j ++ 0x2C :: prettyMembers depth (m :: ms))) := by
  rw [prettyMembers]
  · simp only [List.append_assoc, List.cons_append, List.nil_append]
  · exact List.cons_ne_nil _ _

/-- One member, and what its end says about the others. -/
theorem takeMembers_member {name : String} {depth fuel : Nat} {j : Json} {rest : Bytes}
    (h : Reads j) (hfuel : (prettyAt depth j).length < fuel) (hrest : EndsNumber rest)
    (depth' : Nat) :
    takeMembers (fuel + 1) (newLine depth' ++
        (quoted (spell name) ++ 0x3A :: 0x20 :: (prettyAt depth j ++ rest)))
      = match skipSpace rest with
        | 0x2C :: bs =>
          (takeMembers fuel bs).bind fun (ms, bs) => some ((spell name, j) :: ms, bs)
        | 0x7D :: bs => some ([(spell name, j)], bs)
        | _ => none := by
  have hkey (bs : Bytes) : skipSpace (newLine depth' ++ (quoted (spell name) ++ bs))
      = 0x22 :: (spell name ++ 0x22 :: bs) := by
    rw [skipSpace_newLine]
    unfold quoted
    rw [List.append_assoc, List.cons_append, List.singleton_append]
    exact skipSpace_cons (by decide) _
  have hvalue : takeValue fuel (0x20 :: (prettyAt depth j ++ rest)) = some (j, rest) := by
    rw [← takeValue_skipSpace]
    show takeValue fuel (skipSpace (prettyAt depth j ++ rest)) = _
    rw [takeValue_skipSpace]
    exact h depth fuel rest hfuel hrest
  rw [takeMembers, hkey]
  simp only [takeString_spell, Option.bind_eq_bind, Option.bind_some]
  rw [skipSpace_cons (by decide)]
  simp only [hvalue, Option.bind_some]
  rfl

/-- The members of an object, up to its brace. -/
theorem takeMembers_pretty {depth fuel : Nat} {m : Bytes × Json} {ms : List (Bytes × Json)}
    (hkeys : ∀ e ∈ m :: ms, ∃ name, e.1 = spell name) (h : ∀ e ∈ m :: ms, Reads e.2)
    (hfuel : (prettyMembers depth (m :: ms)).length < fuel) (depth' : Nat) (rest : Bytes) :
    takeMembers fuel (prettyMembers depth (m :: ms) ++ (newLine depth' ++ 0x7D :: rest))
      = some (m :: ms, rest) := by
  induction ms generalizing m fuel with
  | nil =>
    obtain ⟨fuel, rfl⟩ := Nat.exists_eq_succ_of_ne_zero (Nat.ne_zero_of_lt hfuel)
    obtain ⟨key, j⟩ := m
    obtain ⟨name, rfl⟩ : ∃ name, key = spell name := hkeys _ List.mem_cons_self
    have hread : Reads j := h _ List.mem_cons_self
    have hj : (prettyAt depth j).length < fuel := by
      simp only [prettyMembers_singleton, List.length_append, List.length_cons] at hfuel
      omega
    rw [prettyMembers_singleton, List.append_assoc, List.append_assoc, List.cons_append,
      List.cons_append, takeMembers_member hread hj (endsNumber_newLine _ _), skipSpace_newLine]
    rfl
  | cons m' ms ih =>
    obtain ⟨fuel, rfl⟩ := Nat.exists_eq_succ_of_ne_zero (Nat.ne_zero_of_lt hfuel)
    obtain ⟨key, j⟩ := m
    obtain ⟨name, rfl⟩ : ∃ name, key = spell name := hkeys _ List.mem_cons_self
    have hread : Reads j := h _ List.mem_cons_self
    simp only [prettyMembers_cons, List.length_append, List.length_cons] at hfuel
    have hj : (prettyAt depth j).length < fuel := by omega
    have hms := ih (fun e he => hkeys e (List.mem_cons_of_mem _ he))
      (fun e he => h e (List.mem_cons_of_mem _ he)) (by omega : _ < fuel)
    simp only [prettyMembers_cons, List.append_assoc, List.cons_append]
    rw [takeMembers_member hread hj (endsNumber_comma _)]
    show (takeMembers fuel _).bind _ = _
    rw [hms]
    rfl

/-! ### Values -/

/-- An array that holds something, around its items. -/
theorem prettyAt_array (depth : Nat) (j : Json) (js : List Json) :
    prettyAt depth (array (j :: js))
      = 0x5B :: (prettyItems (depth + 1) (j :: js) ++ (newLine depth ++ [0x5D])) := by
  rw [prettyAt]
  · rw [List.append_assoc]
    rfl
  · exact List.cons_ne_nil _ _

/-- An object that holds something, around its members. -/
theorem prettyAt_object (depth : Nat) (m : Bytes × Json) (ms : List (Bytes × Json)) :
    prettyAt depth (object (m :: ms))
      = 0x7B :: (prettyMembers (depth + 1) (m :: ms) ++ (newLine depth ++ [0x7D])) := by
  rw [prettyAt]
  · rw [List.append_assoc]
    rfl
  · exact List.cons_ne_nil _ _

/-- An array is not empty if no bracket follows its first. -/
theorem takeValue_array {bs : Bytes} (h : ∀ rest, skipSpace bs ≠ 0x5D :: rest) (fuel : Nat) :
    takeValue (fuel + 1) (0x5B :: bs)
      = (takeItems fuel bs).map fun (js, rest) => (.array js, rest) := by
  have hopen : skipSpace (0x5B :: bs) = 0x5B :: bs := skipSpace_cons (by decide) bs
  rw [← takeItems_skipSpace fuel bs]
  -- by the hypothesis, what follows is no end
  simp only [takeValue, hopen]

theorem takeValue_object {bs : Bytes} (h : ∀ rest, skipSpace bs ≠ 0x7D :: rest) (fuel : Nat) :
    takeValue (fuel + 1) (0x7B :: bs)
      = (takeMembers fuel bs).map fun (ms, rest) => (.object ms, rest) := by
  have hopen : skipSpace (0x7B :: bs) = 0x7B :: bs := skipSpace_cons (by decide) bs
  rw [← takeMembers_skipSpace fuel bs]
  simp only [takeValue, hopen]

/-- An array that is not empty does not look like it. -/
theorem skipSpace_prettyItems {j : Json} (h : Printable j) (depth : Nat) (js : List Json)
    (bs rest : Bytes) : skipSpace (prettyItems depth (j :: js) ++ bs) ≠ 0x5D :: rest := by
  obtain ⟨b, bs', hb, hspace, hclose⟩ := head_prettyAt h depth
  have hhead : ∃ tail, prettyItems depth (j :: js) = newLine depth ++ (b :: bs' ++ tail) := by
    rw [← hb]
    cases js with
    | nil => exact ⟨[], by rw [prettyItems_singleton, List.append_nil]⟩
    | cons j' js => exact ⟨_, prettyItems_cons depth j j' js⟩
  obtain ⟨tail, htail⟩ := hhead
  rw [htail, List.append_assoc, skipSpace_newLine, List.cons_append, List.cons_append,
    skipSpace_cons hspace]
  intro heq
  exact hclose (List.cons.inj heq).1

theorem skipSpace_prettyMembers (depth : Nat) (m : Bytes × Json) (ms : List (Bytes × Json))
    (bs rest : Bytes) : skipSpace (prettyMembers depth (m :: ms) ++ bs) ≠ 0x7D :: rest := by
  have hhead : ∃ tail, prettyMembers depth (m :: ms) = newLine depth ++ 0x22 :: tail := by
    cases ms with
    | nil => exact ⟨_, prettyMembers_singleton depth m.1 m.2⟩
    | cons m' ms => exact ⟨_, prettyMembers_cons depth m.1 m.2 m' ms⟩
  obtain ⟨tail, htail⟩ := hhead
  rw [htail, List.append_assoc, skipSpace_newLine, List.cons_append, skipSpace_cons (by decide)]
  intro heq
  exact absurd (List.cons.inj heq).1 (by decide)

/-- Some fuel is there to be used. -/
theorem reads_of_succ {j : Json} (h : ∀ depth fuel rest, (prettyAt depth j).length ≤ fuel →
    EndsNumber rest → takeValue (fuel + 1) (prettyAt depth j ++ rest) = some (j, rest)) :
    Reads j := by
  intro depth fuel rest hfuel hrest
  obtain ⟨fuel, rfl⟩ := Nat.exists_eq_succ_of_ne_zero (Nat.ne_zero_of_lt hfuel)
  exact h depth fuel rest (Nat.le_of_lt_succ hfuel) hrest

theorem Printable.reads {j : Json} (h : Printable j) : Reads j := by
  induction h with
  | null => exact reads_of_succ fun _ _ _ _ _ => rfl
  | bool b => exact reads_of_succ fun _ _ _ _ _ => by cases b <;> rfl
  | number h =>
    refine reads_of_succ fun depth fuel rest _ hrest => ?_
    rw [prettyAt]
    exact takeValue_number h hrest fuel
  | text s => exact reads_of_succ fun _ fuel rest _ _ => takeValue_text s rest fuel
  | @array items h ih =>
    refine reads_of_succ fun depth fuel rest hfuel _ => ?_
    cases items with
    | nil => rfl
    | cons j js =>
      rw [prettyAt_array, List.length_cons, List.length_append] at hfuel
      have hitems : (prettyItems (depth + 1) (j :: js)).length < fuel := by omega
      rw [prettyAt_array, List.cons_append, List.append_assoc, List.append_assoc,
        List.singleton_append,
        takeValue_array (skipSpace_prettyItems (h j List.mem_cons_self) _ _ _),
        takeItems_pretty ih hitems]
      rfl
  | @object members hkeys h ih =>
    refine reads_of_succ fun depth fuel rest hfuel _ => ?_
    cases members with
    | nil => rfl
    | cons m ms =>
      rw [prettyAt_object, List.length_cons, List.length_append] at hfuel
      have hmembers : (prettyMembers (depth + 1) (m :: ms)).length < fuel := by omega
      rw [prettyAt_object, List.cons_append, List.append_assoc, List.append_assoc,
        List.singleton_append, takeValue_object (skipSpace_prettyMembers _ _ _ _),
        takeMembers_pretty hkeys ih hmembers]
      rfl

/-- **Json is read back from its text.** -/
theorem parse?_pretty {j : Json} (h : Printable j) : parse? (pretty j) = some j := by
  have hread : takeValue ((pretty j).length + 1) (pretty j ++ []) = some (j, []) :=
    h.reads 0 _ [] (Nat.lt_succ_self _) nofun
  rw [List.append_nil] at hread
  unfold parse?
  rw [hread]
  rfl

end PageWalk.Json
