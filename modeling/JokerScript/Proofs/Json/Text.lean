import JokerScript.Proofs.Json.Numeral
import Mathlib.Tactic.IntervalCases

/-!
# Compact Texts Read Back

A value whose numbers fit their numerals is read back from its compact text, with the members of
its objects in the order of their names. The reader goes over the text from left to right, so each
part of a text is followed by the rest, and two calls for each character are enough.

## Main definitions

* `Json.Readable` — the numbers of a value have numerals.
* `Json.sorted` — the value with the members of its objects in the order of their names.

## Main results

* `Json.read?_compact` — a value is read back from its compact text, sorted.
-/

namespace JokerScript

namespace Json

/-! ### Sorted values -/

mutual

/-- The value with the members of its objects in the order of their names; of two members with one
name the later counts. -/
def sorted : Json → Json
  | .null => .null
  | .bool b => .bool b
  | .int i => .int i
  | .float n => .float n
  | .str s => .str s
  | .arr items => .arr (sortedItems items)
  | .obj members => ofMembers (sortedMembers members)

/-- The items of an array, each sorted. -/
def sortedItems : List Json → List Json
  | [] => []
  | item :: rest => item.sorted :: sortedItems rest

/-- The members of an object in the order given, each sorted. -/
def sortedMembers : List (String × Json) → List (String × Json)
  | [] => []
  | (name, value) :: rest => (name, value.sorted) :: sortedMembers rest

end

mutual

/-- **The numbers of a value have numerals**: floats are finite and integers fit 64 bits. -/
def Readable : Json → Prop
  | .int i => Reader.IsInt64 i
  | .float n => n.isFinite = true
  | .arr items => ReadableItems items
  | .obj members => ReadableMembers members
  | .null | .bool _ | .str _ => True

/-- The numbers of the items of an array have numerals. -/
def ReadableItems : List Json → Prop
  | [] => True
  | item :: rest => item.Readable ∧ ReadableItems rest

/-- The numbers of the members of an object have numerals. -/
def ReadableMembers : List (String × Json) → Prop
  | [] => True
  | (_, value) :: rest => value.Readable ∧ ReadableMembers rest

end

namespace Reader

variable {rest : List Char}

/-! ### Blanks -/

theorem skipSpace_cons {c : Char} (hc : isSpace c = false) (rest : List Char) :
    skipSpace (c :: rest) = c :: rest := by
  rw [skipSpace, List.dropWhile_cons, if_neg (by simp [hc])]

/-! ### Strings -/

/-- A control character is read back from its four hexadecimal digits. -/
theorem unicodeEscape?_hexDigits {k : ℕ} (hk : k < 32) (rest : List Char) :
    unicodeEscape? (hexDigits k ++ rest) = some (Char.ofNat k, rest) := by
  interval_cases k <;> rfl

theorem stringTail?_escape {c : Char} {cs cs' : List Char} (h : escape? cs = some (c, cs'))
    (fuel : ℕ) : stringTail? (fuel + 1) ('\\' :: cs) =
      (stringTail? fuel cs').map fun (s, rest) => (c :: s, rest) := by
  simp [stringTail?, h, Option.map_eq_bind]

/-- **A character is read back from how it stands in a string.** -/
theorem stringTail?_escapeChar (c : Char) (fuel : ℕ) (cs : List Char) :
    stringTail? (fuel + 1) (escapeChar c ++ cs) =
      (stringTail? fuel cs).map fun (s, rest) => (c :: s, rest) := by
  have hcode : Char.ofNat c.toNat = c := Char.ofNat_toNat c
  rw [escapeChar]
  split_ifs with hquote hslash hnewline hreturn htab hbell hfeed hcontrol
  · exact stringTail?_escape (by rw [hquote]; rfl) fuel
  · exact stringTail?_escape (by rw [hslash]; rfl) fuel
  · exact stringTail?_escape (by rw [hnewline]; rfl) fuel
  · exact stringTail?_escape (by rw [hreturn]; rfl) fuel
  · exact stringTail?_escape (by rw [htab]; rfl) fuel
  · exact stringTail?_escape (by rw [← hcode, hbell]; rfl) fuel
  · exact stringTail?_escape (by rw [← hcode, hfeed]; rfl) fuel
  · have hescape : escape? ('u' :: (hexDigits c.toNat ++ cs)) = some (c, cs) := by
      rw [escape?, unicodeEscape?_hexDigits hcontrol, hcode]
    exact stringTail?_escape hescape fuel
  · simp [stringTail?, hcontrol, Option.map_eq_bind]

/-- **A string is read back up to its closing quote.** -/
theorem stringTail?_flatMap (cs : List Char) {fuel : ℕ} (hfuel : cs.length < fuel)
    (rest : List Char) :
    stringTail? fuel (cs.flatMap escapeChar ++ '"' :: rest) = some (cs, rest) := by
  induction cs generalizing fuel with
  | nil =>
      obtain ⟨fuel, rfl⟩ := Nat.exists_eq_succ_of_ne_zero (Nat.ne_of_gt hfuel)
      rfl
  | cons c cs ih =>
      obtain ⟨fuel, rfl⟩ := Nat.exists_eq_succ_of_ne_zero (Nat.ne_zero_of_lt hfuel)
      rw [List.flatMap_cons, List.append_assoc, stringTail?_escapeChar,
        ih (Nat.lt_of_succ_lt_succ hfuel), Option.map_some]

theorem length_le_flatMap_escapeChar (cs : List Char) :
    cs.length ≤ (cs.flatMap escapeChar).length := by
  induction cs with
  | nil => exact Nat.le_refl _
  | cons c cs ih =>
      have hne : 1 ≤ (escapeChar c).length := by
        rw [escapeChar]
        split_ifs <;> simp
      rw [List.flatMap_cons, List.length_append, List.length_cons]
      omega

/-- **A string is read back from its text.** -/
theorem stringTail?_stringChars (s : String) {fuel : ℕ}
    (hfuel : (stringChars s).length ≤ fuel + 1) (rest : List Char) :
    ∃ cs, stringChars s ++ rest = '"' :: cs ∧
      stringTail? fuel cs = some (s.toList, rest) := by
  have hlength := length_le_flatMap_escapeChar s.toList
  simp only [stringChars, List.length_append, List.length_cons, List.length_nil] at hfuel
  exact ⟨s.toList.flatMap escapeChar ++ '"' :: rest, by simp [stringChars],
    stringTail?_flatMap s.toList (by omega) rest⟩

/-! ### Heads of texts -/

/-- The text of a number begins with a sign or a digit. -/
def NumberHead (cs : List Char) : Prop :=
  ∃ c rest, cs = c :: rest ∧ (c = '-' ∨ c.isDigit = true)

theorem numberHead_append {negative : Bool} {whole : List Char} (h : IsWhole whole)
    (rest : List Char) : NumberHead ((if negative then ['-'] else []) ++ (whole ++ rest)) := by
  cases negative with
  | true => exact ⟨'-', whole ++ rest, rfl, .inl rfl⟩
  | false =>
      obtain ⟨d, whole, rfl⟩ := List.exists_cons_of_ne_nil h.ne_nil
      exact ⟨d, whole ++ rest, rfl, .inr (h.digits d List.mem_cons_self)⟩

theorem numberHead_floatChars {n : Number} (h : n.isFinite = true) : NumberHead (floatChars n) := by
  obtain ⟨m, -, hchars⟩ := exists_numeral h
  exact hchars ▸ numberHead_append m.isWhole _

theorem numberHead_intChars (i : ℤ) : NumberHead (toString i).toList := by
  have h : NumberHead ((if decide (i < 0) then ['-'] else []) ++ (digitChars i.natAbs ++ [])) :=
    numberHead_append (isWhole_digitChars i.natAbs) []
  rw [List.append_nil] at h
  exact toList_toString_int i ▸ h

/-- A character that begins a value, and neither is a blank nor closes an array. -/
def ValueHead (c : Char) : Prop := isSpace c = false ∧ c ≠ ']'

theorem valueHead_of_number {c : Char} (hc : c = '-' ∨ c.isDigit = true) : ValueHead c := by
  rcases hc with rfl | hdigit
  · exact ⟨rfl, by decide⟩
  · refine ⟨?_, ?_⟩
    · rw [isSpace]
      simp only [Bool.or_eq_false_iff, beq_eq_false_iff_ne]
      refine ⟨⟨⟨?_, ?_⟩, ?_⟩, ?_⟩ <;> rintro rfl <;> cases hdigit
    · rintro rfl
      cases hdigit

/-- The text of a value begins with no blank. -/
theorem exists_chars_eq_cons (j : Json) : ∃ c cs, j.chars = c :: cs ∧ ValueHead c := by
  have hnumber : ∀ {cs : List Char}, NumberHead cs → ∃ c rest, cs = c :: rest ∧ ValueHead c :=
    fun ⟨c, rest, hcs, hc⟩ => ⟨c, rest, hcs, valueHead_of_number hc⟩
  have hword : ∀ c cs, isSpace c = false → c ≠ ']' →
      ∃ d ds, c :: cs = d :: ds ∧ ValueHead d := fun c cs hspace hne => ⟨c, cs, rfl, hspace, hne⟩
  cases j with
  | null => exact hword 'n' _ rfl (by decide)
  | bool b => cases b <;> exact hword _ _ rfl (by decide)
  | int i => exact hnumber (numberHead_intChars i)
  | float n =>
      rw [chars]
      split
      · rename_i hfinite
        exact hnumber (numberHead_floatChars hfinite)
      · exact hword 'n' _ rfl (by decide)
  | str s => exact hword '"' _ rfl (by decide)
  | arr items => exact hword '[' _ rfl (by decide)
  | obj members => exact hword '{' _ rfl (by decide)

/-! ### Values -/

theorem value?_number {cs : List Char} (h : NumberHead cs) (fuel : ℕ) (rest : List Char) :
    value? (fuel + 1) (cs ++ rest) = number? (cs ++ rest) := by
  obtain ⟨c, cs, rfl, hc⟩ := h
  have hspace := (valueHead_of_number hc).1
  rw [List.cons_append, value?, skipSpace_cons hspace]
  split <;> first
    | rfl
    | rename_i heq
      obtain ⟨rfl, -⟩ := List.cons.inj heq
      rcases hc with hc | hc <;> cases hc

theorem value?_string {s : String} {fuel : ℕ} (hfuel : (stringChars s).length ≤ fuel + 1)
    (rest : List Char) : value? (fuel + 1) (stringChars s ++ rest) = some (.str s, rest) := by
  obtain ⟨cs, hcs, hread⟩ := stringTail?_stringChars s hfuel rest
  rw [hcs, value?, skipSpace_cons rfl]
  simp only [hread, Option.map_some, String.ofList_toList]

section Nested

variable {fuel : ℕ} {cs cs' : List Char} {item value : Json} {items : List Json} {name : String}
  {members : List (String × Json)}

theorem value?_array (hhead : ∃ c cs', cs = c :: cs' ∧ ValueHead c)
    (h : items? fuel cs = some (items, rest)) :
    value? (fuel + 1) ('[' :: cs) = some (.arr items, rest) := by
  obtain ⟨c, cs, rfl, hspace, hne⟩ := hhead
  rw [value?, skipSpace_cons rfl]
  simp only [skipSpace_cons hspace]
  split
  · rename_i heq
    exact absurd (List.cons.inj heq).1 hne
  · rw [h, Option.map_some]

theorem value?_object (h : members? fuel ('"' :: cs) = some (members, rest)) :
    value? (fuel + 1) ('{' :: '"' :: cs) = some (ofMembers members, rest) := by
  rw [value?, skipSpace_cons rfl]
  simp only [skipSpace_cons (c := '"') rfl]
  split
  · rename_i heq
    exact absurd (List.cons.inj heq).1 (by decide)
  · rw [h, Option.map_some]

theorem items?_last (h : value? fuel cs = some (item, ']' :: rest)) :
    items? (fuel + 1) cs = some ([item], rest) := by
  simp only [items?, h, Option.bind_eq_bind, Option.bind_some, skipSpace_cons (c := ']') rfl]

theorem items?_cons (h : value? fuel cs = some (item, ',' :: cs'))
    (h' : items? fuel cs' = some (items, rest)) :
    items? (fuel + 1) cs = some (item :: items, rest) := by
  simp only [items?, h, h', Option.bind_eq_bind, Option.bind_some, skipSpace_cons (c := ',') rfl]

theorem members?_last (hname : (stringChars name).length ≤ fuel + 1)
    (h : value? fuel cs = some (value, '}' :: rest)) :
    members? (fuel + 1) (stringChars name ++ ':' :: cs) = some ([(name, value)], rest) := by
  obtain ⟨text, htext, hread⟩ := stringTail?_stringChars name hname (':' :: cs)
  simp only [htext, members?, skipSpace_cons (c := '"') rfl, skipSpace_cons (c := ':') rfl,
    skipSpace_cons (c := '}') rfl, hread, h, Option.bind_eq_bind, Option.bind_some,
    String.ofList_toList]

theorem members?_cons (hname : (stringChars name).length ≤ fuel + 1)
    (h : value? fuel cs = some (value, ',' :: cs'))
    (h' : members? fuel cs' = some (members, rest)) :
    members? (fuel + 1) (stringChars name ++ ':' :: cs) =
      some ((name, value) :: members, rest) := by
  obtain ⟨text, htext, hread⟩ := stringTail?_stringChars name hname (':' :: cs)
  simp only [htext, members?, skipSpace_cons (c := '"') rfl, skipSpace_cons (c := ':') rfl,
    skipSpace_cons (c := ',') rfl, hread, h, h', Option.bind_eq_bind, Option.bind_some,
    String.ofList_toList]

end Nested

/-- A comma or a closing bracket does not go on with a numeral. -/
theorem numeralEnd_cons {c : Char} (hc : c = ',' ∨ c = ']' ∨ c = '}') (rest : List Char) :
    NumeralEnd (c :: rest) := by
  rintro d ⟨⟩
  rcases hc with rfl | rfl | rfl <;> decide

theorem exists_itemChars_eq_cons {items : List Json} (hne : items ≠ []) (rest : List Char) :
    ∃ c cs, itemChars items ++ rest = c :: cs ∧ ValueHead c := by
  obtain ⟨item, items, rfl⟩ := List.exists_cons_of_ne_nil hne
  obtain ⟨c, cs, hchars, hc⟩ := exists_chars_eq_cons item
  cases items with
  | nil => exact ⟨c, cs ++ rest, by rw [itemChars, hchars, List.cons_append], hc⟩
  | cons next items =>
      refine ⟨c, cs ++ ',' :: itemChars (next :: items) ++ rest, ?_, hc⟩
      rw [itemChars, hchars, List.cons_append, List.cons_append]
      rintro ⟨⟩

theorem exists_memberChars_eq_cons {members : List (String × Json)} (hne : members ≠ [])
    (rest : List Char) : ∃ cs, memberChars members ++ rest = '"' :: cs := by
  obtain ⟨⟨name, value⟩, members, rfl⟩ := List.exists_cons_of_ne_nil hne
  cases members with
  | nil => exact ⟨_, rfl⟩
  | cons next members => exact ⟨_, rfl⟩

theorem length_chars_pos (j : Json) : 0 < j.chars.length := by
  obtain ⟨c, cs, hchars, -⟩ := exists_chars_eq_cons j
  rw [hchars]
  exact Nat.succ_pos _

mutual

/-- **A value is read back from its text, whatever follows.** The induction is on the value: the
fuel of each part is at least twice the length of its text. -/
theorem value?_chars (j : Json) (hj : j.Readable) (fuel : ℕ) (hfuel : 2 * j.chars.length ≤ fuel)
    {rest : List Char} (hrest : NumeralEnd rest) :
    value? fuel (j.chars ++ rest) = some (j.sorted, rest) := by
  have hpos := length_chars_pos j
  obtain ⟨fuel, rfl⟩ := Nat.exists_eq_succ_of_ne_zero (show fuel ≠ 0 by omega)
  match j with
  | .null => rfl
  | .bool true => rfl
  | .bool false => rfl
  | .int i =>
      rw [chars, value?_number (numberHead_intChars i)]
      exact number?_intChars hj hrest
  | .float n =>
      have hfinite : n.isFinite = true := hj
      rw [chars, if_pos hfinite, value?_number (numberHead_floatChars hfinite)]
      exact number?_floatChars hfinite hrest
  | .str s =>
      rw [chars] at hfuel ⊢
      exact value?_string (by omega) rest
  | .arr [] => rfl
  | .arr (item :: items) =>
      simp only [chars, List.length_append, List.length_cons, List.length_nil] at hfuel
      have hne : item :: items ≠ [] := List.cons_ne_nil item items
      have hread := items?_itemChars (item :: items) hne hj fuel (by omega) rest
      rw [chars, List.cons_append, List.cons_append, List.append_assoc, List.cons_append,
        List.nil_append]
      exact value?_array (exists_itemChars_eq_cons hne _) hread
  | .obj [] => rfl
  | .obj (member :: members) =>
      simp only [chars, List.length_append, List.length_cons, List.length_nil] at hfuel
      have hne : member :: members ≠ [] := List.cons_ne_nil member members
      have hread := members?_memberChars (member :: members) hne hj fuel (by omega) rest
      obtain ⟨cs, hcs⟩ := exists_memberChars_eq_cons hne ('}' :: rest)
      rw [chars, List.cons_append, List.cons_append, List.append_assoc, List.cons_append,
        List.nil_append, hcs]
      rw [hcs] at hread
      exact value?_object hread

/-- The items of an array are read back from their text, up to and with the closing bracket. -/
theorem items?_itemChars (items : List Json) (hne : items ≠ []) (h : ReadableItems items)
    (fuel : ℕ) (hfuel : 2 * (itemChars items).length < fuel) (rest : List Char) :
    items? fuel (itemChars items ++ ']' :: rest) = some (sortedItems items, rest) := by
  obtain ⟨fuel, rfl⟩ := Nat.exists_eq_succ_of_ne_zero (Nat.ne_zero_of_lt hfuel)
  match items with
  | [] => exact absurd rfl hne
  | [item] =>
      rw [itemChars] at hfuel ⊢
      exact items?_last
        (value?_chars item h.1 fuel (by omega) (numeralEnd_cons (.inr (.inl rfl)) rest))
  | item :: next :: items =>
      rw [itemChars, List.length_append, List.length_cons] at hfuel
      · have hitems := items?_itemChars (next :: items) (List.cons_ne_nil next items) h.2 fuel
          (by omega) rest
        have hitem := value?_chars item h.1 fuel (by omega)
          (numeralEnd_cons (.inl rfl) (itemChars (next :: items) ++ ']' :: rest))
        rw [itemChars, List.append_assoc]
        · exact items?_cons hitem hitems
        · rintro ⟨⟩
      · rintro ⟨⟩

/-- The members of an object are read back from their text, up to and with the closing brace. -/
theorem members?_memberChars (members : List (String × Json)) (hne : members ≠ [])
    (h : ReadableMembers members) (fuel : ℕ)
    (hfuel : 2 * (memberChars members).length < fuel) (rest : List Char) :
    members? fuel (memberChars members ++ '}' :: rest) = some (sortedMembers members, rest) := by
  obtain ⟨fuel, rfl⟩ := Nat.exists_eq_succ_of_ne_zero (Nat.ne_zero_of_lt hfuel)
  match members with
  | [] => exact absurd rfl hne
  | [(name, value)] =>
      rw [memberChars, List.length_append, List.length_cons] at hfuel
      have hvalue := value?_chars value h.1 fuel (by omega)
        (numeralEnd_cons (.inr (.inr rfl)) rest)
      rw [memberChars, List.append_assoc]
      exact members?_last (by omega) hvalue
  | (name, value) :: next :: members =>
      rw [memberChars, List.length_append, List.length_append, List.length_cons,
        List.length_cons] at hfuel
      · have hmembers := members?_memberChars (next :: members) (List.cons_ne_nil next members)
          h.2 fuel (by omega) rest
        have hvalue := value?_chars value h.1 fuel (by omega)
          (numeralEnd_cons (.inl rfl) (memberChars (next :: members) ++ '}' :: rest))
        rw [memberChars, List.append_assoc, List.append_assoc]
        · exact members?_cons (by omega) hvalue hmembers
        · rintro ⟨⟩
      · rintro ⟨⟩

end

end Reader

/-- **A value is read back from its compact text, sorted.** -/
theorem read?_compact {j : Json} (hj : j.Readable) : read? j.compact = some j.sorted := by
  have hend : Reader.NumeralEnd [] := by rintro c ⟨⟩
  have hread := Reader.value?_chars j hj (2 * j.chars.length + 2) (by omega) hend
  rw [List.append_nil] at hread
  rw [read?, compact, String.toList_ofList, ofChars?, hread]
  rfl

end Json

end JokerScript
