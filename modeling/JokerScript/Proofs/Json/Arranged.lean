import JokerScript.Proofs.Json.Text
import JokerScript.Tag

/-!
# Values with Arranged Members

A record is read member by member, so it does not matter in which order its members stand. A
rearrangement of values goes into arrays and objects and may only move members whose names
differ. The decoders give the same result for a value and for its rearrangement; in particular
they do for a value that was written and read back, whose members are sorted.

## Main definitions

* `Json.Rearranges` — a function on values moves members only.

## Main results

* `Json.rearranges_id`, `Json.rearranges_sorted` — nothing is moved, and members are sorted.
* `Json.list?_arranged`, `Json.nullable_arranged`, `Json.typed?_arranged` — decoders of arranged
  values.
-/

namespace JokerScript

namespace Json

/-- **A rearrangement**: the members of an object may stand in another order, in every part of a
value, and nothing else changes. -/
structure Rearranges (r : Json → Json) : Prop where
  null : r .null = .null
  bool (b : Bool) : r (.bool b) = .bool b
  float (n : Number) : r (.float n) = .float n
  str (s : String) : r (.str s) = .str s
  arr (items : List Json) : r (.arr items) = .arr (items.map r)
  single (name : String) (value : Json) : r (.obj [(name, value)]) = .obj [(name, r value)]
  record (members : List (String × Json)) (h : (members.map Prod.fst).Nodup) :
    ∃ members', r (.obj members) = .obj members' ∧
      ∀ name, find members' name = (find members name).map r

/-! ### Sorted members -/

variable {members : List (String × Json)} {name n : String} {value : Json}

@[simp] theorem find_nil (name : String) : find [] name = none := rfl

theorem find_cons (n : String) (value : Json) (members : List (String × Json)) (name : String) :
    find ((n, value) :: members) name = if name = n then some value else find members name := by
  rw [find, List.lookup_cons]
  by_cases h : name = n
  · simp [h]
  · simp [h, beq_eq_false_iff_ne.mpr h, find]

theorem find_eq_none (h : name ∉ members.map Prod.fst) : find members name = none := by
  induction members with
  | nil => rfl
  | cons m members ih =>
      rw [List.map_cons, List.mem_cons, not_or] at h
      rw [find_cons, if_neg h.1, ih h.2]

/-- The member that is set, among the others. -/
theorem find_insertMember (n : String) (value : Json) (members : List (String × Json))
    (name : String) : find (insertMember n value members) name =
      if name = n then some value else find members name := by
  induction members with
  | nil => rw [insertMember, find_cons]
  | cons m members ih =>
      obtain ⟨k, v⟩ := m
      rw [insertMember]
      by_cases hsame : n = k
      · rw [if_pos hsame, find_cons, find_cons, ← hsame]
        split <;> rfl
      · rw [if_neg hsame]
        split
        · rw [find_cons]
        · rw [find_cons, find_cons, ih]
          by_cases hname : name = n
          · rw [if_pos hname, if_pos hname, if_neg (hname ▸ hsame)]
          · rw [if_neg hname, if_neg hname]

/-- Members of distinct names are found among the members that they are set in. -/
theorem find_foldl_insertMember (h : (members.map Prod.fst).Nodup) (start : List (String × Json))
    (name : String) :
    find (members.foldl (fun sorted m => insertMember m.1 m.2 sorted) start) name =
      (find members name).or (find start name) := by
  induction members generalizing start with
  | nil => rfl
  | cons m members ih =>
      obtain ⟨n, value⟩ := m
      obtain ⟨hnotin, hnodup⟩ := List.nodup_cons.mp h
      rw [List.foldl_cons, ih hnodup, find_insertMember, find_cons]
      split_ifs with heq
      · rw [heq, find_eq_none hnotin, Option.none_or, Option.some_or]
      · rfl

theorem map_fst_sortedMembers (members : List (String × Json)) :
    (sortedMembers members).map Prod.fst = members.map Prod.fst := by
  induction members with
  | nil => rfl
  | cons m members ih => rw [sortedMembers, List.map_cons, List.map_cons, ih]

theorem find_sortedMembers (members : List (String × Json)) (name : String) :
    find (sortedMembers members) name = (find members name).map sorted := by
  induction members with
  | nil => rfl
  | cons m members ih =>
      rw [sortedMembers, find_cons, find_cons, ih]
      split <;> rfl

theorem sortedItems_eq_map (items : List Json) : sortedItems items = items.map sorted := by
  induction items with
  | nil => rfl
  | cons item items ih => rw [sortedItems, List.map_cons, ih]

/-! ### Rearrangements -/

/-- Nothing need be moved. -/
theorem rearranges_id : Rearranges id where
  null := rfl
  bool _ := rfl
  float _ := rfl
  str _ := rfl
  arr items := by rw [List.map_id, id]
  single _ _ := rfl
  record members _ := ⟨members, rfl, fun name => by rw [Option.map_id, id]⟩

/-- **Sorting the members of every object is a rearrangement.** -/
theorem rearranges_sorted : Rearranges sorted where
  null := rfl
  bool _ := rfl
  float _ := rfl
  str _ := rfl
  arr items := by rw [sorted, sortedItems_eq_map]
  single _ _ := rfl
  record members h := by
    refine ⟨_, rfl, fun name => ?_⟩
    rw [find_foldl_insertMember (by rwa [map_fst_sortedMembers]), find_nil, Option.or_none,
      find_sortedMembers]

/-! ### Decoders of arranged values -/

namespace Rearranges

variable {r : Json → Json} {α : Type} {decode : Json → Option α} {encode : α → Json}

/-- Every item of an array that is written is read. -/
theorem list? (hr : Rearranges r) {xs : List α}
    (h : ∀ x ∈ xs, decode (r (encode x)) = some x) :
    Json.list? decode (r (.arr (xs.map encode))) = some xs := by
  rw [hr.arr, Json.list?]
  induction xs with
  | nil => rfl
  | cons x xs ih =>
      rw [List.forall_mem_cons] at h
      rw [List.map_cons, List.map_cons, List.mapM_cons, h.1, ih h.2]
      rfl

/-- An optional value that is written is read, if no value is written as `null`. -/
theorem nullable (hr : Rearranges r) {o : Option α}
    (h : ∀ x ∈ o, decode (r (encode x)) = some x) (hnull : ∀ x ∈ o, r (encode x) ≠ .null) :
    Json.nullable decode (r (Json.ofOption encode o)) = some o := by
  cases o with
  | none => rw [Json.ofOption, hr.null, Json.nullable]
  | some x =>
      rw [Json.ofOption, Json.nullable, h x rfl]
      · rfl
      · exact hnull x rfl

theorem nullable_text (hr : Rearranges r) (o : Option String) :
    Json.nullable string? (r (Json.ofOption .str o)) = some o :=
  hr.nullable (fun x _ => by rw [hr.str]; rfl) fun x _ => by rw [hr.str]; rintro ⟨⟩

/-- The members of a record, each arranged. -/
theorem members? (hr : Rearranges r) {j : Json} {members : List (String × Json)}
    (hj : j = .obj members) (h : (members.map Prod.fst).Nodup) :
    ∃ members', Json.members? (r j) = some members' ∧
      ∀ name, find members' name = (find members name).map r := by
  obtain ⟨members', hmembers, hfind⟩ := hr.record members h
  exact ⟨members', by rw [hj, hmembers, Json.members?], hfind⟩

/-- The tag and the data of a choice with data. -/
theorem typed? (hr : Rearranges r) (tag : String) (params : Json) :
    Json.typed? (r (typed tag params)) = some (tag, r params) := by
  obtain ⟨members, hmembers, hfind⟩ := hr.members? (rfl : typed tag params = .obj _) (by simp)
  simp [Json.typed?, hmembers, required, hfind, find_cons, hr.str, tag?, variant?]

end Rearranges

end Json

/-- A bare tag that is written is read. -/
theorem Tagged.ofJson?_arranged {α : Type} [Tagged α] {r : Json → Json} (hr : Json.Rearranges r)
    (form : TagForm) (a : α) : Tagged.ofJson? form (r (Tagged.toJson a)) = some a := by
  rw [Tagged.toJson, hr.str]
  exact Tagged.ofJson?_toJson form a

end JokerScript
