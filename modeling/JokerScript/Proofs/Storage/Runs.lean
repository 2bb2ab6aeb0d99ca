import Std.Data.HashMap.Lemmas
import JokerScript.Proofs.Resolve.Settled
import JokerScript.Proofs.Storage.Adopted
import JokerScript.Proofs.Storage.Served

/-!
# Runs of a Storage

Claims and declarations in any order. The names that are taken, the list of declarations and
the places in that list are three views of one storage, and they **stay in step**: no
operation changes one without the others. A claim reserves names that nobody had, so two
claims of a run have no name in common.

The place of a name is found by a search through the declarations. A storage that keeps a
table of the places instead, and only ever inserts into it, goes through the same run.

## Main definitions

* `Storage.Op`, `Storage.run` — operations, and a run of them.
* `Storage.Origin` — what a run starts from.
* `Storage.InStep` — the three views agree.
* `IndexedStorage` — a storage with a table of places.

## Main results

* `Storage.Reachable.inStep` — the views agree in every storage of a run.
* `Storage.pairwise_reservations` — the claims of a run reserve disjoint sets.
* `IndexedStorage.Sound.after`, `Storage.Origin.indexed_run` — the table stays in step.
* `Storage.Origin.run_spec` — all of it, for every run.
-/

namespace JokerScript

namespace Storage

/-! ### Operations -/

/-- An operation on a storage. -/
inductive Op
  | claim (base : String) (suffixes : List String)
  | declare (v : StoredVariable)
deriving DecidableEq, Repr

/-- The storage after an operation. One that fails leaves what it had. -/
def Op.after (s : Storage) : Op → Storage
  | .claim base suffixes => ((Resolver.claim base suffixes).run s).2
  | .declare v => ((Resolver.declare v).run s).2

/-- The names that an operation reserves: a claim takes one name with its forms. -/
def Op.reservation? (s : Storage) : Op → Option (List String)
  | .claim base suffixes => some (forms suffixes (s.claimedName base suffixes))
  | .declare _ => none

/-- The storage after a run. -/
def run (s : Storage) (ops : List Op) : Storage := ops.foldl Op.after s

/-- The sets that the claims of a run reserve, in order. -/
def reservations (s : Storage) (ops : List Op) : List (List String) :=
  (stages Op.after s ops).filterMap fun p => p.2.reservation? p.1

@[simp] theorem Op.after_claim (s : Storage) (base : String) (suffixes : List String) :
    Op.after s (.claim base suffixes) = (s.claim base suffixes).2 := rfl

/-- A declaration adds its variable, or there is one of its name and nothing happens. -/
theorem run_declare_cases (s : Storage) (v : StoredVariable) :
    (v.name ∉ s.names ∧ (Resolver.declare v).run s = (.ok (), s.adding v)) ∨
      (v.name ∈ s.names ∧
        (Resolver.declare v).run s = (.error (.duplicateConfigVariable v.name), s)) := by
  by_cases hv : v.name ∈ s.names
  · refine Or.inr ⟨hv, ?_⟩
    have hget : (get : Resolver Storage).run s = (.ok s, s) := rfl
    have herror : s.declare v = .error (.duplicateConfigVariable v.name) :=
      if_pos ((s.isDeclared_iff v.name).mpr hv)
    rw [Resolver.declare, Resolver.run_bind_of_ok _ hget, herror]
    rfl
  · exact Or.inl ⟨hv, Resolver.run_declare hv⟩

theorem Op.after_declare_of_notMem {s : Storage} {v : StoredVariable} (h : v.name ∉ s.names) :
    Op.after s (.declare v) = s.adding v := by
  rw [Op.after, Resolver.run_declare h]

theorem Op.after_declare_of_mem {s : Storage} {v : StoredVariable} (h : v.name ∈ s.names) :
    Op.after s (.declare v) = s := by
  rcases s.run_declare_cases v with ⟨hnot, -⟩ | ⟨-, hrun⟩
  · exact absurd h hnot
  · rw [Op.after, hrun]

/-! ### What a run keeps -/

/-- The storage **keeps** what it had: its names stay taken, and its declarations stay where
they are. -/
structure Keeps (s t : Storage) : Prop where
  taken : s.taken ⊆ t.taken
  declared : s.declared <+: t.declared

namespace Keeps

theorem refl (s : Storage) : s.Keeps s :=
  ⟨List.Subset.refl _, List.prefix_rfl⟩

theorem trans {s t u : Storage} (hst : s.Keeps t) (htu : t.Keeps u) : s.Keeps u :=
  ⟨List.Subset.trans hst.taken htu.taken, hst.declared.trans htu.declared⟩

/-- **An operation only adds.** -/
theorem after (s : Storage) (op : Op) : s.Keeps (op.after s) := by
  cases op with
  | claim base suffixes =>
      exact ⟨fun name hname => mem_claim.mpr (Or.inr hname), List.prefix_rfl⟩
  | declare v =>
      by_cases hv : v.name ∈ s.names
      · rw [Op.after_declare_of_mem hv]
        exact refl s
      · rw [Op.after_declare_of_notMem hv]
        exact ⟨fun name hname => mem_adding.mpr (Or.inr hname), List.prefix_append _ _⟩

theorem run (s : Storage) (ops : List Op) : s.Keeps (s.run ops) :=
  foldl_between refl trans after ops s

end Keeps

namespace Reachable

theorem after {s : Storage} (h : s.Reachable) (op : Op) : (op.after s).Reachable := by
  cases op with
  | claim base suffixes => exact h.claim base suffixes
  | declare v =>
      by_cases hv : v.name ∈ s.names
      · rwa [Op.after_declare_of_mem hv]
      · rw [Op.after_declare_of_notMem hv]
        exact h.adding hv

theorem run {s : Storage} (h : s.Reachable) (ops : List Op) : (s.run ops).Reachable := by
  induction ops generalizing s with
  | nil => exact h
  | cons op ops ih => exact ih (h.after op)

end Reachable

/-! ### Three views in step -/

/-- The names that are taken, the declarations and their places **agree**. -/
structure InStep (s : Storage) : Prop where
  /-- No name is declared twice. -/
  nodup : s.names.Nodup
  /-- A name has a place exactly if it is declared there. -/
  index : ∀ name i, s.index? name = some i ↔ (s.declared[i]?).map (·.name) = some name
  /-- What is declared is taken. -/
  taken : ∀ name ∈ s.names, s.contains name = true

/-- If the names are distinct, the search finds the one place of a name. -/
theorem index?_eq_some_iff {s : Storage} (h : s.names.Nodup) (name : String) (i : ℕ) :
    s.index? name = some i ↔ (s.declared[i]?).map (·.name) = some name := by
  rw [index?, List.findIdx?_eq_some_iff_getElem]
  constructor
  · rintro ⟨hi, hname, -⟩
    rw [List.getElem?_eq_getElem hi, Option.map_some, eq_of_beq hname]
  · intro hget
    obtain ⟨v, hv, rfl⟩ := Option.map_eq_some_iff.mp hget
    obtain ⟨hi, rfl⟩ := List.getElem?_eq_some_iff.mp hv
    refine ⟨hi, beq_self_eq_true _, fun j hj hbeq => ?_⟩
    -- An earlier place of the same name would repeat it.
    have hlength : s.names.length = s.declared.length := List.length_map _
    have hi : i < s.names.length := by omega
    have hj : j < s.names.length := by omega
    have hplace : s.names[j] = s.names[i] := by
      simpa only [names, List.getElem_map] using eq_of_beq hbeq
    have hji : j = i := (List.Nodup.getElem_inj_iff h).mp hplace
    omega

theorem Reachable.inStep {s : Storage} (h : s.Reachable) : s.InStep where
  nodup := h.nodup
  index := index?_eq_some_iff h.nodup
  taken _ hname := List.contains_iff_mem.mpr (h.declared_taken hname)

/-! ### Reservations -/

theorem Op.reservation?_subset_taken {s : Storage} {op : Op} {reserved : List String}
    (h : op.reservation? s = some reserved) : reserved ⊆ (op.after s).taken := by
  cases op with
  | claim base suffixes =>
      obtain rfl := Option.some.inj h
      exact fun name hname => mem_claim.mpr (Or.inl hname)
  | declare v => cases h

theorem Op.disjoint_taken_reservation? {s : Storage} {op : Op} {reserved : List String}
    (h : op.reservation? s = some reserved) : List.Disjoint s.taken reserved := by
  cases op with
  | claim base suffixes =>
      obtain rfl := Option.some.inj h
      exact fun name htaken hname =>
        (s.isFree_iff suffixes _).mp (s.isFree_claimedName base suffixes) name hname htaken
  | declare v => cases h

theorem mem_reservations {s : Storage} {ops : List Op} {reserved : List String} :
    reserved ∈ s.reservations ops ↔
      ∃ p ∈ stages Op.after s ops, p.2.reservation? p.1 = some reserved :=
  List.mem_filterMap

/-- What a run reserves is taken at its end. -/
theorem reservations_subset_taken {s : Storage} {ops : List Op} {reserved : List String}
    (h : reserved ∈ s.reservations ops) : reserved ⊆ (s.run ops).taken := by
  obtain ⟨p, hp, hreserved⟩ := mem_reservations.mp h
  obtain ⟨-, hend⟩ := stages_between Keeps.refl Keeps.trans Keeps.after hp
  exact List.Subset.trans (Op.reservation?_subset_taken hreserved) hend.taken

/-- What a run reserves was free at its beginning. -/
theorem disjoint_taken_reservations {s : Storage} {ops : List Op} {reserved : List String}
    (h : reserved ∈ s.reservations ops) : List.Disjoint s.taken reserved := by
  obtain ⟨p, hp, hreserved⟩ := mem_reservations.mp h
  obtain ⟨hbegin, -⟩ := stages_between Keeps.refl Keeps.trans Keeps.after hp
  exact List.disjoint_of_subset_left hbegin.taken (Op.disjoint_taken_reservation? hreserved)

/-- **Two claims of a run reserve disjoint sets.** -/
theorem pairwise_reservations (s : Storage) (ops : List Op) :
    (s.reservations ops).Pairwise List.Disjoint := by
  induction ops generalizing s with
  | nil => exact List.Pairwise.nil
  | cons op ops ih =>
      rw [reservations, stages, List.filterMap_cons]
      split
      · exact ih (op.after s)
      · rename_i reserved hreserved
        refine List.Pairwise.cons (fun later hlater => ?_) (ih (op.after s))
        exact List.disjoint_of_subset_left (Op.reservation?_subset_taken hreserved)
          (disjoint_taken_reservations hlater)

end Storage

/-! ### A table of places -/

/-- A storage with a **table of the places** of its variables. The table is never searched
for or made anew: an operation inserts into it, and decides by it. -/
structure IndexedStorage where
  storage : Storage := {}
  places : Std.HashMap String ℕ := {}

namespace IndexedStorage

/-- Claim a name. -/
def claim (s : IndexedStorage) (base : String) (suffixes : List String) :
    String × IndexedStorage :=
  let (name, storage) := s.storage.claim base suffixes
  (name, { s with storage })

/-- Declare a variable. Its place is the number of those before it. -/
def declare (s : IndexedStorage) (v : StoredVariable) : Except CompileError IndexedStorage :=
  if v.name ∈ s.places then
    .error (.duplicateConfigVariable v.name)
  else
    .ok { storage := s.storage.adding v
          places := s.places.insert v.name s.storage.declared.length }

/-- Take up a variable of a joker. -/
def adopt (s : IndexedStorage) (v : Variable) : Except CompileError IndexedStorage :=
  let reserved := { s with storage := s.storage.reserve [v.name] }
  if v.kind = .number then reserved.declare ⟨v.name, v.initial⟩ else .ok reserved

/-- The storage with the variables of a joker. -/
def ofJoker (joker : Joker) : Except CompileError IndexedStorage := joker.vars.foldlM adopt {}

/-- The storage after an operation. One that fails leaves what it had. -/
def after (s : IndexedStorage) : Storage.Op → IndexedStorage
  | .claim base suffixes => (s.claim base suffixes).2
  | .declare v =>
    match s.declare v with
    | .ok t => t
    | .error _ => s

/-- The storage after a run. -/
def run (s : IndexedStorage) (ops : List Storage.Op) : IndexedStorage := ops.foldl after s

/-- The table holds the places that a search finds. -/
def Sound (s : IndexedStorage) : Prop :=
  ∀ name : String, s.places[name]? = s.storage.index? name

end IndexedStorage

/-- A new variable stands behind the others. -/
theorem Storage.index?_adding {s : Storage} {v : StoredVariable} (h : v.name ∉ s.names)
    (name : String) :
    (s.adding v).index? name = if v.name = name then some s.declared.length else s.index? name := by
  have happend : (s.adding v).index? name =
      (s.index? name).or (([v].findIdx? fun w => w.name == name).map (· + s.declared.length)) :=
    List.findIdx?_append
  rw [happend]
  by_cases hname : v.name = name
  · subst hname
    have hnone : s.index? v.name = none := by
      rw [← Option.not_isSome_iff_eq_none]
      exact fun hsome => h ((s.isDeclared_iff v.name).mp hsome)
    simp [hnone, List.findIdx?_cons]
  · simp [hname, List.findIdx?_cons]

namespace IndexedStorage.Sound

open Storage

variable {s : IndexedStorage}

theorem mem_places (h : s.Sound) (name : String) : name ∈ s.places ↔ name ∈ s.storage.names := by
  rw [← isDeclared_iff, isDeclared, ← h name, Std.HashMap.mem_iff_isSome_getElem?]

theorem declare_of_notMem (h : s.Sound) {v : StoredVariable} (hv : v.name ∉ s.storage.names) :
    ∃ places, s.declare v = .ok ⟨s.storage.adding v, places⟩ ∧
      Sound ⟨s.storage.adding v, places⟩ := by
  have hnot : v.name ∉ s.places := fun hmem => hv ((h.mem_places v.name).mp hmem)
  refine ⟨s.places.insert v.name s.storage.declared.length, if_neg hnot, fun name => ?_⟩
  change (s.places.insert v.name s.storage.declared.length)[name]? = _
  rw [Std.HashMap.getElem?_insert, index?_adding hv, h name]
  simp only [beq_iff_eq]

theorem declare_of_mem (h : s.Sound) {v : StoredVariable} (hv : v.name ∈ s.storage.names) :
    s.declare v = .error (.duplicateConfigVariable v.name) :=
  if_pos ((h.mem_places v.name).mpr hv)

/-- **An operation keeps the table in step.** -/
theorem after (h : s.Sound) (op : Op) :
    (s.after op).storage = op.after s.storage ∧ (s.after op).Sound := by
  cases op with
  | claim base suffixes => exact ⟨rfl, h⟩
  | declare v =>
      by_cases hv : v.name ∈ s.storage.names
      · rw [IndexedStorage.after, h.declare_of_mem hv, Op.after_declare_of_mem hv]
        exact ⟨rfl, h⟩
      · obtain ⟨places, hdeclare, hsound⟩ := h.declare_of_notMem hv
        rw [IndexedStorage.after, hdeclare, Op.after_declare_of_notMem hv]
        exact ⟨rfl, hsound⟩

theorem run (h : s.Sound) (ops : List Op) :
    (s.run ops).storage = s.storage.run ops ∧ (s.run ops).Sound := by
  induction ops generalizing s with
  | nil => exact ⟨rfl, h⟩
  | cons op ops ih =>
      obtain ⟨hstorage, hsound⟩ := h.after op
      have hrest := ih hsound
      rw [hstorage] at hrest
      exact hrest

theorem adopt (h : s.Sound) {v : Variable} {t : Storage} (ht : s.storage.adopt v = .ok t) :
    ∃ places, s.adopt v = .ok ⟨t, places⟩ ∧ Sound ⟨t, places⟩ := by
  have hreserved : Sound { s with storage := s.storage.reserve [v.name] } := h
  rw [Storage.adopt] at ht
  rw [IndexedStorage.adopt]
  split at ht
  · rename_i hkind
    obtain ⟨hnot, rfl⟩ := declare_eq_ok ht
    rw [if_pos hkind]
    exact hreserved.declare_of_notMem hnot
  · rename_i hkind
    obtain rfl := Except.ok.inj ht
    rw [if_neg hkind]
    exact ⟨s.places, rfl, hreserved⟩

theorem foldlM_adopt (h : s.Sound) {vars : List Variable} {t : Storage}
    (ht : vars.foldlM Storage.adopt s.storage = .ok t) :
    ∃ places, vars.foldlM IndexedStorage.adopt s = .ok ⟨t, places⟩ ∧ Sound ⟨t, places⟩ := by
  induction vars generalizing s with
  | nil =>
      obtain rfl := Except.ok.inj ht
      exact ⟨s.places, rfl, h⟩
  | cons v vars ih =>
      rw [List.foldlM_cons] at ht ⊢
      cases hv : s.storage.adopt v with
      | error e =>
          rw [hv] at ht
          cases ht
      | ok u =>
          rw [hv] at ht
          obtain ⟨places, hadopt, hsound⟩ := h.adopt hv
          rw [hadopt]
          exact ih hsound ht

end IndexedStorage.Sound

/-! ### Every run -/

namespace Storage

/-- What a run starts from: nothing, or the variables of a joker. -/
inductive Origin
  | empty
  | joker (joker : Joker)

namespace Origin

/-- The names that the author of the joker gave. -/
def userNames : Origin → List String
  | empty => []
  | joker j => j.vars.map (·.name)

def storage : Origin → Except CompileError Storage
  | empty => .ok {}
  | joker j => ofJoker j

def indexed : Origin → Except CompileError IndexedStorage
  | empty => .ok {}
  | joker j => IndexedStorage.ofJoker j

variable {origin : Origin} {start : Storage}

theorem reachable (h : origin.storage = .ok start) : start.Reachable := by
  cases origin with
  | empty =>
      obtain rfl := Except.ok.inj h
      exact .empty
  | joker j => exact Reachable.ofJoker h

/-- The names of the author are taken. -/
theorem userNames_subset_taken (h : origin.storage = .ok start) :
    origin.userNames ⊆ start.taken := by
  cases origin with
  | empty => exact List.nil_subset _
  | joker j =>
      intro name hname
      obtain ⟨v, hv, rfl⟩ := List.mem_map.mp hname
      exact (ofJoker_eq_ok h).2 v hv

/-- **The table is in step in every run.** -/
theorem indexed_run (h : origin.storage = .ok start) (ops : List Op) :
    ∃ places, origin.indexed.map (·.run ops) = .ok ⟨start.run ops, places⟩ ∧
      ∀ name : String, places[name]? = (start.run ops).index? name := by
  have hempty : IndexedStorage.Sound {} := fun name => Std.HashMap.getElem?_empty
  obtain ⟨places, hbegin, hsound⟩ : ∃ places, origin.indexed = .ok ⟨start, places⟩ ∧
      IndexedStorage.Sound ⟨start, places⟩ := by
    cases origin with
    | empty =>
        obtain rfl := Except.ok.inj h
        exact ⟨{}, rfl, hempty⟩
    | joker j => exact hempty.foldlM_adopt h
  obtain ⟨hstorage, hend⟩ := hsound.run ops
  refine ⟨(IndexedStorage.run ⟨start, places⟩ ops).places, ?_, ?_⟩
  · rw [hbegin, ← hstorage]
    rfl
  · rw [← hstorage]
    exact hend

/-- **Every run.** In each storage that claims and declarations lead to, the three views agree,
and so does a table that they only insert into. The next declaration adds a variable behind
the others, or fails and changes nothing. The next claim has a result, and the set that it
reserves has no name of the author, no declared name and no name reserved before. -/
theorem run_spec (h : origin.storage = .ok start) (ops : List Op) :
    let s := start.run ops
    s.InStep ∧
      (∃ places, origin.indexed.map (·.run ops) = .ok ⟨s, places⟩ ∧
        ∀ name : String, places[name]? = s.index? name) ∧
      start.declared <+: s.declared ∧
      (∀ v : StoredVariable,
        (v.name ∉ s.names ∧ ∃ t, (Resolver.declare v).run s = (.ok (), t) ∧
          t.declared = s.declared ++ [v] ∧
          ∀ name, t.contains name = true ↔ name = v.name ∨ s.contains name = true) ∨
        (v.name ∈ s.names ∧
          (Resolver.declare v).run s = (.error (.duplicateConfigVariable v.name), s))) ∧
      (∀ base suffixes, ∃ name t, (Resolver.claim base suffixes).run s = (.ok name, t) ∧
        t.declared = s.declared ∧
        (∀ other, t.contains other = true ↔
          (other = name ∨ ∃ suffix ∈ suffixes, other = name ++ suffix) ∨ s.contains other = true) ∧
        List.Disjoint (forms suffixes name) origin.userNames ∧
        List.Disjoint (forms suffixes name) s.names ∧
        ∀ reserved ∈ start.reservations ops, List.Disjoint (forms suffixes name) reserved) ∧
      (start.reservations ops).Pairwise List.Disjoint := by
  intro s
  have hreachable : s.Reachable := (reachable h).run ops
  have hkeeps : start.Keeps s := Keeps.run start ops
  refine ⟨hreachable.inStep, indexed_run h ops, hkeeps.declared, fun v => ?_,
    fun base suffixes => ?_, pairwise_reservations start ops⟩
  · rcases s.run_declare_cases v with ⟨hnot, hrun⟩ | ⟨hmem, hrun⟩
    · refine Or.inl ⟨hnot, s.adding v, hrun, rfl, fun name => ?_⟩
      simpa only [contains, List.contains_iff_mem] using mem_adding
    · exact Or.inr ⟨hmem, hrun⟩
  · have hfree : List.Disjoint (forms suffixes (s.claimedName base suffixes)) s.taken :=
      (s.isFree_iff suffixes _).mp (s.isFree_claimedName base suffixes)
    refine ⟨s.claimedName base suffixes, (s.claim base suffixes).2,
      Resolver.run_claim base suffixes s, rfl, fun other => ?_, ?_, ?_,
      fun reserved hreserved => ?_⟩
    · rw [contains, contains, List.contains_iff_mem, List.contains_iff_mem, mem_claim, mem_forms]
      simp
    · exact List.disjoint_of_subset_right
        (List.Subset.trans (userNames_subset_taken h) hkeeps.taken) hfree
    · exact List.disjoint_of_subset_right (fun _ => hreachable.declared_taken) hfree
    · exact List.disjoint_of_subset_right (reservations_subset_taken hreserved) hfree

/-- A joker whose variables are called like a slot and like the bound of another. -/
def shadowing : Joker where
  id := ⟨"joker"⟩
  key := ⟨"shadow"⟩
  vars := [.ofNumber "hands" Number.two, .ofSuit "hands2_min"]

/-- Claims between declarations. The last claim passes over `hands4`, whose bound was declared
by itself. -/
def shadowedOps : List Op :=
  [.claim "hands" valueSuffixes, .declare ⟨"hands3_max", Number.one⟩,
    .declare ⟨"hands3_max", Number.two⟩, .declare ⟨"hands4_min", Number.one⟩,
    .claim "hands" ["2"], .claim "hands" valueSuffixes]

theorem run_spec_shadowing : ∃ start, (Origin.joker shadowing).storage = .ok start ∧
    start.reservations shadowedOps =
      [["hands3", "hands3", "hands3_min", "hands3_max"], ["hands2", "hands22"],
        ["hands5", "hands5", "hands5_min", "hands5_max"]] ∧
    (start.run shadowedOps).names = ["hands", "hands3_max", "hands4_min"] ∧
    (start.run shadowedOps).InStep ∧ (start.reservations shadowedOps).Pairwise List.Disjoint := by
  have hstart : (Origin.joker shadowing).storage = .ok
      ((({} : Storage).reserve ["hands"]).adding ⟨"hands", Number.two⟩ |>.reserve
        ["hands2_min"]) := by
    decide +kernel
  obtain ⟨hstep, -, -, -, -, hdisjoint⟩ := run_spec hstart shadowedOps
  exact ⟨_, hstart, by decide +kernel, by decide +kernel, hstep, hdisjoint⟩

end Origin

end Storage

end JokerScript
