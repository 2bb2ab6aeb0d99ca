import JokerScript.Lua.Syntax
import JokerScript.Text.Pieces

/-!
# Paths in Code

Generated code touches the game and the storage of the joker through dotted paths only. The
**uses** of a tree are all places where a path stands in it, inside functions too, each with
the information whether it is the target of an assignment.

What a piece of code does to the storage of its joker is told by its uses: which variables
it reads, and which ones it assigns.

## Main definitions

* `Lua.PathUse`, `Lua.Expr.uses`, `Lua.blockUses` — the uses of trees.
* `Lua.storedName?`, `Lua.PathUse.name?` — the variable of the joker that a path leads to.
* `Lua.PathUse.KeepsTo` — a use of no other variables than the given ones.
* `Lua.Expr.UsesAll`, `Lua.BlockUsesAll` — code all of whose uses have a property.

## Main results

* `Lua.storedName?_eq_some` — the paths that lead to a variable.
-/

namespace JokerScript

namespace Lua

/-! ### Uses -/

/-- A place in a tree where a path stands. -/
structure PathUse where
  path : String
  /-- Is the path the target of an assignment? -/
  isTarget : Bool
deriving DecidableEq, Repr

/-- The uses of the target of an assignment, given its uses as an expression. -/
def targetUses : Expr → List PathUse → List PathUse
  | .path p, _ => [⟨p, true⟩]
  | _, uses => uses

mutual

/-- The uses in an expression. -/
def Expr.uses : Expr → List PathUse
  | .nil | .bool _ | .number _ | .str _ => []
  | .path p => [⟨p, false⟩]
  | .unary _ e => e.uses
  | .binary _ l r => l.uses ++ r.uses
  | .call callee args => callee.uses ++ argUses args
  | .method receiver _ args => receiver.uses ++ argUses args
  | .table fields => fieldUses fields
  | .function _ body => blockUses body
  | .invoked body => blockUses body

/-- The uses in arguments. -/
def argUses : List Expr → List PathUse
  | [] => []
  | e :: rest => e.uses ++ argUses rest

/-- The uses in the fields of a table. -/
def fieldUses : List Field → List PathUse
  | [] => []
  | .named _ e :: rest => e.uses ++ fieldUses rest
  | .positional e :: rest => e.uses ++ fieldUses rest

/-- The uses in a statement. -/
def Stmt.uses : Stmt → List PathUse
  | .declare _ none => []
  | .declare _ (some e) => e.uses
  | .assign target e => targetUses target target.uses ++ e.uses
  | .run e => e.uses
  | .branch arms otherwise => armUses arms ++ elseUses otherwise
  | .forIn _ iter body => iter.uses ++ blockUses body
  | .ret none => []
  | .ret (some e) => e.uses
  | .leave => []
  | .define _ _ body => blockUses body

/-- The uses in the arms of a branch. -/
def armUses : List Arm → List PathUse
  | [] => []
  | .mk condition body :: rest => condition.uses ++ blockUses body ++ armUses rest

/-- The uses in the last alternative of a branch. -/
def elseUses : Option (List Stmt) → List PathUse
  | none => []
  | some body => blockUses body

/-- The uses in a block. -/
def blockUses : List Stmt → List PathUse
  | [] => []
  | stmt :: rest => stmt.uses ++ blockUses rest

end

theorem blockUses_append (first second : Block) :
    blockUses (first ++ second) = blockUses first ++ blockUses second := by
  induction first with
  | nil => rfl
  | cons stmt first ih => rw [List.cons_append, blockUses, ih, blockUses, List.append_assoc]

/-! ### Variables of the joker -/

/-- The name of the variable that a path leads to, if it leads into the storage of the
joker. -/
def storedName? (p : String) : Option String :=
  (afterLead? "card.ability.extra.".toList p.toList).map String.ofList

theorem afterLead?_eq_some {lead cs rest : List Char} :
    afterLead? lead cs = some rest ↔ cs = lead ++ rest := by
  induction lead generalizing cs with
  | nil => simp [afterLead?]
  | cons l lead ih =>
      cases cs with
      | nil => simp [afterLead?]
      | cons c cs =>
          rw [afterLead?, List.cons_append, List.cons.injEq]
          split
          · rename_i hl
            rw [ih]
            simp [hl]
          · rename_i hl
            simp [Ne.symm hl]

/-- **The paths that lead to a variable** of the joker are those that generated code writes
for it. -/
theorem storedName?_eq_some {p name : String} :
    storedName? p = some name ↔ p = "card.ability.extra." ++ name := by
  rw [storedName?, Option.map_eq_some_iff]
  constructor
  · rintro ⟨rest, hrest, rfl⟩
    apply String.toList_inj.mp
    rw [String.toList_append, afterLead?_eq_some.mp hrest]
    exact congrArg _ String.toList_ofList.symm
  · rintro rfl
    exact ⟨name.toList, afterLead?_eq_some.mpr String.toList_append, String.ofList_toList⟩

theorem storedName?_extra (name : String) :
    storedName? ("card.ability.extra." ++ name) = some name :=
  storedName?_eq_some.mpr rfl

/-- A path that begins with another character leads elsewhere. -/
theorem storedName?_of_head {p : String} {c : Char} (hhead : c ∈ p.toList.head?) (hc : c ≠ 'c') :
    storedName? p = none := by
  cases hp : p.toList with
  | nil => rw [storedName?, hp]; rfl
  | cons d ds =>
      rw [hp, List.head?_cons, Option.mem_some_iff] at hhead
      subst hhead
      have hlead : "card.ability.extra.".toList = 'c' :: "ard.ability.extra.".toList := rfl
      rw [storedName?, hp, hlead, afterLead?, if_neg (Ne.symm hc), Option.map_none]

/-! ### What is used -/

namespace PathUse

/-- The variable of the joker that is used, if one is. -/
def name? (u : PathUse) : Option String := storedName? u.path

/-- The use is no other use of the storage than reading one of the first names, or reading
or assigning one of the second. -/
def KeepsTo (readable records : List String) (u : PathUse) : Prop :=
  ∀ name ∈ u.name?, u.isTarget = false ∧ name ∈ readable ∨ name ∈ records

variable {readable records : List String}

theorem keepsTo_elsewhere {p : String} (h : storedName? p = none) (isTarget : Bool) :
    KeepsTo readable records ⟨p, isTarget⟩ := by
  intro name hname
  rw [name?, h] at hname
  cases hname

theorem keepsTo_read {name : String} (h : name ∈ readable) :
    KeepsTo readable records ⟨"card.ability.extra." ++ name, false⟩ := by
  intro other hother
  rw [name?, storedName?_extra, Option.mem_some_iff] at hother
  exact Or.inl ⟨rfl, hother ▸ h⟩

theorem keepsTo_record {name : String} (h : name ∈ records) (isTarget : Bool) :
    KeepsTo readable records ⟨"card.ability.extra." ++ name, isTarget⟩ := by
  intro other hother
  rw [name?, storedName?_extra, Option.mem_some_iff] at hother
  exact Or.inr (hother ▸ h)

theorem KeepsTo.mono {more others : List String} {u : PathUse} (h : u.KeepsTo readable records)
    (hmore : readable ⊆ more) (hothers : records ⊆ others) : u.KeepsTo more others := by
  intro name hname
  rcases h name hname with ⟨htarget, hmem⟩ | hmem
  · exact Or.inl ⟨htarget, hmore hmem⟩
  · exact Or.inr (hothers hmem)

end PathUse

/-! ### Code all of whose uses have a property -/

/-- Every use in the expression has the property. -/
def Expr.UsesAll (P : PathUse → Prop) (e : Expr) : Prop := ∀ u ∈ e.uses, P u

/-- Every use in the block has the property. -/
def BlockUsesAll (P : PathUse → Prop) (b : Block) : Prop := ∀ u ∈ blockUses b, P u

section UsesAll

variable {P : PathUse → Prop}

namespace Expr

@[simp] theorem usesAll_nil : Expr.nil.UsesAll P := nofun

@[simp] theorem usesAll_bool (b : Bool) : (Expr.bool b).UsesAll P := nofun

@[simp] theorem usesAll_number (n : Number) : (Expr.number n).UsesAll P := nofun

@[simp] theorem usesAll_str (s : String) : (Expr.str s).UsesAll P := nofun

@[simp] theorem usesAll_zero : Expr.zero.UsesAll P := nofun

@[simp] theorem usesAll_one : Expr.one.UsesAll P := nofun

@[simp] theorem usesAll_path (p : String) : (Expr.path p).UsesAll P ↔ P ⟨p, false⟩ := by
  change (∀ u ∈ [⟨p, false⟩], P u) ↔ _
  rw [List.forall_mem_singleton]

@[simp] theorem usesAll_extra (name : String) :
    (Expr.extra name).UsesAll P ↔ P ⟨"card.ability.extra." ++ name, false⟩ :=
  usesAll_path _

@[simp] theorem usesAll_unary (op : UnaryOp) (e : Expr) : (unary op e).UsesAll P ↔ e.UsesAll P :=
  Iff.rfl

@[simp] theorem usesAll_binary (op : BinaryOp) (l r : Expr) :
    (binary op l r).UsesAll P ↔ l.UsesAll P ∧ r.UsesAll P := by
  change (∀ u ∈ l.uses ++ r.uses, P u) ↔ _
  rw [List.forall_mem_append, UsesAll, UsesAll]

theorem forall_argUses (args : List Expr) :
    (∀ u ∈ argUses args, P u) ↔ ∀ e ∈ args, e.UsesAll P := by
  induction args with
  | nil => simp [argUses]
  | cons e args ih => rw [argUses, List.forall_mem_append, List.forall_mem_cons, ih, UsesAll]

@[simp] theorem usesAll_apply (callee : String) (args : List Expr) :
    (apply callee args).UsesAll P ↔ P ⟨callee, false⟩ ∧ ∀ e ∈ args, e.UsesAll P := by
  change (∀ u ∈ (path callee).uses ++ argUses args, P u) ↔ _
  rw [List.forall_mem_append, forall_argUses]
  exact and_congr_left' (usesAll_path callee)

@[simp] theorem usesAll_method (receiver : Expr) (name : String) (args : List Expr) :
    (method receiver name args).UsesAll P ↔ receiver.UsesAll P ∧ ∀ e ∈ args, e.UsesAll P := by
  change (∀ u ∈ receiver.uses ++ argUses args, P u) ↔ _
  rw [List.forall_mem_append, forall_argUses, UsesAll]

@[simp] theorem usesAll_record (fields : List (String × Expr)) :
    (record fields).UsesAll P ↔ ∀ field ∈ fields, field.2.UsesAll P := by
  induction fields with
  | nil => exact iff_of_true nofun nofun
  | cons field fields ih =>
      change (∀ u ∈ field.2.uses ++ (record fields).uses, P u) ↔ _
      rw [List.forall_mem_append, List.forall_mem_cons, ← ih, UsesAll, UsesAll]

@[simp] theorem usesAll_table_nil : (table []).UsesAll P := nofun

@[simp] theorem usesAll_thunk (body : Block) : (thunk body).UsesAll P ↔ BlockUsesAll P body :=
  Iff.rfl

@[simp] theorem usesAll_invoked (body : Block) :
    (invoked body).UsesAll P ↔ BlockUsesAll P body :=
  Iff.rfl

theorem usesAll_concat {es : List Expr} (hes : ∀ e ∈ es, e.UsesAll P) : (concat es).UsesAll P := by
  induction es with
  | nil => exact usesAll_str ""
  | cons first es ih =>
      rw [List.forall_mem_cons] at hes
      cases es with
      | nil => exact hes.1
      | cons second es => exact (usesAll_binary .concat first _).mpr ⟨hes.1, ih hes.2⟩

theorem usesAll_joined {op : BinaryOp} {unit : Expr} {es : List Expr} (hunit : unit.UsesAll P)
    (hes : ∀ e ∈ es, e.UsesAll P) : (joined op unit es).UsesAll P := by
  have hfold : ∀ (es : List Expr) (e : Expr), e.UsesAll P → (∀ e ∈ es, e.UsesAll P) →
      (es.foldl (binary op) e).UsesAll P := by
    intro es
    induction es with
    | nil => exact fun _ he _ => he
    | cons first es ih =>
        intro e he hes
        rw [List.forall_mem_cons] at hes
        exact ih (binary op e first) ((usesAll_binary op e first).mpr ⟨he, hes.1⟩) hes.2
  cases es with
  | nil => exact hunit
  | cons first es =>
      rw [List.forall_mem_cons] at hes
      exact hfold es first hes.1 hes.2

end Expr

@[simp] theorem blockUsesAll_nil : BlockUsesAll P [] := nofun

@[simp] theorem blockUsesAll_cons (stmt : Stmt) (rest : Block) :
    BlockUsesAll P (stmt :: rest) ↔ (∀ u ∈ stmt.uses, P u) ∧ BlockUsesAll P rest := by
  rw [BlockUsesAll, blockUses, List.forall_mem_append, BlockUsesAll]

@[simp] theorem blockUsesAll_append (first second : Block) :
    BlockUsesAll P (first ++ second) ↔ BlockUsesAll P first ∧ BlockUsesAll P second := by
  rw [BlockUsesAll, blockUses_append, List.forall_mem_append, BlockUsesAll, BlockUsesAll]

namespace Stmt

@[simp] theorem forall_uses_letLocal (name : String) (e : Expr) :
    (∀ u ∈ (letLocal name e).uses, P u) ↔ e.UsesAll P :=
  Iff.rfl

@[simp] theorem forall_uses_set (target : String) (e : Expr) :
    (∀ u ∈ (set target e).uses, P u) ↔ P ⟨target, true⟩ ∧ e.UsesAll P := by
  change (∀ u ∈ [⟨target, true⟩] ++ e.uses, P u) ↔ _
  rw [List.forall_mem_append, List.forall_mem_singleton, Expr.UsesAll]

@[simp] theorem forall_uses_assign_extra (name : String) (e : Expr) :
    (∀ u ∈ (assign (.extra name) e).uses, P u) ↔
      P ⟨"card.ability.extra." ++ name, true⟩ ∧ e.UsesAll P :=
  forall_uses_set _ e

@[simp] theorem forall_uses_run (e : Expr) : (∀ u ∈ (run e).uses, P u) ↔ e.UsesAll P :=
  Iff.rfl

@[simp] theorem forall_uses_call (callee : String) (args : List Expr) :
    (∀ u ∈ (call callee args).uses, P u) ↔ P ⟨callee, false⟩ ∧ ∀ e ∈ args, e.UsesAll P := by
  rw [call, forall_uses_run, Expr.usesAll_apply]

@[simp] theorem forall_uses_ifThen (condition : Expr) (body : Block) :
    (∀ u ∈ (ifThen condition body).uses, P u) ↔ condition.UsesAll P ∧ BlockUsesAll P body := by
  change (∀ u ∈ condition.uses ++ blockUses body ++ [] ++ [], P u) ↔ _
  rw [List.append_nil, List.append_nil, List.forall_mem_append, Expr.UsesAll, BlockUsesAll]

@[simp] theorem forall_uses_returning (e : Expr) :
    (∀ u ∈ (returning e).uses, P u) ↔ e.UsesAll P :=
  Iff.rfl

@[simp] theorem uses_leave : Stmt.leave.uses = [] := rfl

@[simp] theorem forall_uses_forItems (index value : String) (source : Expr) (body : Block) :
    (∀ u ∈ (forItems index value source body).uses, P u) ↔
      (P ⟨"ipairs", false⟩ ∧ source.UsesAll P) ∧ BlockUsesAll P body := by
  change (∀ u ∈ (Expr.apply "ipairs" [source]).uses ++ blockUses body, P u) ↔ _
  rw [List.forall_mem_append]
  refine and_congr ?_ Iff.rfl
  exact (Expr.usesAll_apply "ipairs" [source]).trans (by rw [List.forall_mem_singleton])

@[simp] theorem forall_uses_forEntries (key value : String) (source : Expr) (body : Block) :
    (∀ u ∈ (forEntries key value source body).uses, P u) ↔
      (P ⟨"pairs", false⟩ ∧ source.UsesAll P) ∧ BlockUsesAll P body := by
  change (∀ u ∈ (Expr.apply "pairs" [source]).uses ++ blockUses body, P u) ↔ _
  rw [List.forall_mem_append]
  refine and_congr ?_ Iff.rfl
  exact (Expr.usesAll_apply "pairs" [source]).trans (by rw [List.forall_mem_singleton])

end Stmt

end UsesAll

section KeepsTo

variable {readable more records others : List String}

theorem Expr.UsesAll.mono {e : Expr} (h : e.UsesAll (PathUse.KeepsTo readable records))
    (hmore : readable ⊆ more) (hothers : records ⊆ others) :
    e.UsesAll (PathUse.KeepsTo more others) :=
  fun u hu => (h u hu).mono hmore hothers

theorem BlockUsesAll.mono {b : Block} (h : BlockUsesAll (PathUse.KeepsTo readable records) b)
    (hmore : readable ⊆ more) (hothers : records ⊆ others) :
    BlockUsesAll (PathUse.KeepsTo more others) b :=
  fun u hu => (h u hu).mono hmore hothers

end KeepsTo

end Lua

end JokerScript
