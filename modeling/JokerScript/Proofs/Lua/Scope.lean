import JokerScript.Lua.Identifier
import JokerScript.Proofs.Lua.Run
import JokerScript.Proofs.Lua.Uses

/-!
# Scopes of Code

Lua reads a variable that does not exist as `nil`, without complaint. Code is **well scoped**
if this cannot happen by a slip: every path begins at a variable of the game, at a parameter,
or at a local variable that was declared before, in the same block or in one around it. At the
same time the code is syntax that Lua accepts: all names are identifiers, and a block goes on
neither after a `return` nor after a `break`.

## Main definitions

* `Lua.isDotted` — identifiers with dots between them.
* `Lua.InScope` — a path that begins at one of some variables.
* `Lua.Expr.IsScoped`, `Lua.BlockScoped` — well-scoped code, where some variables are visible.
* `Lua.LeadsOn` — statements that stand before the rest of a block.

## Main results

* `Lua.isDotted_append`, `Lua.isIdentifier_append` — names that are put together.
* `Lua.BlockScoped.mono` — more variables may be visible.
* `Lua.BlockScoped.isDotted_uses` — well-scoped code has dotted paths.
-/

namespace JokerScript

namespace Lua

/-! ### Dotted paths -/

/-- Is the text a sequence of identifiers with dots between them? -/
def isDotted (p : String) : Bool := isIdentifier (pathRoot p) && (pathFields p).all isIdentifier

theorem isNameChar_of_isDigit {c : Char} (h : c.isDigit = true) : isNameChar c = true := by
  simp [isNameChar, Char.isAlphanum, h]

theorem isNameChar_of_isNameStart {c : Char} (h : isNameStart c = true) :
    isNameChar c = true := by
  simp only [isNameStart, Bool.or_eq_true] at h
  simp only [isNameChar, Char.isAlphanum, Bool.or_eq_true]
  tauto

theorem isNameShape_append {cs ds : List Char} (hcs : isNameShape cs = true)
    (hds : ds.all isNameChar = true) : isNameShape (cs ++ ds) = true := by
  cases cs with
  | nil => cases hcs
  | cons c cs =>
      simp only [isNameShape, Bool.and_eq_true] at hcs
      simp only [List.cons_append, isNameShape, Bool.and_eq_true, List.all_append]
      exact ⟨hcs.1, hcs.2, hds⟩

theorem forall_isNameChar_of_isNameShape {cs : List Char} (h : isNameShape cs = true) :
    ∀ c ∈ cs, isNameChar c = true := by
  cases cs with
  | nil => cases h
  | cons c cs =>
      simp only [isNameShape, Bool.and_eq_true, List.all_eq_true] at h
      exact List.forall_mem_cons.mpr ⟨isNameChar_of_isNameStart h.1, h.2⟩

/-- A name stays an identifier when characters of names are added, if no reserved word begins
like it. -/
theorem isIdentifier_append {name more : String} (hname : isNameShape name.toList = true)
    (hmore : more.toList.all isNameChar = true)
    (hkeywords : ∀ k ∈ keywords, ¬name.toList <+: k.toList) :
    isIdentifier (name ++ more) = true := by
  rw [isIdentifier, Bool.and_eq_true, Bool.not_eq_true', String.toList_append]
  refine ⟨isNameShape_append hname hmore, ?_⟩
  rw [Bool.eq_false_iff]
  intro hmem
  refine hkeywords _ (List.contains_iff_mem.mp hmem) ?_
  rw [String.toList_append]
  exact List.prefix_append _ _

theorem dotFree_of_isIdentifier {name : String} (h : isIdentifier name = true) : DotFree name := by
  rw [isIdentifier, Bool.and_eq_true] at h
  intro hdot
  have hchar := forall_isNameChar_of_isNameShape h.1 '.' hdot
  exact absurd hchar (by decide)

theorem isDotted_of_isIdentifier {name : String} (h : isIdentifier name = true) :
    isDotted name = true := by
  have hdot := dotFree_of_isIdentifier h
  rw [isDotted, pathRoot_of_dotFree hdot, pathFields_of_dotFree hdot, h]
  rfl

/-- Two paths with a dot between them. -/
theorem isDotted_append (p q : String) :
    isDotted (p ++ "." ++ q) = (isDotted p && isDotted q) := by
  rw [isDotted, pathRoot_append, pathFields_append, List.all_append, List.all_cons,
    ← Bool.and_assoc]
  rfl

/-! ### Well-scoped code -/

/-- The dotted path begins at the variable. -/
def BeginsAt (name p : String) : Prop := isDotted p = true ∧ pathRoot p = name

instance (name p : String) : Decidable (BeginsAt name p) := inferInstanceAs (Decidable (_ ∧ _))

/-- The dotted path begins at a visible variable. -/
def InScope (names : List String) (p : String) : Prop := isDotted p = true ∧ pathRoot p ∈ names

instance (names : List String) (p : String) : Decidable (InScope names p) :=
  inferInstanceAs (Decidable (_ ∧ _))

theorem beginsAt_self {name : String} (h : isIdentifier name = true) : BeginsAt name name :=
  ⟨isDotted_of_isIdentifier h, pathRoot_of_dotFree (dotFree_of_isIdentifier h)⟩

@[simp] theorem inScope_cons {names : List String} {name p : String} :
    InScope (name :: names) p ↔ BeginsAt name p ∨ InScope names p := by
  rw [InScope, List.mem_cons, and_or_left, BeginsAt, InScope]

/-- All of the names are identifiers. -/
def AreIdentifiers (names : List String) : Prop := ∀ name ∈ names, isIdentifier name = true

instance (names : List String) : Decidable (AreIdentifiers names) :=
  inferInstanceAs (Decidable (∀ _ ∈ _, _))

/-- Is the expression one that Lua takes as a statement? -/
def Expr.isCall : Expr → Bool
  | .call .. | .method .. => true
  | _ => false

/-- Can a value be assigned to the expression? -/
def Expr.isPath : Expr → Bool
  | .path _ => true
  | _ => false

/-- Does the statement end its block? -/
def Stmt.isJump : Stmt → Bool
  | .ret _ | .leave => true
  | _ => false

/-- The local variables that the statement declares for the rest of its block. -/
def Stmt.declared : Stmt → List String
  | .declare name _ => [name]
  | _ => []

mutual

/-- The expression is well scoped where the variables are visible. -/
def Expr.IsScoped : Expr → List String → Prop
  | .nil, _ | .bool _, _ | .number _, _ | .str _, _ => True
  | .path p, names => InScope names p
  | .unary _ e, names => e.IsScoped names
  | .binary _ l r, names => l.IsScoped names ∧ r.IsScoped names
  | .call callee args, names => callee.IsScoped names ∧ ArgsScoped args names
  | .method receiver name args, names =>
    isIdentifier name = true ∧ receiver.IsScoped names ∧ ArgsScoped args names
  | .table fields, names => FieldsScoped fields names
  | .function params body, names =>
    AreIdentifiers params ∧ BlockScoped body (params ++ names) false
  | .invoked body, names => BlockScoped body names false

/-- The arguments are well scoped. -/
def ArgsScoped : List Expr → List String → Prop
  | [], _ => True
  | e :: rest, names => e.IsScoped names ∧ ArgsScoped rest names

/-- The fields of a table are well scoped. -/
def FieldsScoped : List Field → List String → Prop
  | [], _ => True
  | .named name e :: rest, names =>
    isIdentifier name = true ∧ e.IsScoped names ∧ FieldsScoped rest names
  | .positional e :: rest, names => e.IsScoped names ∧ FieldsScoped rest names

/-- The statement is well scoped. Only inside a loop there is something to leave. -/
def Stmt.IsScoped : Stmt → List String → Bool → Prop
  | .declare name none, _, _ => isIdentifier name = true
  | .declare name (some e), names, _ => isIdentifier name = true ∧ e.IsScoped names
  | .assign target e, names, _ => target.isPath = true ∧ target.IsScoped names ∧ e.IsScoped names
  | .run e, names, _ => e.isCall = true ∧ e.IsScoped names
  | .branch arms otherwise, names, inLoop =>
    arms ≠ [] ∧ ArmsScoped arms names inLoop ∧ ElseScoped otherwise names inLoop
  | .forIn vars iter body, names, _ =>
    AreIdentifiers vars ∧ iter.IsScoped names ∧ BlockScoped body (vars ++ names) true
  | .ret none, _, _ => True
  | .ret (some e), names, _ => e.IsScoped names
  | .leave, _, inLoop => inLoop = true
  | .define name params body, names, _ =>
    InScope names (functionPath name) ∧ AreIdentifiers params ∧
      BlockScoped body (methodParams name params ++ names) false

/-- The arms of a branch are well scoped. -/
def ArmsScoped : List Arm → List String → Bool → Prop
  | [], _, _ => True
  | .mk condition body :: rest, names, inLoop =>
    condition.IsScoped names ∧ BlockScoped body names inLoop ∧ ArmsScoped rest names inLoop

/-- The last alternative of a branch is well scoped. -/
def ElseScoped : Option (List Stmt) → List String → Bool → Prop
  | none, _, _ => True
  | some body, names, inLoop => BlockScoped body names inLoop

/-- The block is well scoped. A variable is visible from its declaration on, and nothing comes
after a jump. -/
def BlockScoped : List Stmt → List String → Bool → Prop
  | [], _, _ => True
  | stmt :: rest, names, inLoop =>
    stmt.IsScoped names inLoop ∧ (stmt.isJump = true → rest = []) ∧
      BlockScoped rest (stmt.declared ++ names) inLoop

end

/-! ### Constructs -/

section Constructs

variable {names : List String} {inLoop : Bool}

theorem argsScoped_iff {args : List Expr} :
    ArgsScoped args names ↔ ∀ e ∈ args, e.IsScoped names := by
  induction args with
  | nil => exact iff_of_true trivial nofun
  | cons e args ih => rw [ArgsScoped, List.forall_mem_cons, ih]

namespace Expr

@[simp] theorem isScoped_nil : Expr.nil.IsScoped names := trivial

@[simp] theorem isScoped_bool (b : Bool) : (Expr.bool b).IsScoped names := trivial

@[simp] theorem isScoped_number (n : Number) : (Expr.number n).IsScoped names := trivial

@[simp] theorem isScoped_str (s : String) : (Expr.str s).IsScoped names := trivial

@[simp] theorem isScoped_zero : Expr.zero.IsScoped names := trivial

@[simp] theorem isScoped_one : Expr.one.IsScoped names := trivial

@[simp] theorem isScoped_path (p : String) : (Expr.path p).IsScoped names ↔ InScope names p :=
  Iff.rfl

@[simp] theorem isScoped_extra (name : String) :
    (Expr.extra name).IsScoped names ↔ InScope names ("card.ability.extra." ++ name) :=
  Iff.rfl

@[simp] theorem isScoped_unary (op : UnaryOp) (e : Expr) :
    (unary op e).IsScoped names ↔ e.IsScoped names :=
  Iff.rfl

@[simp] theorem isScoped_binary (op : BinaryOp) (l r : Expr) :
    (binary op l r).IsScoped names ↔ l.IsScoped names ∧ r.IsScoped names :=
  Iff.rfl

@[simp] theorem isScoped_apply (callee : String) (args : List Expr) :
    (apply callee args).IsScoped names ↔ InScope names callee ∧ ∀ e ∈ args, e.IsScoped names :=
  and_congr Iff.rfl argsScoped_iff

@[simp] theorem isScoped_method (receiver : Expr) (name : String) (args : List Expr) :
    (method receiver name args).IsScoped names ↔
      isIdentifier name = true ∧ receiver.IsScoped names ∧ ∀ e ∈ args, e.IsScoped names :=
  and_congr Iff.rfl (and_congr Iff.rfl argsScoped_iff)

@[simp] theorem isScoped_record (fields : List (String × Expr)) :
    (record fields).IsScoped names ↔
      ∀ field ∈ fields, isIdentifier field.1 = true ∧ field.2.IsScoped names := by
  induction fields with
  | nil => exact iff_of_true trivial nofun
  | cons field fields ih =>
      rw [List.forall_mem_cons, ← ih, and_assoc]
      rfl

@[simp] theorem isCall_apply (callee : String) (args : List Expr) :
    (apply callee args).isCall = true := rfl

@[simp] theorem isCall_method (receiver : Expr) (name : String) (args : List Expr) :
    (method receiver name args).isCall = true := rfl

@[simp] theorem isScoped_table_nil : (table []).IsScoped names := trivial

@[simp] theorem isScoped_thunk (body : Block) :
    (thunk body).IsScoped names ↔ BlockScoped body names false :=
  and_iff_right nofun

@[simp] theorem isScoped_invoked (body : Block) :
    (invoked body).IsScoped names ↔ BlockScoped body names false :=
  Iff.rfl

theorem isScoped_concat {es : List Expr} (hes : ∀ e ∈ es, e.IsScoped names) :
    (concat es).IsScoped names := by
  induction es with
  | nil => exact isScoped_str ""
  | cons first es ih =>
      rw [List.forall_mem_cons] at hes
      cases es with
      | nil => exact hes.1
      | cons second es => exact ⟨hes.1, ih hes.2⟩

theorem isScoped_joined {op : BinaryOp} {unit : Expr} {es : List Expr}
    (hunit : unit.IsScoped names) (hes : ∀ e ∈ es, e.IsScoped names) :
    (joined op unit es).IsScoped names := by
  have hfold : ∀ (es : List Expr) (e : Expr), e.IsScoped names → (∀ e ∈ es, e.IsScoped names) →
      (es.foldl (binary op) e).IsScoped names := by
    intro es
    induction es with
    | nil => exact fun _ he _ => he
    | cons first es ih =>
        intro e he hes
        rw [List.forall_mem_cons] at hes
        exact ih (binary op e first) ⟨he, hes.1⟩ hes.2
  cases es with
  | nil => exact hunit
  | cons first es =>
      rw [List.forall_mem_cons] at hes
      exact hfold es first hes.1 hes.2

end Expr

section Blocks

variable (rest : Block)

@[simp] theorem blockScoped_nil : BlockScoped [] names inLoop := trivial

/-- A statement that is no jump, before the rest of its block. -/
theorem blockScoped_cons {stmt : Stmt} (h : stmt.isJump = false) :
    BlockScoped (stmt :: rest) names inLoop ↔
      stmt.IsScoped names inLoop ∧ BlockScoped rest (stmt.declared ++ names) inLoop :=
  and_congr Iff.rfl (and_iff_right fun hjump => absurd (h.symm.trans hjump) (by decide))

@[simp] theorem blockScoped_letLocal (name : String) (e : Expr) :
    BlockScoped (.letLocal name e :: rest) names inLoop ↔
      (isIdentifier name = true ∧ e.IsScoped names) ∧ BlockScoped rest (name :: names) inLoop :=
  blockScoped_cons rest rfl

@[simp] theorem blockScoped_set (target : String) (e : Expr) :
    BlockScoped (.set target e :: rest) names inLoop ↔
      (InScope names target ∧ e.IsScoped names) ∧ BlockScoped rest names inLoop :=
  (blockScoped_cons rest rfl).trans (and_congr (and_iff_right rfl) Iff.rfl)

@[simp] theorem blockScoped_assign_extra (name : String) (e : Expr) :
    BlockScoped (.assign (.extra name) e :: rest) names inLoop ↔
      (InScope names ("card.ability.extra." ++ name) ∧ e.IsScoped names) ∧
        BlockScoped rest names inLoop :=
  blockScoped_set rest _ e

@[simp] theorem blockScoped_run (e : Expr) :
    BlockScoped (.run e :: rest) names inLoop ↔
      (e.isCall = true ∧ e.IsScoped names) ∧ BlockScoped rest names inLoop :=
  blockScoped_cons rest rfl

@[simp] theorem blockScoped_call (callee : String) (args : List Expr) :
    BlockScoped (.call callee args :: rest) names inLoop ↔
      (Expr.apply callee args).IsScoped names ∧ BlockScoped rest names inLoop :=
  (blockScoped_run rest _).trans (and_congr (and_iff_right rfl) Iff.rfl)

@[simp] theorem blockScoped_ifThen (condition : Expr) (body : Block) :
    BlockScoped (.ifThen condition body :: rest) names inLoop ↔
      (condition.IsScoped names ∧ BlockScoped body names inLoop) ∧
        BlockScoped rest names inLoop := by
  refine (blockScoped_cons rest rfl).trans (and_congr ?_ Iff.rfl)
  change (_ ≠ [] ∧ (condition.IsScoped names ∧ BlockScoped body names inLoop ∧ True) ∧ True) ↔ _
  simp

@[simp] theorem blockScoped_forItems (index value : String) (source : Expr) (body : Block) :
    BlockScoped (.forItems index value source body :: rest) names inLoop ↔
      (AreIdentifiers [index, value] ∧ (InScope names "ipairs" ∧ source.IsScoped names) ∧
        BlockScoped body (index :: value :: names) true) ∧ BlockScoped rest names inLoop :=
  (blockScoped_cons rest rfl).trans (and_congr (and_congr Iff.rfl (and_congr
    (and_congr Iff.rfl (and_iff_left trivial)) Iff.rfl)) Iff.rfl)

@[simp] theorem blockScoped_forEntries (key value : String) (source : Expr) (body : Block) :
    BlockScoped (.forEntries key value source body :: rest) names inLoop ↔
      (AreIdentifiers [key, value] ∧ (InScope names "pairs" ∧ source.IsScoped names) ∧
        BlockScoped body (key :: value :: names) true) ∧ BlockScoped rest names inLoop :=
  (blockScoped_cons rest rfl).trans (and_congr (and_congr Iff.rfl (and_congr
    (and_congr Iff.rfl (and_iff_left trivial)) Iff.rfl)) Iff.rfl)

@[simp] theorem blockScoped_define (name : String) (params : List String) (body : Block) :
    BlockScoped (.define name params body :: rest) names inLoop ↔
      (InScope names (functionPath name) ∧ AreIdentifiers params ∧
        BlockScoped body (methodParams name params ++ names) false) ∧
        BlockScoped rest names inLoop :=
  blockScoped_cons rest rfl

@[simp] theorem blockScoped_leave : BlockScoped [.leave] names inLoop ↔ inLoop = true :=
  and_iff_left ⟨fun _ => rfl, trivial⟩

@[simp] theorem blockScoped_returning (e : Expr) :
    BlockScoped [.returning e] names inLoop ↔ e.IsScoped names :=
  and_iff_left ⟨fun _ => rfl, trivial⟩

@[simp] theorem blockScoped_ret_none : BlockScoped [.ret none] names inLoop :=
  ⟨trivial, fun _ => rfl, trivial⟩

end Blocks

/-- **The block leads on**: it is well scoped where `names` are visible, and `after` are visible
to what comes next in the same block. -/
def LeadsOn (block : Block) (names after : List String) : Prop :=
  ∀ rest inLoop, BlockScoped rest after inLoop → BlockScoped (block ++ rest) names inLoop

namespace LeadsOn

variable {first second : Block} {middle after : List String}

theorem isScoped (h : LeadsOn first names after) (inLoop : Bool) :
    BlockScoped first names inLoop := by
  have hnil := h [] inLoop blockScoped_nil
  rwa [List.append_nil] at hnil

theorem nil (names : List String) : LeadsOn [] names names := fun _ _ h => h

theorem append (hfirst : LeadsOn first names middle) (hsecond : LeadsOn second middle after) :
    LeadsOn (first ++ second) names after := fun rest inLoop hrest => by
  rw [List.append_assoc]
  exact hfirst _ inLoop (hsecond rest inLoop hrest)

end LeadsOn

end Constructs

/-! ### More variables -/

theorem InScope.mono {names more : List String} {p : String} (hp : InScope names p)
    (h : names ⊆ more) : InScope more p :=
  hp.imp_right fun hroot => h hroot

theorem append_subset_append {as bs : List String} (cs : List String) (h : as ⊆ bs) :
    cs ++ as ⊆ cs ++ bs :=
  List.append_subset_of_subset_of_subset (List.subset_append_left _ _)
    (List.Subset.trans h (List.subset_append_right _ _))

mutual

/-- **More variables may be visible.** The induction is on the tree. -/
theorem Expr.IsScoped.mono {names more : List String} (h : names ⊆ more) :
    {e : Expr} → e.IsScoped names → e.IsScoped more
  | .nil, _ | .bool _, _ | .number _, _ | .str _, _ => trivial
  | .path _, hp => InScope.mono hp h
  | .unary _ e, he => Expr.IsScoped.mono h (e := e) he
  | .binary .., ⟨hl, hr⟩ => ⟨hl.mono h, hr.mono h⟩
  | .call .., ⟨hcallee, hargs⟩ => ⟨hcallee.mono h, hargs.mono h⟩
  | .method .., ⟨hname, hreceiver, hargs⟩ => ⟨hname, hreceiver.mono h, hargs.mono h⟩
  | .table fields, hfields => @FieldsScoped.mono names more h fields hfields
  | .function params _, ⟨hparams, hbody⟩ => ⟨hparams, hbody.mono (append_subset_append params h)⟩
  | .invoked body, hbody => @BlockScoped.mono names more false h body hbody

theorem ArgsScoped.mono {names more : List String} (h : names ⊆ more) :
    {args : List Expr} → ArgsScoped args names → ArgsScoped args more
  | [], _ => trivial
  | _ :: _, ⟨he, hrest⟩ => ⟨he.mono h, hrest.mono h⟩

theorem FieldsScoped.mono {names more : List String} (h : names ⊆ more) :
    {fields : List Field} → FieldsScoped fields names → FieldsScoped fields more
  | [], _ => trivial
  | .named .. :: _, ⟨hname, he, hrest⟩ => ⟨hname, he.mono h, hrest.mono h⟩
  | .positional _ :: _, ⟨he, hrest⟩ => ⟨he.mono h, hrest.mono h⟩

theorem Stmt.IsScoped.mono {names more : List String} {inLoop : Bool} (h : names ⊆ more) :
    {stmt : Stmt} → stmt.IsScoped names inLoop → stmt.IsScoped more inLoop
  | .declare _ none, hname => hname
  | .declare _ (some _), ⟨hname, he⟩ => ⟨hname, he.mono h⟩
  | .assign .., ⟨hpath, htarget, he⟩ => ⟨hpath, htarget.mono h, he.mono h⟩
  | .run _, ⟨hcall, he⟩ => ⟨hcall, he.mono h⟩
  | .branch .., ⟨hne, harms, helse⟩ => ⟨hne, harms.mono h, helse.mono h⟩
  | .forIn vars .., ⟨hvars, hiter, hbody⟩ =>
    ⟨hvars, hiter.mono h, hbody.mono (append_subset_append vars h)⟩
  | .ret none, _ => trivial
  | .ret (some e), he => Expr.IsScoped.mono h (e := e) he
  | .leave, hloop => hloop
  | .define name params _, ⟨hname, hparams, hbody⟩ =>
    ⟨hname.mono h, hparams, hbody.mono (append_subset_append (methodParams name params) h)⟩

theorem ArmsScoped.mono {names more : List String} {inLoop : Bool} (h : names ⊆ more) :
    {arms : List Arm} → ArmsScoped arms names inLoop → ArmsScoped arms more inLoop
  | [], _ => trivial
  | .mk .. :: _, ⟨hcondition, hbody, hrest⟩ => ⟨hcondition.mono h, hbody.mono h, hrest.mono h⟩

theorem ElseScoped.mono {names more : List String} {inLoop : Bool} (h : names ⊆ more) :
    {otherwise : Option (List Stmt)} → ElseScoped otherwise names inLoop →
      ElseScoped otherwise more inLoop
  | none, _ => trivial
  | some body, hbody => @BlockScoped.mono names more inLoop h body hbody

theorem BlockScoped.mono {names more : List String} {inLoop : Bool} (h : names ⊆ more) :
    {body : List Stmt} → BlockScoped body names inLoop → BlockScoped body more inLoop
  | [], _ => trivial
  | stmt :: _, ⟨hstmt, hjump, hrest⟩ =>
    ⟨hstmt.mono h, hjump, hrest.mono (append_subset_append stmt.declared h)⟩

end

/-! ### Paths of well-scoped code -/

mutual

/-- **The paths of well-scoped code are dotted.** -/
theorem Expr.IsScoped.isDotted_uses {names : List String} :
    {e : Expr} → e.IsScoped names → ∀ u ∈ e.uses, isDotted u.path = true
  | .nil, _ | .bool _, _ | .number _, _ | .str _, _ => nofun
  | .path _, hp => List.forall_mem_singleton.mpr hp.1
  | .unary _ e, he => Expr.IsScoped.isDotted_uses (e := e) he
  | .binary .., ⟨hl, hr⟩ => List.forall_mem_append.mpr ⟨hl.isDotted_uses, hr.isDotted_uses⟩
  | .call .., ⟨hcallee, hargs⟩ =>
    List.forall_mem_append.mpr ⟨hcallee.isDotted_uses, hargs.isDotted_uses⟩
  | .method .., ⟨_, hreceiver, hargs⟩ =>
    List.forall_mem_append.mpr ⟨hreceiver.isDotted_uses, hargs.isDotted_uses⟩
  | .table fields, hfields => @FieldsScoped.isDotted_uses names fields hfields
  | .function .., ⟨_, hbody⟩ => hbody.isDotted_uses
  | .invoked body, hbody => @BlockScoped.isDotted_uses names false body hbody

theorem ArgsScoped.isDotted_uses {names : List String} :
    {args : List Expr} → ArgsScoped args names → ∀ u ∈ argUses args, isDotted u.path = true
  | [], _ => nofun
  | _ :: _, ⟨he, hrest⟩ => List.forall_mem_append.mpr ⟨he.isDotted_uses, hrest.isDotted_uses⟩

theorem FieldsScoped.isDotted_uses {names : List String} :
    {fields : List Field} → FieldsScoped fields names →
      ∀ u ∈ fieldUses fields, isDotted u.path = true
  | [], _ => nofun
  | .named .. :: _, ⟨_, he, hrest⟩ =>
    List.forall_mem_append.mpr ⟨he.isDotted_uses, hrest.isDotted_uses⟩
  | .positional _ :: _, ⟨he, hrest⟩ =>
    List.forall_mem_append.mpr ⟨he.isDotted_uses, hrest.isDotted_uses⟩

theorem Stmt.IsScoped.isDotted_uses {names : List String} {inLoop : Bool} :
    {stmt : Stmt} → stmt.IsScoped names inLoop → ∀ u ∈ stmt.uses, isDotted u.path = true
  | .declare _ none, _ => nofun
  | .declare _ (some _), ⟨_, he⟩ => he.isDotted_uses
  | .assign (.path _) _, ⟨_, hp, he⟩ =>
    List.forall_mem_append.mpr ⟨List.forall_mem_singleton.mpr hp.1, he.isDotted_uses⟩
  | .run _, ⟨_, he⟩ => he.isDotted_uses
  | .branch .., ⟨_, harms, helse⟩ =>
    List.forall_mem_append.mpr ⟨harms.isDotted_uses, helse.isDotted_uses⟩
  | .forIn .., ⟨_, hiter, hbody⟩ =>
    List.forall_mem_append.mpr ⟨hiter.isDotted_uses, hbody.isDotted_uses⟩
  | .ret none, _ => nofun
  | .ret (some e), he => Expr.IsScoped.isDotted_uses (e := e) he
  | .leave, _ => nofun
  | .define .., ⟨_, _, hbody⟩ => hbody.isDotted_uses

theorem ArmsScoped.isDotted_uses {names : List String} {inLoop : Bool} :
    {arms : List Arm} → ArmsScoped arms names inLoop → ∀ u ∈ armUses arms, isDotted u.path = true
  | [], _ => nofun
  | .mk .. :: _, ⟨hcondition, hbody, hrest⟩ =>
    List.forall_mem_append.mpr
      ⟨List.forall_mem_append.mpr ⟨hcondition.isDotted_uses, hbody.isDotted_uses⟩,
        hrest.isDotted_uses⟩

theorem ElseScoped.isDotted_uses {names : List String} {inLoop : Bool} :
    {otherwise : Option (List Stmt)} → ElseScoped otherwise names inLoop →
      ∀ u ∈ elseUses otherwise, isDotted u.path = true
  | none, _ => nofun
  | some body, hbody => @BlockScoped.isDotted_uses names inLoop body hbody

theorem BlockScoped.isDotted_uses {names : List String} {inLoop : Bool} :
    {body : List Stmt} → BlockScoped body names inLoop →
      ∀ u ∈ blockUses body, isDotted u.path = true
  | [], _ => nofun
  | _ :: _, ⟨hstmt, _, hrest⟩ =>
    List.forall_mem_append.mpr ⟨hstmt.isDotted_uses, hrest.isDotted_uses⟩

end

end Lua

end JokerScript
