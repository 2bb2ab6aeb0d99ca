import JokerScript.Proofs.Lua.Renamed
import JokerScript.Proofs.Triggered.Game

/-!
# Runs with Renamed Tables

Two runs of the same code begin in states that are the same up to a renaming of tables. If the
functions of the game that the code calls do not look at addresses, then the runs **agree**: both
go wrong, or both come to an end, and the last states are again the same up to the renaming. Here
stands one law for each way of building code. A piece of code is **alike** if its runs agree
from all states that are poised for the code of a trigger.

## Main definitions

* `Poised` — a state in which the code of a trigger may run.
* `Agree` — two runs go wrong, or end in the same way.
* `Host.CallsAlike`, `Host.MethodsAlike` — the game does not look at addresses.
* `Lua.Expr.Alike`, `Lua.Stmt.Alike`, `BlockAlike` — code that does not.

## Main results

* `alike_apply`, `alike_set`, `alike_ifThen`, `BlockAlike.cons` — the code of a trigger is built
  of code that is alike.
-/

namespace JokerScript

open Lua

variable {R : Type} {host : Host (Memory R)} {σ : ℕ → ℕ} {s t u : State (Memory R)} {v : Value}

/-! ### States -/

/-- What the code takes from the global variables, when it is to run in two shapes. -/
def shapeGlobals : List String := triggerGlobals ++ ["Event", "localize"]

/-- The variables that the code never makes or sets. -/
def shapeRoots : List String := "context" :: shapeGlobals

/-- A state that is **poised** for the code of a trigger: no new table is mentioned in it, no
local variable hides what the code takes from the global ones, and there are a context and the
colours. -/
structure Poised (s : State (Memory R)) : Prop where
  contained : s.Contained
  visible : ∀ name ∈ shapeGlobals, s.locals.lookup name = none
  context : ∃ a, s.read "context" = some (.table a)
  colours : ∃ a, s.read "G.C" = some (.table a)

namespace Poised

variable {name : String} (hs : Poised s)

include hs

theorem push (hname : name ∉ shapeRoots) (hv : v.Within s.fresh) : Poised (s.push name v) := by
  have hread : ∀ {p : String}, pathRoot p ∈ shapeRoots → (s.push name v).read p = s.read p :=
    fun hp => State.read_push s v fun heq => hname (heq ▸ hp)
  refine ⟨hs.contained.push name hv, fun x hx => ?_, ?_, ?_⟩
  · have hne : x ≠ name := fun heq => hname (heq ▸ List.mem_cons_of_mem _ hx)
    rw [State.lookup_push_of_ne s v hne, hs.visible x hx]
  · rw [hread (by decide)]
    exact hs.context
  · rw [hread (by decide)]
    exact hs.colours

theorem setField (a : ℕ) (hname : name ≠ "C") (hv : v.Within s.fresh) :
    Poised (s.setField a name v) := by
  refine ⟨hs.contained.setField a name hv, hs.visible, ?_, ?_⟩
  · have hfields : pathFields "context" = [] := by decide
    rw [State.read_setField s a v (by rw [hfields]; exact List.not_mem_nil)]
    exact hs.context
  · have hfields : pathFields "G.C" = ["C"] := by decide
    rw [State.read_setField s a v (by rw [hfields]; exact fun h => hname (List.mem_singleton.mp h))]
    exact hs.colours

theorem setRoot (hname : name ∉ shapeRoots) (hv : v.Within s.fresh) :
    Poised (s.setRoot name v) := by
  have hread : ∀ {p : String}, pathRoot p ∈ shapeRoots →
      (s.setRoot name v).read p = s.read p := by
    intro p hp
    have hne : pathRoot p ≠ name := fun heq => hname (heq ▸ hp)
    exact State.read_setRoot_of_ne s hne v
  refine ⟨hs.contained.setRoot name hv, fun x hx => ?_, ?_, ?_⟩
  · have hne : x ≠ name := fun heq => hname (heq ▸ List.mem_cons_of_mem _ hx)
    rw [State.lookup_setRoot_of_ne s hne, hs.visible x hx]
  · rw [hread (by decide)]
    exact hs.context
  · rw [hread (by decide)]
    exact hs.colours

/-- A state is poised if nothing but new tables came up. -/
theorem grows (hgrows : s.Grows t) (ht : t.Contained) : Poised t := by
  refine ⟨ht, fun name hname => ?_, ?_, ?_⟩
  · rw [hgrows.locals, hs.visible name hname]
  · rw [hs.contained.sound.read_of_grows hgrows]
    exact hs.context
  · rw [hs.contained.sound.read_of_grows hgrows]
    exact hs.colours

end Poised

/-! ### Agreement -/

/-- The runs **agree**: both go wrong, or both come to an end. Then their results and the state
after the first run are as `P` says, and the second state is the first one with renamed
tables. -/
inductive Agree {α : Type} (σ : ℕ → ℕ) (P : α → α → State (Memory R) → Prop) :
    Option (α × State (Memory R)) → Option (α × State (Memory R)) → Prop
  | wrong : Agree σ P none none
  | done {a b : α} {u v : State (Memory R)} (h : P a b u) (hstates : u.Renames σ v) :
      Agree σ P (some (a, u)) (some (b, v))

namespace Agree

variable {α β : Type} {P : α → α → State (Memory R) → Prop}
  {Q : β → β → State (Memory R) → Prop} {o o' : Option (α × State (Memory R))}

/-- One after the other. -/
theorem bind {k k' : α × State (Memory R) → Option (β × State (Memory R))}
    (h : Agree σ P o o')
    (hk : ∀ {a b u v}, P a b u → u.Renames σ v → Agree σ Q (k (a, u)) (k' (b, v))) :
    Agree σ Q (o.bind k) (o'.bind k') := by
  cases h with
  | wrong => exact .wrong
  | done h hstates => exact hk h hstates

theorem mono {P' : α → α → State (Memory R) → Prop} (h : Agree σ P o o')
    (hP : ∀ {a b u}, P a b u → P' a b u) : Agree σ P' o o' := by
  cases h with
  | wrong => exact .wrong
  | done h hstates => exact .done (hP h) hstates

end Agree

/-! ### Expressions -/

/-- An evaluation **stays** poised: it leaves the local variables as they are, and its last state
is poised again. -/
structure Stays (s u : State (Memory R)) : Prop where
  poised : Poised u
  fresh : s.fresh ≤ u.fresh
  locals : u.locals = s.locals

theorem Stays.trans (h : Stays s t) (h' : Stays t u) : Stays s u :=
  ⟨h'.poised, h.fresh.trans h'.fresh, h'.locals.trans h.locals⟩

theorem Poised.stays (hs : Poised s) : Stays s s := ⟨hs, le_rfl, rfl⟩

/-- The evaluations **yield** the same value, up to the renaming. -/
structure Yields (σ : ℕ → ℕ) (s : State (Memory R)) (v w : Value) (u : State (Memory R)) : Prop
    extends Stays s u where
  value : w = v.rename σ
  within : v.Within u.fresh

/-- The same for a list of values. -/
structure YieldsAll (σ : ℕ → ℕ) (s : State (Memory R)) (vs ws : List Value)
    (u : State (Memory R)) : Prop extends Stays s u where
  values : ws = vs.map (Value.rename σ)
  within : ∀ v ∈ vs, v.Within u.fresh

/-- The same for the fields of a table. -/
structure YieldsTable (σ : ℕ → ℕ) (s : State (Memory R)) (table table' : Table)
    (u : State (Memory R)) : Prop extends Stays s u where
  values : table.Renames σ table'
  within : table.Within u.fresh

/-- The function of the game does not look at addresses, and leaves a state poised. -/
def Lua.Host.CallsAlike (host : Host (Memory R)) (name : String) : Prop :=
  ∀ ⦃σ : ℕ → ℕ⦄ ⦃s t : State (Memory R)⦄ ⦃args : List Value⦄, s.Renames σ t → Poised s →
    (∀ v ∈ args, v.Within s.fresh) →
    Agree σ (Yields σ s) (host.call name args s) (host.call name (args.map (Value.rename σ)) t)

/-- The method of the game does not look at addresses, and leaves a state poised. -/
def Lua.Host.MethodsAlike (host : Host (Memory R)) (name : String) : Prop :=
  ∀ ⦃σ : ℕ → ℕ⦄ ⦃s t : State (Memory R)⦄ ⦃receiver : Value⦄ ⦃args : List Value⦄,
    s.Renames σ t → Poised s → receiver.Within s.fresh → (∀ v ∈ args, v.Within s.fresh) →
    Agree σ (Yields σ s) (host.method receiver name args s)
      (host.method (receiver.rename σ) name (args.map (Value.rename σ)) t)

/-- The evaluations of the expression agree. -/
def Lua.Expr.Alike (host : Host (Memory R)) (e : Expr) : Prop :=
  ∀ ⦃σ : ℕ → ℕ⦄ ⦃s t : State (Memory R)⦄, s.Renames σ t → Poised s →
    Agree σ (Yields σ s) (e.eval host s) (e.eval host t)

theorem alike_path (p : String) : (Expr.path p).Alike host := by
  intro σ s t h hs
  rw [Expr.eval, Expr.eval, h.read hs.contained]
  cases hread : s.read p with
  | none => exact .wrong
  | some v => exact .done ⟨hs.stays, rfl, hs.contained.read hread⟩ h

/-- A literal has no tables in it. -/
theorem alike_literal {e : Expr} (he : ∀ s, e.eval host s = some (v, s))
    (hv : ∀ σ, v.rename σ = v) : e.Alike host := by
  intro σ s t h hs
  rw [he, he]
  exact .done ⟨hs.stays, (hv σ).symm, fun σ _ => hv σ⟩ h

theorem alike_number (n : Number) : (Expr.number n).Alike host :=
  alike_literal (fun _ => rfl) fun _ => rfl

theorem alike_str (text : String) : (Expr.str text).Alike host :=
  alike_literal (fun _ => rfl) fun _ => rfl

theorem alike_bool (b : Bool) : (Expr.bool b).Alike host :=
  alike_literal (fun _ => rfl) fun _ => rfl

/-- A length, a number or a truth value is the same in both runs. -/
theorem apply_unary_rename (op : UnaryOp) (h : s.Renames σ t) (hv : v.Within s.fresh) :
    op.apply t (v.rename σ) = op.apply s v ∧
      ∀ r, op.apply s v = some r → ∀ σ, r.rename σ = r := by
  cases op with
  | not =>
      refine ⟨by simp only [UnaryOp.apply, Value.truthy_rename], fun r hr σ => ?_⟩
      obtain rfl := Option.some.inj hr
      rfl
  | neg =>
      cases v with
      | number n =>
          refine ⟨rfl, fun r hr σ => ?_⟩
          obtain rfl := Option.some.inj hr
          rfl
      | _ => exact ⟨rfl, nofun⟩
  | len =>
      cases v with
      | table a =>
          have hitems := (h.tables a (Value.within_table.mp hv)).items
          refine ⟨?_, fun r hr σ => ?_⟩
          · rw [Value.rename, UnaryOp.apply, UnaryOp.apply, hitems, List.length_map]
          · obtain rfl := Option.some.inj hr
            rfl
      | str text =>
          refine ⟨rfl, fun r hr σ => ?_⟩
          obtain rfl := Option.some.inj hr
          rfl
      | _ => exact ⟨rfl, nofun⟩

theorem alike_unary (op : UnaryOp) {e : Expr} (he : e.Alike host) :
    (Expr.unary op e).Alike host := by
  intro σ s t h hs
  have heval : ∀ s : State (Memory R), (Expr.unary op e).eval host s =
      (e.eval host s).bind fun o => (op.apply o.2 o.1).bind fun r => some (r, o.2) := fun _ => rfl
  rw [heval, heval]
  refine (he h hs).bind fun {v w u u'} hvalue hstates => ?_
  obtain ⟨hsame, hplain⟩ := apply_unary_rename op hstates hvalue.within
  rw [hvalue.value, hsame]
  cases hr : op.apply u v with
  | none => exact .wrong
  | some r =>
      have hrename := hplain r hr
      exact .done ⟨hvalue.toStays, (hrename σ).symm, fun σ _ => hrename σ⟩ hstates

/-- So is the result of an operator on two values. -/
theorem apply_binary_rename (op : BinaryOp) (hσ : σ.Injective) (v w : Value) :
    op.apply (v.rename σ) (w.rename σ) = op.apply v w := by
  have hsame := Value.same_rename hσ v w
  cases op with
  | eq | ne => simp only [BinaryOp.apply, hsame]
  | _ => cases v <;> cases w <;> rfl

theorem rename_apply_binary {op : BinaryOp} {v w r : Value} (h : op.apply v w = some r)
    (σ : ℕ → ℕ) : r.rename σ = r := by
  have hnumbers : ∀ f ∈ op.onNumbers?, ∀ a b, (f a b).rename σ = f a b := by
    cases op <;> simp [BinaryOp.onNumbers?, Value.rename]
  rw [BinaryOp.apply.eq_def] at h
  split at h
  · obtain rfl := Option.some.inj h
    rfl
  · obtain rfl := Option.some.inj h
    rfl
  · obtain rfl := Option.some.inj h
    rfl
  · obtain ⟨f, hf, rfl⟩ := Option.map_eq_some_iff.mp h
    exact hnumbers f hf _ _
  · cases h

theorem alike_binary {op : BinaryOp} (hop : op ≠ .and ∧ op ≠ .or) {l r : Expr}
    (hl : l.Alike host) (hr : r.Alike host) : (Expr.binary op l r).Alike host := by
  intro σ s t h hs
  rw [eval_binary_eq hop, eval_binary_eq hop]
  refine (hl h hs).bind fun {a a' u u'} ha hu => ?_
  refine (hr hu ha.poised).bind fun {b b' x x'} hb hx => ?_
  rw [ha.value, hb.value, apply_binary_rename op hx.injective]
  cases hv : op.apply a b with
  | none => exact .wrong
  | some v =>
      have hrename := rename_apply_binary hv
      exact .done ⟨ha.toStays.trans hb.toStays, (hrename σ).symm, fun σ _ => hrename σ⟩ hx

/-- Arguments from left to right. -/
theorem agree_evalArgs {es : List Expr} (hes : ∀ e ∈ es, e.Alike host) (h : s.Renames σ t)
    (hs : Poised s) : Agree σ (YieldsAll σ s) (evalArgs host es s) (evalArgs host es t) := by
  induction es generalizing s t with
  | nil => exact .done ⟨hs.stays, rfl, nofun⟩ h
  | cons e es ih =>
      rw [List.forall_mem_cons] at hes
      have heval : ∀ s : State (Memory R), evalArgs host (e :: es) s =
          (e.eval host s).bind fun o =>
            (evalArgs host es o.2).bind fun os => some (o.1 :: os.1, os.2) := fun _ => rfl
      rw [heval, heval]
      refine (hes.1 h hs).bind fun {v w u u'} hv hu => ?_
      refine (ih hes.2 hu hv.poised).bind fun {vs ws x x'} hvs hx => ?_
      refine .done ⟨hv.toStays.trans hvs.toStays, ?_, ?_⟩ hx
      · rw [hv.value, hvs.values, List.map_cons]
      · exact List.forall_mem_cons.mpr ⟨hv.within.mono hvs.fresh, hvs.within⟩

/-- **A call** of the game by a name that no local variable hides. -/
theorem alike_apply {name : String} {args : List Expr} (hroot : pathRoot name ∈ shapeGlobals)
    (hlibrary : ∀ (args : List Value) (s : State (Memory R)), library? name args s = none)
    (hcall : host.CallsAlike name) (hargs : ∀ e ∈ args, e.Alike host) :
    (Expr.apply name args).Alike host := by
  intro σ s t h hs
  have heval : ∀ s : State (Memory R), s.locals.lookup (pathRoot name) = none →
      (Expr.apply name args).eval host s =
        (evalArgs host args s).bind fun os => host.call name os.1 os.2 := by
    intro s hvisible
    rw [eval_apply_eq args hvisible]
    exact congrArg _ (funext fun os => by rw [Host.apply, hlibrary, Option.getD_none])
  have hvisible := hs.visible _ hroot
  have hvisible' : t.locals.lookup (pathRoot name) = none := by rw [h.lookup, hvisible]; rfl
  rw [heval s hvisible, heval t hvisible']
  refine (agree_evalArgs hargs h hs).bind fun {vs ws u u'} hvs hu => ?_
  rw [hvs.values]
  exact (hcall hu hvs.poised hvs.within).mono fun hv =>
    ⟨hvs.toStays.trans hv.toStays, hv.value, hv.within⟩

/-- **A call of a method.** -/
theorem alike_method {receiver : Expr} {name : String} {args : List Expr}
    (hmethod : host.MethodsAlike name) (hreceiver : receiver.Alike host)
    (hargs : ∀ e ∈ args, e.Alike host) : (Expr.method receiver name args).Alike host := by
  intro σ s t h hs
  have heval : ∀ s : State (Memory R), (Expr.method receiver name args).eval host s =
      (receiver.eval host s).bind fun o =>
        (evalArgs host args o.2).bind fun os => host.method o.1 name os.1 os.2 := fun _ => rfl
  rw [heval, heval]
  refine (hreceiver h hs).bind fun {v w u u'} hv hu => ?_
  refine (agree_evalArgs hargs hu hv.poised).bind fun {vs ws x x'} hvs hx => ?_
  rw [hv.value, hvs.values]
  exact (hmethod hx hvs.poised (hv.within.mono hvs.fresh) hvs.within).mono fun hy =>
    ⟨(hv.toStays.trans hvs.toStays).trans hy.toStays, hy.value, hy.within⟩

/-- A function captures the local variables. -/
theorem alike_thunk (body : Block) : (Expr.thunk body).Alike host := by
  intro σ s t h hs
  have heval : ∀ s : State (Memory R), (Expr.thunk body).eval host s =
      some (.closure [] body s.locals, s) := fun _ => rfl
  rw [heval, heval]
  refine .done ⟨hs.stays, ?_, Value.within_closure hs.contained.locals⟩ h
  rw [Value.rename, h.locals]

/-- A new table. -/
theorem alike_record {fields : List (String × Expr)} (hfields : ∀ f ∈ fields, f.2.Alike host) :
    (Expr.record fields).Alike host := by
  have hall : ∀ {σ : ℕ → ℕ} {s t : State (Memory R)}, s.Renames σ t → Poised s →
      Agree σ (YieldsTable σ s) (evalFields host (fields.map fun f => .named f.1 f.2) s)
        (evalFields host (fields.map fun f => .named f.1 f.2) t) := by
    induction fields with
    | nil =>
        intro σ s t h hs
        exact .done ⟨hs.stays, ⟨fun _ => rfl, rfl⟩, fun _ _ _ => rfl, nofun⟩ h
    | cons f fields ih =>
        intro σ s t h hs
        rw [List.forall_mem_cons] at hfields
        have heval : ∀ s : State (Memory R),
            evalFields host ((f :: fields).map fun f => .named f.1 f.2) s =
              (f.2.eval host s).bind fun o =>
                (evalFields host (fields.map fun f => .named f.1 f.2) o.2).bind fun os =>
                  some ({ os.1 with field := Function.update os.1.field f.1 o.1 }, os.2) :=
          fun _ => rfl
        rw [heval, heval]
        refine (hfields.1 h hs).bind fun {v w u u'} hv hu => ?_
        refine (ih hfields.2 hu hv.poised).bind fun {table table' x x'} htable hx => ?_
        rw [hv.value]
        exact .done ⟨hv.toStays.trans htable.toStays, htable.values.setField f.1 v,
          htable.within.setField f.1 (hv.within.mono htable.fresh)⟩ hx
  intro σ s t h hs
  have heval : ∀ s : State (Memory R), (Expr.record fields).eval host s =
      (evalFields host (fields.map fun f => .named f.1 f.2) s).bind fun o =>
        some (o.2.alloc o.1) := fun _ => rfl
  rw [heval, heval]
  refine (hall h hs).bind fun {table table' u u'} htable hu => ?_
  obtain ⟨hvalue, hstates⟩ := hu.alloc htable.values
  obtain ⟨hwithin, hcontained⟩ := htable.poised.contained.alloc htable.within
  have hgrows := u.grows_alloc table
  exact .done ⟨⟨htable.poised.grows hgrows hcontained, htable.fresh.trans hgrows.fresh,
    hgrows.locals.trans htable.locals⟩, hvalue, hwithin⟩ hstates

/-! ### Statements -/

/-- The runs come to their ends, and there are `n` local variables more. -/
structure Finishes (n : ℕ) (s : State (Memory R)) (flow flow' : Flow) (u : State (Memory R)) :
    Prop where
  flow : flow = .next
  flow' : flow' = .next
  poised : Poised u
  fresh : s.fresh ≤ u.fresh
  length : u.locals.length = s.locals.length + n

theorem Finishes.trans {m n : ℕ} {flow₁ flow₁' flow₂ flow₂' : Flow} {x : State (Memory R)}
    (h : Finishes m s flow₁ flow₁' u) (h' : Finishes n u flow₂ flow₂' x) :
    Finishes (m + n) s flow₂ flow₂' x :=
  ⟨h'.flow, h'.flow', h'.poised, h.fresh.trans h'.fresh,
    by rw [h'.length, h.length, Nat.add_assoc]⟩

namespace Agree

variable {o o' : Option (Flow × State (Memory R))}

/-- One block after the other. -/
theorem andThen {n : ℕ} {P : Flow → Flow → State (Memory R) → Prop}
    {rest rest' : State (Memory R) → Option (Flow × State (Memory R))}
    (h : Agree σ (Finishes n s) o o')
    (hrest : ∀ {flow flow' u v}, Finishes n s flow flow' u → u.Renames σ v →
      Agree σ P (rest u) (rest' v)) :
    Agree σ P (Lua.andThen o rest) (Lua.andThen o' rest') := by
  cases h with
  | wrong => exact .wrong
  | done hends hstates =>
      obtain ⟨rfl, rfl⟩ := And.intro hends.flow hends.flow'
      exact hrest hends hstates

/-- Both blocks end with as many local variables as they began with, so that nothing is closed. -/
theorem closeBlock (h : Agree σ (Finishes 0 s) o o') (hst : s.Renames σ t) :
    Agree σ (Finishes 0 s) (Lua.closeBlock s.locals.length o)
      (Lua.closeBlock t.locals.length o') := by
  cases h with
  | wrong => exact .wrong
  | @done flow flow' u u' hends hstates =>
      have hlength : s.locals.length = u.locals.length := hends.length.symm
      have hlength' : t.locals.length = u'.locals.length := by
        rw [hst.locals, hstates.locals, length_renameLocals, length_renameLocals, hlength]
      simp only [hlength, hlength', Lua.closeBlock, Option.map_some, State.close_length]
      exact .done hends hstates

end Agree

/-- The runs of the statement agree, and add `n` local variables. -/
def Lua.Stmt.Alike (host : Host (Memory R)) (n : ℕ) (stmt : Stmt) : Prop :=
  ∀ ⦃σ : ℕ → ℕ⦄ ⦃s t : State (Memory R)⦄, s.Renames σ t → Poised s →
    Agree σ (Finishes n s) (stmt.exec host s) (stmt.exec host t)

/-- The runs of the block agree, and add `n` local variables. -/
def BlockAlike (host : Host (Memory R)) (n : ℕ) (block : Block) : Prop :=
  ∀ ⦃σ : ℕ → ℕ⦄ ⦃s t : State (Memory R)⦄, s.Renames σ t → Poised s →
    Agree σ (Finishes n s) (execBlock host block s) (execBlock host block t)

theorem alike_letLocal {name : String} {e : Expr} (hname : name ∉ shapeRoots)
    (he : e.Alike host) : (Stmt.letLocal name e).Alike host 1 := by
  intro σ s t h hs
  have hexec : ∀ s : State (Memory R), (Stmt.letLocal name e).exec host s =
      (e.eval host s).bind fun o => some (.next, o.2.push name o.1) := fun _ => rfl
  rw [hexec, hexec]
  refine (he h hs).bind fun {v w u u'} hv hu => ?_
  rw [hv.value]
  refine .done ⟨rfl, rfl, hv.poised.push hname hv.within, hv.fresh, ?_⟩ (hu.push name v)
  rw [State.locals_push, List.length_cons, hv.locals]

/-- Is the path one that the code may assign to? -/
def Assignable (p : String) : Prop :=
  (∀ name ∈ (pathFields p).getLast?, name ≠ "C") ∧
    ((pathFields p).getLast? = none → pathRoot p ∉ shapeRoots)

instance (p : String) : Decidable (Assignable p) :=
  inferInstanceAs (Decidable (_ ∧ _))

/-- **An assignment.** -/
theorem alike_set {p : String} {e : Expr} (hp : Assignable p) (he : e.Alike host) :
    (Stmt.set p e).Alike host 0 := by
  intro σ s t h hs
  have hexec : ∀ s : State (Memory R), (Stmt.set p e).exec host s =
      (e.eval host s).bind fun o => (o.2.write p o.1).bind fun s => some (.next, s) :=
    fun _ => rfl
  rw [hexec, hexec]
  refine (he h hs).bind fun {v w u u'} hv hu => ?_
  rw [hv.value]
  obtain ⟨hwrite, hwrite'⟩ | ⟨a, name, hname, hwrite, hwrite'⟩ | ⟨hlast, hwrite, hwrite'⟩ :=
    hu.write_cases hv.poised.contained p v
  · rw [hwrite, hwrite']
    exact .wrong
  · rw [hwrite, hwrite']
    have hpoised := hv.poised.setField a (hp.1 name hname) hv.within
    exact .done ⟨rfl, rfl, hpoised, hv.fresh, congrArg List.length hv.locals⟩
      (hu.setField a name v)
  · rw [hwrite, hwrite']
    have hpoised := hv.poised.setRoot (hp.2 hlast) hv.within
    refine .done ⟨rfl, rfl, hpoised, ?_, ?_⟩ (hu.setRoot (pathRoot p) v)
    · rw [State.fresh_setRoot]
      exact hv.fresh
    · rw [State.length_setRoot, hv.locals, Nat.add_zero]

theorem alike_run {e : Expr} (he : e.Alike host) : (Stmt.run e).Alike host 0 := by
  intro σ s t h hs
  have hexec : ∀ s : State (Memory R), (Stmt.run e).exec host s =
      (e.eval host s).bind fun o => some (.next, o.2) := fun _ => rfl
  rw [hexec, hexec]
  refine (he h hs).bind fun hv hu => ?_
  exact .done ⟨rfl, rfl, hv.poised, hv.fresh, congrArg List.length hv.locals⟩ hu

theorem blockAlike_nil : BlockAlike host 0 [] :=
  fun _ _ _ h hs => .done ⟨rfl, rfl, hs, le_rfl, rfl⟩ h

/-- **A block**, statement by statement. -/
theorem BlockAlike.cons {m n : ℕ} {stmt : Stmt} {block : Block} (hstmt : stmt.Alike host m)
    (hblock : BlockAlike host n block) : BlockAlike host (m + n) (stmt :: block) := by
  intro σ s t h hs
  have hcons : ∀ s : State (Memory R), execBlock host (stmt :: block) s =
      andThen (stmt.exec host s) (execBlock host block) := fun _ => rfl
  rw [hcons, hcons]
  exact (hstmt h hs).andThen fun hends hstates =>
    (hblock hstates hends.poised).mono hends.trans

/-- **A branch** whose block makes no local variables. -/
theorem alike_ifThen {condition : Expr} {body : Block} (hcondition : condition.Alike host)
    (hbody : BlockAlike host 0 body) : (Stmt.ifThen condition body).Alike host 0 := by
  intro σ s t h hs
  have hexec : ∀ s : State (Memory R), (Stmt.ifThen condition body).exec host s =
      (condition.eval host s).bind fun o =>
        if o.1.truthy then closeBlock o.2.locals.length (execBlock host body o.2)
        else some (.next, o.2) := fun _ => rfl
  rw [hexec, hexec]
  refine (hcondition h hs).bind fun {v w u u'} hv hu => ?_
  simp only [hv.value, Value.truthy_rename]
  split
  · exact ((hbody hu hv.poised).closeBlock hu).mono fun h =>
      ⟨h.flow, h.flow', h.poised, hv.fresh.trans h.fresh, by rw [h.length, hv.locals]⟩
  · exact .done ⟨rfl, rfl, hv.poised, hv.fresh, congrArg List.length hv.locals⟩ hu

end JokerScript
