import JokerScript.Proofs.Held.Playable
import JokerScript.Proofs.Resolve.Meaning
import JokerScript.Proofs.Storage.Runs

/-!
# One Meaning under Both Policies

A literal goes into the expression, or into a variable of a freshly claimed name. Either way
the expression reads what the quantity stands for: the policy moves numbers about, and no number
changes on the way.

## Main definitions

* `LiteralPolicy.resolveFresh` — resolve a quantity under a policy, with a name of its own.
* `Keeps`, `Meaning.Readable` — states in which expressions can be read.
* `Meaning.outcome` — what reading a meaning gives in such a state.

## Main results

* `eval_settled` — the expression of a settled quantity reads its meaning.
* `eval_resolveFresh` — the same for both policies, after any run of claims and declarations.
-/

namespace JokerScript

open Lua

/-! ### Definitions -/

/-- Resolve a quantity under the policy, with a name of its own. -/
def LiteralPolicy.resolveFresh (policy : LiteralPolicy) (naming : Naming) (base owner : String)
    (q : Quantity) : Resolver Resolved :=
  match policy with
  | .declared => do
    let slot ← Resolver.claim base valueSuffixes
    resolve naming (.declared slot owner) q
  | .inline => resolve naming (.inline base owner) q

variable {W : Type}

/-- The card **keeps** a number in each of the variables. -/
def Keeps (stored : String → ExactNumber) (vars : List StoredVariable) (u : State W) : Prop :=
  ∃ a, u.read "card.ability.extra" = some (.table a) ∧
    ∀ v ∈ vars, (u.tables a).field v.name = .number (stored v.name)

/-- Can the meaning be read in the state? The number of the game is where its token looks, and
no local variable hides the function that draws random numbers. -/
def Meaning.Readable (game : String → ExactNumber) (u : State W) : Meaning → Prop
  | .scaled token _ _ =>
    ∀ reading, (token, reading) ∈ GameState.readings → reading.ShowsIn u (game token)
  | .draw _ _ => u.locals.lookup "pseudorandom" = none
  | .constant _ | .stored _ => True

/-- What reading a meaning gives, when the random numbers come from the stream `seed`. -/
def Meaning.outcome (host : Host W) (game stored : String → ExactNumber) (seed : String)
    (u : State W) : Meaning → Option (Value × State W)
  | .constant n => some (.number n.literalValue, u)
  | .scaled token multiplier offset =>
    some (.number (((game token).mul multiplier.literalValue).add offset.literalValue), u)
  | .draw min max =>
    host.call "pseudorandom" [.str seed, .number min.literalValue, .number max.literalValue] u
  | .stored name => some (.number (stored name), u)

/-! ### Names -/

/-- A claimed name is one field of a path, if its base is. -/
theorem dotFree_claimedName {base : String} (h : DotFree base) (s : Storage)
    (suffixes : List String) : DotFree (s.claimedName base suffixes) := by
  obtain ⟨n, hn⟩ := s.claimedName_eq_candidate base suffixes
  obtain ⟨digits, hdigits, hlist⟩ := Storage.candidate_toList base n
  rw [DotFree, hn, hlist, List.mem_append, not_or]
  exact ⟨h, fun hdot => absurd (hdigits '.' hdot) (by decide)⟩

/-! ### Evaluation -/

section Evaluation

variable {host : Host W} {game stored : String → ExactNumber} {vars : List StoredVariable}
  {u : State W}

theorem Keeps.read (h : Keeps stored vars u) {v : StoredVariable} (hv : v ∈ vars)
    (hdot : DotFree v.name) :
    u.read ("card.ability.extra." ++ v.name) = some (.number (stored v.name)) := by
  obtain ⟨a, ha, hfields⟩ := h
  have hread := State.read_child hdot ha
  rw [hfields v hv] at hread
  rw [← storedPath_eq]
  exact hread

variable {naming : Naming} {request : ResolveRequest} {s : Storage} {slot : String}

theorem eval_literal {n : Number} (hslot : DotFree request.name)
    (hkeeps : Keeps stored (s.declared ++ (request.literal n).configVariables) u)
    (hnew : ∀ v ∈ (request.literal n).configVariables, stored v.name = v.value.literalValue) :
    (request.literal n).expr.eval host u = some (.number n.literalValue, u) := by
  obtain ⟨name, owner, policy⟩ := request
  cases policy with
  | inline => exact eval_number n u
  | declared =>
      have hread := hkeeps.read (v := ⟨name, n⟩)
        (List.mem_append_right _ List.mem_cons_self) hslot
      rw [hnew ⟨name, n⟩ List.mem_cons_self] at hread
      exact eval_path hread

/-- What stands for nothing is read as zero. -/
theorem eval_settled_none {source : Source} (h : source.meaning? s = none)
    (hrequest : DotFree request.name)
    (hkeeps : Keeps stored
      (s.declared ++ (source.settled naming request s slot).configVariables) u)
    (hnew : ∀ v ∈ (source.settled naming request s slot).configVariables,
      stored v.name = v.value.literalValue) :
    (source.settled naming request s slot).expr.eval host u = some (.number (.finite 0), u) := by
  have hzero : (Number.zero false).literalValue = .finite 0 := Number.literalValue_of_isZero rfl
  rw [settled_of_meaning?_eq_none naming request s slot h] at hkeeps hnew ⊢
  rw [eval_literal hrequest hkeeps hnew, hzero]

/-- **The expression of a settled quantity** reads what the quantity stands for. -/
theorem eval_settled {source : Source} {m : Meaning} (h : source.meaning? s = some m)
    (hname : ∀ name, source = .named name → DotFree name) (hrequest : DotFree request.name)
    (hslot : DotFree slot)
    (hreadable : m.Readable game u)
    (hkeeps : Keeps stored
      (s.declared ++ (source.settled naming request s slot).configVariables) u)
    (hnew : ∀ v ∈ (source.settled naming request s slot).configVariables,
      stored v.name = v.value.literalValue) :
    (source.settled naming request s slot).expr.eval host u =
      m.outcome host game stored (naming.seed slot request.owner) u := by
  cases source with
  | gameVar v =>
      obtain ⟨hknown, rfl⟩ := Source.meaning?_gameVar.mp h
      obtain ⟨e, he⟩ := GameVar.exists_expr hknown
      obtain ⟨reading, hmem, rfl⟩ := GameVar.exists_reading he
      simp only [Source.settled, he]
      exact eval_shifted v.offset
        (eval_scaled v.multiplier (eval_reading (hreadable reading hmem)))
  | range min max =>
      obtain rfl := Option.some.inj h
      have hread : ∀ v ∈ ((Source.range min max).settled naming request s slot).configVariables,
          DotFree v.name → u.read ("card.ability.extra." ++ v.name) =
            some (.number v.value.literalValue) := by
        intro v hv hdot
        rw [hkeeps.read (List.mem_append_right _ hv) hdot, hnew v hv]
      have hmin := hread ⟨Resolved.minName slot, min⟩ List.mem_cons_self
        (hslot.append (by decide))
      have hmax := hread ⟨Resolved.maxName slot, max⟩
        (List.mem_cons_of_mem _ List.mem_cons_self) (hslot.append (by decide))
      exact eval_range hreadable hmin hmax min max
  | named name =>
      obtain ⟨hdeclared, rfl⟩ := Source.meaning?_named.mp h
      obtain ⟨v, hv, rfl⟩ := List.mem_map.mp hdeclared
      rw [Source.settled, if_pos ((s.isDeclared_iff v.name).mpr hdeclared)]
      exact eval_path (hkeeps.read (List.mem_append_left _ hv) (hname v.name rfl))
  | number n =>
      obtain rfl := Option.some.inj h
      exact eval_literal hrequest hkeeps hnew
  | unresolved => cases h

end Evaluation

/-! ### Both policies -/

/-- A claim does not matter to a quantity that is settled after it. -/
theorem settled_claim (naming : Naming) (request : ResolveRequest) (s : Storage) (base : String)
    (suffixes : List String) (slot : String) (source : Source) :
    source.settled naming request (s.claim base suffixes).2 slot =
      source.settled naming request s slot := by
  cases source <;> rfl

/-- Under either policy, a quantity is settled in each reachable storage. A range goes under the
claimed name under both. -/
theorem run_resolveFresh (policy : LiteralPolicy) (naming : Naming) {base : String}
    (hbase : DotFree base) (owner : String) (q : Quantity) {s : Storage} (hs : s.Reachable) :
    ∃ (request : ResolveRequest) (t : Storage), request.owner = owner ∧ DotFree request.name ∧
      (policy.resolveFresh naming base owner q).run s =
        (.ok ((Source.ofQuantity q).settled naming request s (s.claimedName base valueSuffixes)),
          t) := by
  cases policy with
  | declared =>
      have hnew : ∀ form ∈ Storage.forms valueSuffixes (s.claimedName base valueSuffixes),
          form ∉ (s.claim base valueSuffixes).2.names := fun _ hform =>
        hs.notMem_names_of_claim hform
      have hrun := run_resolve_declared naming (s.claim base valueSuffixes).2
        (s.claimedName base valueSuffixes) owner q hnew
      rw [settled_claim] at hrun
      exact ⟨.declared (s.claimedName base valueSuffixes) owner, _, rfl,
        dotFree_claimedName hbase s valueSuffixes,
        (Resolver.run_bind_of_ok _ (Resolver.run_claim base valueSuffixes s)).trans hrun⟩
  | inline =>
      exact ⟨.inline base owner, _, rfl, hbase, run_resolve_inline naming hs base owner q⟩

/-- A run that succeeds has declared the variables of its result. -/
theorem declared_of_run_resolveFresh {policy : LiteralPolicy} {naming : Naming}
    {base owner : String} {q : Quantity} {s t : Storage} {r : Resolved}
    (hrun : (policy.resolveFresh naming base owner q).run s = (.ok r, t)) :
    t.declared = s.declared ++ r.configVariables := by
  cases policy with
  | declared =>
      rw [LiteralPolicy.resolveFresh,
        Resolver.run_bind_of_ok _ (Resolver.run_claim base valueSuffixes s)] at hrun
      obtain ⟨-, -, hdeclared⟩ := exists_settled_of_run hrun
      exact hdeclared
  | inline =>
      obtain ⟨-, -, hdeclared⟩ := exists_settled_of_run hrun
      exact hdeclared

/-- **Resolving has one meaning under both policies.** After any run of claims and declarations
from the variables of a joker, a quantity is resolved without failure. The variables of the
result are declared behind the others. The expression reads what the quantity stands for, or
zero if it stands for nothing, in each state that keeps the declared variables and in which
those of the result still have the numbers that they start from. -/
theorem eval_resolveFresh {joker : Joker} {start : Storage}
    (hstart : Storage.ofJoker joker = .ok start) (ops : List Storage.Op) (naming : Naming)
    {base : String} (hbase : DotFree base) (owner : String) (q : Quantity)
    (policy : LiteralPolicy) :
    let s := start.run ops
    ∃ r t, (policy.resolveFresh naming base owner q).run s = (.ok r, t) ∧
      t.declared = s.declared ++ r.configVariables ∧
      ∀ {W : Type} (host : Host W) (game stored : String → ExactNumber) (u : State W),
        Keeps stored t.declared u →
        (∀ v ∈ r.configVariables, stored v.name = v.value.literalValue) →
        (∀ m, q.StandsFor s m → m.Readable game u → r.expr.eval host u =
          m.outcome host game stored
            (naming.seed (s.claimedName base valueSuffixes) owner) u) ∧
        ((∀ m, ¬q.StandsFor s m) → r.expr.eval host u = some (.number (.finite 0), u)) := by
  intro s
  have hs : s.Reachable := (Storage.Reachable.ofJoker hstart).run ops
  obtain ⟨request, t, rfl, hrequest, hrun⟩ := run_resolveFresh policy naming hbase owner q hs
  have hdeclared := declared_of_run_resolveFresh hrun
  refine ⟨_, t, hrun, hdeclared, fun host game stored u hkeeps hnew => ?_⟩
  rw [hdeclared] at hkeeps
  refine ⟨fun m hm hreadable => ?_, fun hnothing => ?_⟩
  · have hname : ∀ name, Source.ofQuantity q = .named name → DotFree name := fun _ hsource =>
      dotFree_of_isIdentifier (isIdentifier_of_named hsource)
    exact eval_settled hm.meaning? hname hrequest (dotFree_claimedName hbase s valueSuffixes)
      hreadable hkeeps hnew
  · refine eval_settled_none ?_ hrequest hkeeps hnew
    exact Option.eq_none_iff_forall_ne_some.mpr fun m hm => hnothing m (standsFor_iff.mpr hm)

/-! ### A draw from two to five -/

/-- A game that draws the lower bound. -/
def lowerHost : Host Unit where
  call := fun _ args u =>
    match args with
    | [_, .number min, _] => some (.number min, u)
    | _ => none
  method := fun _ _ _ _ => none

/-- A state whose only table holds itself. The variables of its card start from two and five. -/
def twoToFive : State Unit where
  globals := fun _ => .table 0
  tables := fun _ =>
    { field := fun name =>
        if name = "hands_min" then .number Number.two.literalValue
        else if name = "hands_max" then .number Number.five.literalValue
        else .table 0 }
  fresh := 1
  world := ()

/-- A range with blanks around it, and with a malformed upper bound, draws two. -/
theorem eval_resolveFresh_twoToFive :
    ∃ r t, (LiteralPolicy.declared.resolveFresh {} "hands" "effect"
        (.text " RANGE: 2 | x ")).run {} = (.ok r, t) ∧
      r.expr.eval lowerHost twoToFive = some (.number Number.two.literalValue, twoToFive) := by
  have hstart : Storage.ofJoker { id := ⟨"joker"⟩, key := ⟨"joker"⟩ } = .ok {} := rfl
  have hfinal : ((LiteralPolicy.declared.resolveFresh {} "hands" "effect"
      (.text " RANGE: 2 | x ")).run {}).2.declared =
        [⟨"hands_min", Number.two⟩, ⟨"hands_max", Number.five⟩] := by decide +kernel
  -- The policy is kept apart, so that no step computes with it.
  obtain ⟨policy, hpolicy⟩ : ∃ policy, policy = LiteralPolicy.declared := ⟨_, rfl⟩
  rw [← hpolicy] at hfinal ⊢
  have hbase : DotFree "hands" := by decide
  obtain ⟨r, t, hrun, hdeclared, heval⟩ :=
    eval_resolveFresh hstart [] {} hbase "effect" (.text " RANGE: 2 | x ") policy
  have hvars : t.declared = [⟨"hands_min", Number.two⟩, ⟨"hands_max", Number.five⟩] :=
    (congrArg (fun o => o.2.declared) hrun).symm.trans hfinal
  have hconfig : r.configVariables = t.declared := hdeclared.symm
  have hsource : Source.ofQuantity (.text " RANGE: 2 | x ") =
      .range Number.two Number.five := by decide +kernel
  have hmeaning : (Quantity.text " RANGE: 2 | x ").StandsFor {} (.draw Number.two Number.five) :=
    standsFor_iff.mpr (by rw [hsource, Source.meaning?])
  obtain ⟨hmeans, -⟩ := heval lowerHost (fun _ => .finite 0)
    (fun name => if name = "hands_min" then Number.two.literalValue else Number.five.literalValue)
    twoToFive ⟨0, rfl, by rw [hvars]; simp [twoToFive]⟩ (by rw [hconfig, hvars]; simp)
  exact ⟨r, t, hrun, hmeans _ hmeaning rfl⟩

end JokerScript
