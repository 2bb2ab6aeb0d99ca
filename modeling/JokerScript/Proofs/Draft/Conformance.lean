import JokerScript.Proofs.Success

/-!
# Checks That Conform to a Grammar

A check is a computation in `Except`. It **conforms to a grammar** if it succeeds on just what the
grammar accepts, if what it returns is as the grammar says, and if it fails with just the fault
that the grammar finds. Checks that conform to grammars are put together to others: one after the
other, or one for each item of a list, where the first fault counts.

## Main definitions

* `Conforms` — a check conforms to a grammar.
* `FirstFault` — the first item of a list that is not accepted is at fault.

## Main results

* `conforms_of_total` — it suffices that all is either accepted or at fault.
* `Conforms.bind`, `Conforms.mapM` — one check after the other, and one for each item.
-/

namespace JokerScript

variable {ε ε' α β : Type}

/-- **A check conforms to a grammar**, which tells what is accepted, what is then returned, and what
is at fault otherwise. -/
structure Conforms (x : Except ε α) (accepted : Prop) (result : α → Prop) (fault : ε → Prop) :
    Prop where
  succeeds : (∃ a, x = .ok a) ↔ accepted
  returns : ∀ a, x = .ok a → result a
  fails : ∀ e, x = .error e ↔ fault e

/-- The first item of a list that is not accepted is at fault. -/
def FirstFault (accepted : α → Prop) (fault : α → ε → Prop) (as : List α) (e : ε) : Prop :=
  ∃ before a after, as = before ++ a :: after ∧ (∀ b ∈ before, accepted b) ∧ fault a e

/-- If a grammar leaves nothing open, then a check conforms to it that succeeds on what is accepted
and fails with what is at fault. -/
theorem conforms_of_total {x : Except ε α} {accepted : Prop} {result : α → Prop} {fault : ε → Prop}
    (htotal : accepted ∨ ∃ e, fault e) (hok : accepted → ∃ a, x = .ok a ∧ result a)
    (herror : ∀ e, fault e → x = .error e) : Conforms x accepted result fault := by
  rcases htotal with haccepted | ⟨e, he⟩
  · obtain ⟨a, rfl, ha⟩ := hok haccepted
    refine ⟨⟨fun _ => haccepted, fun _ => ⟨a, rfl⟩⟩, ?_, fun e => ⟨nofun, fun he => ?_⟩⟩
    · rintro b hb
      obtain rfl := Except.ok.inj hb
      exact ha
    · exact herror e he
  · obtain rfl := herror e he
    refine ⟨⟨nofun, fun h => ?_⟩, nofun, fun e' => ⟨fun h => ?_, herror e'⟩⟩
    · obtain ⟨a, ha, -⟩ := hok h
      cases ha
    · obtain rfl := Except.error.inj h
      exact he

namespace Conforms

variable {x : Except ε α} {accepted accepted' : Prop} {result : α → Prop} {fault fault' : ε → Prop}

/-- What a check has found is either accepted or at fault. -/
theorem total (h : Conforms x accepted result fault) : accepted ∨ ∃ e, fault e := by
  cases hx : x with
  | ok a => exact .inl (h.succeeds.mp ⟨a, hx⟩)
  | error e => exact .inr ⟨e, (h.fails e).mp hx⟩

theorem exists_ok (h : Conforms x accepted result fault) (haccepted : accepted) :
    ∃ a, x = .ok a ∧ result a := by
  obtain ⟨a, ha⟩ := h.succeeds.mpr haccepted
  exact ⟨a, ha, h.returns a ha⟩

/-- What is always done conforms to the grammar that accepts everything. -/
theorem ok (a : α) : Conforms (.ok a : Except ε α) True (fun b => b = a) fun _ => False :=
  conforms_of_total (.inl trivial) (fun _ => ⟨a, rfl, rfl⟩) nofun

/-- A grammar may be told in other words. -/
theorem congr (h : Conforms x accepted result fault) {result' : α → Prop}
    (haccepted : accepted ↔ accepted') (hresult : ∀ a, result a → result' a)
    (hfault : ∀ e, fault e ↔ fault' e) : Conforms x accepted' result' fault' :=
  ⟨h.succeeds.trans haccepted, fun a ha => hresult a (h.returns a ha),
    fun e => (h.fails e).trans (hfault e)⟩

/-- More may be known about what is returned. -/
theorem returning (h : Conforms x accepted result fault) {result' : α → Prop}
    (hresult : ∀ a, x = .ok a → result a → result' a) : Conforms x accepted result' fault :=
  ⟨h.succeeds, fun a ha => hresult a ha (h.returns a ha), h.fails⟩

/-- The result may be changed. -/
theorem map (h : Conforms x accepted result fault) {f : α → β} {r : β → Prop}
    (hf : ∀ a, result a → r (f a)) : Conforms (x.map f) accepted r fault := by
  refine conforms_of_total h.total (fun haccepted => ?_) fun e he => ?_
  · obtain ⟨a, rfl, ha⟩ := h.exists_ok haccepted
    exact ⟨f a, rfl, hf a ha⟩
  · rw [(h.fails e).mpr he]
    rfl

/-- The fault may be reported in another way. -/
theorem mapError (h : Conforms x accepted result fault) (f : ε → ε') :
    Conforms (x.mapError f) accepted result fun e' => ∃ e, fault e ∧ f e = e' := by
  refine conforms_of_total ?_ (fun haccepted => ?_) ?_
  · exact h.total.imp_right fun ⟨e, he⟩ => ⟨f e, e, he, rfl⟩
  · obtain ⟨a, rfl, ha⟩ := h.exists_ok haccepted
    exact ⟨a, rfl, ha⟩
  · rintro _ ⟨e, he, rfl⟩
    rw [(h.fails e).mpr he]
    rfl

/-- **One check after the other.** The fault of the second one counts if the first one has found
none. -/
theorem bind (h : Conforms x accepted result fault) {f : α → Except ε β} {result' : α → β → Prop}
    (hf : ∀ a, result a → Conforms (f a) accepted' (result' a) fault') :
    Conforms (x >>= f) (accepted ∧ accepted') (fun b => ∃ a, result a ∧ result' a b)
      fun e => fault e ∨ accepted ∧ fault' e := by
  rcases h.total with haccepted | ⟨e, he⟩
  · obtain ⟨a, rfl, ha⟩ := h.exists_ok haccepted
    have hnone (e : ε) : ¬ fault e := fun he => nomatch (h.fails e).mpr he
    refine (hf a ha).congr (by simp [haccepted]) (fun b hb => ⟨a, ha, hb⟩) fun e => ?_
    simp [haccepted, hnone e]
  · obtain rfl := (h.fails e).mpr he
    have hnot : ¬ accepted := fun haccepted => by
      obtain ⟨a, ha⟩ := h.succeeds.mpr haccepted
      cases ha
    refine ⟨⟨nofun, fun hboth => absurd hboth.1 hnot⟩, nofun, fun e' => ?_⟩
    simp only [hnot, false_and, or_false]
    rw [← h.fails e']
    exact ⟨fun heq => congrArg _ (Except.error.inj heq),
      fun heq => congrArg _ (Except.error.inj heq)⟩

end Conforms

/-- The faults of a list are those of its first item, and then those of the others. -/
theorem firstFault_cons {accepted : α → Prop} {fault : α → ε → Prop} {a : α} {as : List α} {e : ε} :
    FirstFault accepted fault (a :: as) e ↔
      fault a e ∨ accepted a ∧ FirstFault accepted fault as e := by
  constructor
  · rintro ⟨before, b, after, heq, hbefore, hb⟩
    cases before with
    | nil =>
        obtain ⟨rfl, rfl⟩ := List.cons.inj heq
        exact .inl hb
    | cons c before =>
        obtain ⟨rfl, rfl⟩ := List.cons.inj heq
        obtain ⟨hc, hbefore⟩ := List.forall_mem_cons.mp hbefore
        exact .inr ⟨hc, before, b, after, rfl, hbefore, hb⟩
  · rintro (ha | ⟨ha, before, b, after, rfl, hbefore, hb⟩)
    · exact ⟨[], a, as, rfl, by simp, ha⟩
    · exact ⟨a :: before, b, after, rfl, List.forall_mem_cons.mpr ⟨ha, hbefore⟩, hb⟩

/-- **One check for each item of a list.** The first fault counts. -/
theorem Conforms.mapM {f : α → Except ε β} {accepted : α → Prop} {result : α → β → Prop}
    {fault : α → ε → Prop} (h : ∀ a, Conforms (f a) (accepted a) (result a) (fault a))
    (as : List α) :
    Conforms (as.mapM f) (∀ a ∈ as, accepted a) (fun bs => List.Forall₂ result as bs)
      (FirstFault accepted fault as) := by
  induction as with
  | nil =>
      refine (Conforms.ok []).congr (by simp) ?_ fun e => ?_
      · rintro _ rfl
        exact .nil
      · simp [FirstFault]
  | cons a as ih =>
      rw [List.mapM_cons]
      -- The results of the other items are put after that of the first one.
      have hrest (b : β) (hb : result a b) := ih.map (f := fun bs => b :: bs)
        (r := fun bs => List.Forall₂ result (a :: as) bs) fun bs hbs => .cons hb hbs
      refine ((h a).bind fun b hb => hrest b hb).congr ?_ ?_ fun e => firstFault_cons.symm
      · rw [List.forall_mem_cons]
      · rintro bs ⟨b, -, hbs⟩
        exact hbs

end JokerScript
