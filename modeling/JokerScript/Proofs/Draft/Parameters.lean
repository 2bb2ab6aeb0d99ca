import JokerScript.Draft.Validate
import JokerScript.Proofs.Compile.Drafts
import JokerScript.Proofs.Draft.Conformance

/-!
# Given Parameters

A parameter is **given** if its value is a text that is not empty. A value of any other type
counts as none. A choice with tags is optional: it may be left out, but what is given for it must
be one of the tags. A suit must be given by its name.

## Main definitions

* `Params.Gives`, `Params.Given` — the text that is given for a parameter.
* `Params.OptionalTag`, `Params.Chooses`, `Params.WrongTag` — the grammar of an optional choice.
* `Params.NamesSuit`, `Params.NamesNoSuit` — the grammar of a suit.
* `Params.SelectsSuits`, `Params.SuitFault` — the grammar of the suits of a condition.

## Main results

* `Params.text?_eq_some_iff`, `Params.text?_eq_none_iff` — which text is read.
* `DraftEffect.strict_conforms`, `DraftEffect.suit_conforms`, `DraftCondition.choice_conforms` — the
  readers conform to the grammars.
-/

namespace JokerScript

/-! ### Texts -/

namespace Params

variable {params : Params} {name text : String}

/-- The text is **given** for the parameter: it is its value, and it is not empty. -/
def Gives (params : Params) (name text : String) : Prop :=
  params.lookup name = some (.str text) ∧ text ≠ ""

/-- A text is given for the parameter. -/
def Given (params : Params) (name : String) : Prop := ∃ text, params.Gives name text

/-- The text that is given for the parameter, or the empty one if none is. -/
def TextOrEmpty (params : Params) (name text : String) : Prop :=
  params.Gives name text ∨ ¬ params.Given name ∧ text = ""

/-- A text is read if it is given. -/
theorem text?_eq_some_iff : params.text? name = some text ↔ params.Gives name text := by
  rw [text?, Gives]
  split
  · rename_i s hs
    rw [hs]
    by_cases hempty : s = ""
    · subst hempty
      refine ⟨nofun, fun hgives => ?_⟩
      exact absurd (Json.str.inj (Option.some.inj hgives.1)).symm hgives.2
    · rw [if_neg (by simpa using hempty)]
      constructor
      · intro htext
        obtain rfl := Option.some.inj htext
        exact ⟨rfl, hempty⟩
      · intro hgives
        rw [Json.str.inj (Option.some.inj hgives.1)]
  · rename_i hother
    exact ⟨nofun, fun hgives => absurd hgives.1 (hother text)⟩

theorem text?_eq_none_iff : params.text? name = none ↔ ¬ params.Given name := by
  rw [Option.eq_none_iff_forall_ne_some, Given, not_exists]
  exact forall_congr' fun text => not_congr text?_eq_some_iff

/-- No more than one text is given for a parameter. -/
theorem Gives.unique {other : String} (h : params.Gives name text)
    (hother : params.Gives name other) : text = other :=
  Option.some.inj ((text?_eq_some_iff.mpr h).symm.trans (text?_eq_some_iff.mpr hother))

/-- A parameter is not given, or a text is read for it. -/
theorem given_cases (params : Params) (name : String) :
    ¬ params.Given name ∧ params.text? name = none ∨
      ∃ text, params.Gives name text ∧ params.text? name = some text := by
  cases htext : params.text? name with
  | none => exact .inl ⟨text?_eq_none_iff.mp htext, rfl⟩
  | some text => exact .inr ⟨text, text?_eq_some_iff.mp htext, rfl⟩

/-- There is one such text. -/
theorem textOrEmpty_iff : params.TextOrEmpty name text ↔ (params.text? name).getD "" = text := by
  rcases given_cases params name with ⟨hnone, htext⟩ | ⟨given, hgives, htext⟩
  · rw [htext, Option.getD_none]
    constructor
    · rintro (hgives | ⟨-, rfl⟩)
      · exact absurd ⟨text, hgives⟩ hnone
      · rfl
    · rintro rfl
      exact .inr ⟨hnone, rfl⟩
  · rw [htext, Option.getD_some]
    constructor
    · rintro (hother | ⟨hnone, -⟩)
      · exact hgives.unique hother
      · exact absurd ⟨given, hgives⟩ hnone
    · rintro rfl
      exact .inl hgives

theorem textOrEmpty_getD (params : Params) (name : String) :
    params.TextOrEmpty name ((params.text? name).getD "") :=
  textOrEmpty_iff.mpr rfl

/-! ### Tags -/

/-- The choice may be left out; what is given for it is one of the tags. -/
def OptionalTag (α : Type) [Tagged α] (params : Params) (name : String) : Prop :=
  ¬ params.Given name ∨ ∃ a : α, params.Gives name (Tagged.tag a)

/-- The value that is chosen: that of the tag that is given, or the default if nothing is given. -/
def Chooses {α : Type} [Tagged α] (params : Params) (name : String) (default a : α) : Prop :=
  params.Gives name (Tagged.tag a) ∨ ¬ params.Given name ∧ a = default

/-- What is given for the choice is none of the tags. -/
def WrongTag (α : Type) [Tagged α] (params : Params) (name text : String) : Prop :=
  params.Gives name text ∧ ∀ a : α, Tagged.tag a ≠ text

/-- A text names a suit, apart from blanks around it and from the case of its letters. -/
def SpellsSuit (text : String) (suit : Suit) : Prop := asciiLower (trim text) = asciiLower suit.name

instance (text : String) (suit : Suit) : Decidable (SpellsSuit text suit) :=
  inferInstanceAs (Decidable (_ = _))

/-- The suit that is given for the parameter by its name. -/
def NamesSuit (params : Params) (name : String) (suit : Suit) : Prop :=
  ∃ text, params.Gives name text ∧ SpellsSuit text suit

/-- What is given for the parameter, if anything is, names no suit. -/
def NamesNoSuit (params : Params) (name text : String) : Prop :=
  params.TextOrEmpty name text ∧ ∀ suit, ¬ SpellsSuit text suit

/-- The suits of a condition: one by its name, or those of a colour. -/
inductive SelectsSuits (params : Params) : SuitChoice → Prop
  | specific {name : String} :
      ¬ params.Given "suit_type" ∨ params.Gives "suit_type" "specific" →
      params.Gives "specific_suit" name → SelectsSuits params (.named name)
  | group {colour : SuitColour} :
      params.Gives "suit_type" "group" → params.Gives "suit_group" (Tagged.tag colour) →
      SelectsSuits params (.coloured colour)

/-- What is wrong with the suits of a condition. -/
inductive SuitFault (params : Params) : CompileError → Prop
  | noSuit :
      ¬ params.Given "suit_type" ∨ params.Gives "suit_type" "specific" →
      ¬ params.Given "specific_suit" →
      SuitFault params (.invalidParameter "specific_suit" "missing")
  | noColour {text : String} :
      params.Gives "suit_type" "group" → params.TextOrEmpty "suit_group" text →
      (∀ colour : SuitColour, Tagged.tag colour ≠ text) →
      SuitFault params (unknownValue "suit_group" "group" text)
  | noSelection {text : String} :
      params.Gives "suit_type" text → text ≠ "specific" → text ≠ "group" →
      SuitFault params (unknownValue "suit_type" "selection" text)

end Params

open Params

/-- A text is the tag of a value, or no value has that tag. -/
theorem Tagged.ofTag?_cases (α : Type) [Tagged α] (text : String) :
    (∃ a : α, Tagged.tag a = text ∧ Tagged.ofTag? text = some a) ∨
      (∀ a : α, Tagged.tag a ≠ text) ∧ (Tagged.ofTag? text : Option α) = none := by
  cases htag : (Tagged.ofTag? text : Option α) with
  | some a => exact .inl ⟨a, Tagged.tag_of_ofTag? htag, rfl⟩
  | none =>
      refine .inr ⟨?_, rfl⟩
      rintro a rfl
      rw [Tagged.ofTag?_tag] at htag
      cases htag

/-- A text names a suit, or it names none. -/
theorem Suit.ofName?_cases (text : String) :
    (∃ suit, SpellsSuit text suit ∧ Suit.ofName? text = some suit) ∨
      (∀ suit, ¬ SpellsSuit text suit) ∧ Suit.ofName? text = none := by
  cases hname : Suit.ofName? text with
  | some suit =>
      have hspells := List.find?_some hname
      exact .inl ⟨suit, (beq_iff_eq.mp hspells).symm, rfl⟩
  | none =>
      refine .inr ⟨fun suit hspells => ?_, rfl⟩
      have hall : suit ∈ (Tagged.all : List Suit) := by
        cases suit <;> decide
      have hno := List.find?_eq_none.mp hname suit hall
      exact hno (beq_iff_eq.mpr hspells.symm)

/-- No more than one suit is named. -/
theorem Params.NamesSuit.unique {params : Params} {name : String} {s t : Suit}
    (hs : params.NamesSuit name s) (ht : params.NamesSuit name t) : s = t := by
  obtain ⟨text, hgives, hs⟩ := hs
  obtain ⟨other, hother, ht⟩ := ht
  obtain rfl := hgives.unique hother
  have hnames : asciiLower s.name = asciiLower t.name := hs.symm.trans ht
  revert hnames
  cases s <;> cases t <;> decide +kernel

/-! ### Readers -/

namespace DraftEffect

/-- **An optional choice** is read if it is left out or has a tag. -/
theorem strict_conforms {α : Type} [Tagged α] (params : Params) (name what : String) (default : α) :
    Conforms (strict params name what default) (OptionalTag α params name)
      (params.Chooses name default)
      fun e => ∃ text, WrongTag α params name text ∧ e = unknownValue name what text := by
  rcases given_cases params name with ⟨hnone, htext⟩ | ⟨text, hgives, htext⟩
  · refine conforms_of_total (.inl (.inl hnone)) (fun _ => ⟨default, ?_, .inr ⟨hnone, rfl⟩⟩) ?_
    · rw [strict, htext]
    · rintro _ ⟨text, hwrong, -⟩
      exact absurd ⟨text, hwrong.1⟩ hnone
  · rcases Tagged.ofTag?_cases α text with ⟨a, rfl, htag⟩ | ⟨hwrong, htag⟩
    · refine conforms_of_total (.inl (.inr ⟨a, hgives⟩)) (fun _ => ⟨a, ?_, .inl hgives⟩) ?_
      · simp only [strict, htext, htag]
      · rintro _ ⟨other, hwrong, -⟩
        exact absurd (hgives.unique hwrong.1) (hwrong.2 a)
    · refine conforms_of_total (.inr ⟨_, text, ⟨hgives, hwrong⟩, rfl⟩) ?_ ?_
      · rintro (hnone | ⟨a, ha⟩)
        · exact absurd ⟨text, hgives⟩ hnone
        · exact absurd (ha.unique hgives) (hwrong a)
      · rintro _ ⟨other, hother, rfl⟩
        obtain rfl := hgives.unique hother.1
        simp only [strict, htext, htag]

/-- **A suit** is read if it is given by its name. -/
theorem suit_conforms (params : Params) (name : String) :
    Conforms (suit params name) (∃ suit, params.NamesSuit name suit) (params.NamesSuit name)
      fun e => ∃ text, params.NamesNoSuit name text ∧ e = unknownValue name "suit" text := by
  have htext := textOrEmpty_getD params name
  rcases Suit.ofName?_cases ((params.text? name).getD "") with ⟨s, hs, hname⟩ | ⟨hno, hname⟩
  · have hgives : params.Gives name ((params.text? name).getD "") := by
      rcases htext with hgives | ⟨-, hempty⟩
      · exact hgives
      · rw [hempty] at hs
        cases s <;> exact absurd hs (by decide +kernel)
    refine conforms_of_total (.inl ⟨s, _, hgives, hs⟩) (fun _ => ⟨s, ?_, _, hgives, hs⟩) ?_
    · simp only [suit, hname]
    · rintro _ ⟨other, ⟨hother, hno⟩, -⟩
      obtain rfl := textOrEmpty_iff.mp hother
      exact absurd hs (hno s)
  · refine conforms_of_total (.inr ⟨_, _, ⟨htext, hno⟩, rfl⟩) ?_ ?_
    · rintro ⟨s, other, hother, hs⟩
      obtain rfl := textOrEmpty_iff.mp (.inl hother)
      exact absurd hs (hno s)
    · rintro _ ⟨other, ⟨hother, -⟩, rfl⟩
      obtain rfl := textOrEmpty_iff.mp hother
      simp only [suit, hname]

theorem suit_of_names {params : Params} {name : String} {s : Suit} (h : params.NamesSuit name s) :
    suit params name = .ok s := by
  obtain ⟨read, hread, hnames⟩ := (suit_conforms params name).exists_ok ⟨s, h⟩
  rw [hread, hnames.unique h]

theorem suit_of_namesNo {params : Params} {name text : String}
    (h : params.NamesNoSuit name text) :
    suit params name = .error (unknownValue name "suit" text) :=
  ((suit_conforms params name).fails _).mpr ⟨text, h, rfl⟩

end DraftEffect

namespace DraftCondition

/-- One suit is selected where nothing else is. -/
theorem specific_of_getD {params : Params}
    (h : (params.text? "suit_type").getD "specific" = "specific") :
    ¬ params.Given "suit_type" ∨ params.Gives "suit_type" "specific" := by
  rcases given_cases params "suit_type" with ⟨hnone, -⟩ | ⟨text, hgives, htext⟩
  · exact .inl hnone
  · rw [htext, Option.getD_some] at h
    exact .inr (h ▸ hgives)

theorem getD_of_specific {params : Params}
    (h : ¬ params.Given "suit_type" ∨ params.Gives "suit_type" "specific") :
    (params.text? "suit_type").getD "specific" = "specific" := by
  rcases h with hnone | hgives
  · rw [text?_eq_none_iff.mpr hnone, Option.getD_none]
  · rw [text?_eq_some_iff.mpr hgives, Option.getD_some]

/-- Another selection than the usual one is given. -/
theorem gives_of_getD {params : Params} {text : String}
    (h : (params.text? "suit_type").getD "specific" = text) (hother : text ≠ "specific") :
    params.Gives "suit_type" text := by
  rcases given_cases params "suit_type" with ⟨-, htext⟩ | ⟨given, hgives, htext⟩
  · rw [htext, Option.getD_none] at h
    exact absurd h.symm hother
  · rw [htext, Option.getD_some] at h
    exact h ▸ hgives

/-- What is selected is read so. -/
theorem choice_of_selects {params : Params} {suits : SuitChoice} (h : params.SelectsSuits suits) :
    choice params = .ok suits := by
  cases h with
  | specific htype hsuit =>
      simp only [choice, getD_of_specific htype, text?_eq_some_iff.mpr hsuit]
  | group htype hcolour =>
      simp only [choice, text?_eq_some_iff.mpr htype, text?_eq_some_iff.mpr hcolour,
        Option.getD_some, Tagged.ofTag?_tag]

/-- What is wrong with the suits is reported. -/
theorem choice_of_fault {params : Params} {e : CompileError} (h : params.SuitFault e) :
    choice params = .error e := by
  cases h with
  | noSuit htype hsuit =>
      simp only [choice, getD_of_specific htype, text?_eq_none_iff.mpr hsuit]
  | @noColour text htype htext hno =>
      rcases Tagged.ofTag?_cases SuitColour text with ⟨colour, hcolour, -⟩ | ⟨-, htag⟩
      · exact absurd hcolour (hno colour)
      · simp only [choice, text?_eq_some_iff.mpr htype, Option.getD_some, textOrEmpty_iff.mp htext,
          htag]
  | noSelection htype hspecific hgroup =>
      simp only [choice, text?_eq_some_iff.mpr htype, Option.getD_some]

/-- The suits of a condition are selected, or there is something wrong with them. -/
theorem selects_or_fault (params : Params) :
    (∃ suits, params.SelectsSuits suits) ∨ ∃ e, params.SuitFault e := by
  by_cases hspecific : (params.text? "suit_type").getD "specific" = "specific"
  · have htype := specific_of_getD hspecific
    rcases given_cases params "specific_suit" with ⟨hnone, -⟩ | ⟨name, hname, -⟩
    · exact .inr ⟨_, .noSuit htype hnone⟩
    · exact .inl ⟨_, .specific htype hname⟩
  · have htype := gives_of_getD rfl hspecific
    by_cases hgroup : (params.text? "suit_type").getD "specific" = "group"
    · rw [hgroup] at htype
      have htext := textOrEmpty_getD params "suit_group"
      rcases Tagged.ofTag?_cases SuitColour ((params.text? "suit_group").getD "") with
        ⟨colour, hcolour, -⟩ | ⟨hno, -⟩
      · rcases htext with hgives | ⟨-, hempty⟩
        · exact .inl ⟨_, .group htype (hcolour ▸ hgives)⟩
        · rw [hempty] at hcolour
          cases colour <;> exact absurd hcolour (by decide)
      · exact .inr ⟨_, .noColour htype htext hno⟩
    · exact .inr ⟨_, .noSelection htype hspecific hgroup⟩

/-- **The suits of a condition** are read as they are selected. -/
theorem choice_conforms (params : Params) :
    Conforms (choice params) (∃ suits, params.SelectsSuits suits) params.SelectsSuits
      params.SuitFault :=
  conforms_of_total (selects_or_fault params)
    (fun ⟨suits, hsuits⟩ => ⟨suits, choice_of_selects hsuits, hsuits⟩)
    fun _ => choice_of_fault

end DraftCondition

end JokerScript
