import JokerScript.Proofs.Compile.Hooks
import JokerScript.Rendered.Basic

/-!
# Mods Put Together

Jokers do not influence each other. Two lists of jokers compile together exactly if each of them
compiles alone, and the texts of their jokers stay the same. What the lists share is the
replaced functions of the game, whose owners are those of the first list and then those of the
second.

## Main definitions

* `ModText.owners` — the owners of the replacement of a category.

## Main results

* `renderMod_append` — the texts of two lists of jokers together.
-/

namespace JokerScript

namespace ModText

/-- The owners of the replacement of a category; without a replacement there are none. -/
def owners (category : HookCategory) (output : ModText) : List JokerKey :=
  ((output.hooks.find? (·.category = category)).map (·.owners)).getD []

end ModText

/-! ### Mods -/

section Mods

variable {naming : Naming}

/-- The code of a joker is one. -/
theorem CompilesTo.rightUnique : Relator.RightUnique (CompilesTo naming) := by
  rintro p _ _ ⟨start, hstart, rfl⟩ ⟨start', hstart', rfl⟩
  rw [Except.ok.inj (hstart.symm.trans hstart')]

/-- **Jokers compile exactly if none of them repeats a number.** -/
theorem exists_compile_eq_ok (naming : Naming) (jokers : List Joker) :
    (∃ code, compile naming jokers = .ok code) ↔
      ∀ joker ∈ jokers, joker.numberNames.Nodup := by
  constructor
  · rintro ⟨code, hcode⟩ joker hjoker
    exact (compilesTo_of_compileWith hcode).1 _ (List.mem_map_of_mem hjoker)
  · intro h
    have hnodup : ∀ p ∈ jokers.map fun joker => (joker, ([] : List RuleFailure)),
        p.1.numberNames.Nodup := List.forall_mem_map.mpr h
    obtain ⟨code, hcode, -⟩ := compileWith_of_nodup naming hnodup
    exact ⟨code, hcode⟩

/-- The codes of two lists of jokers stand one after the other. -/
theorem jokers_compile_append {first second : List Joker} {code a b : ModCode}
    (h : compile naming (first ++ second) = .ok code) (ha : compile naming first = .ok a)
    (hb : compile naming second = .ok b) : code.jokers = a.jokers ++ b.jokers := by
  have htogether := (compilesTo_of_compileWith h).2
  rw [List.map_append] at htogether
  exact List.right_unique_forall₂' CompilesTo.rightUnique htogether
    (List.rel_append (compilesTo_of_compileWith ha).2 (compilesTo_of_compileWith hb).2)

end Mods

/-! ### Texts -/

section Texts

variable {config : Config}

theorem exists_renderMod_eq_ok (config : Config) (jokers : List Joker) :
    (∃ output, renderMod config jokers = .ok output) ↔
      ∃ code, compile config.toNaming jokers = .ok code := by
  constructor
  · rintro ⟨output, houtput⟩
    obtain ⟨code, hcode, -⟩ := exists_of_map_eq_ok houtput
    exact ⟨code, hcode⟩
  · rintro ⟨code, hcode⟩
    exact ⟨_, by rw [renderMod, hcode]; rfl⟩

/-- **The owners of a replacement** are those of the requests that the codes make. -/
theorem owners_render {jokers : List Joker} {code : ModCode}
    (h : compile config.toNaming jokers = .ok code) (category : HookCategory) :
    (code.render config.indentWidth).owners category =
      (requestsOf code.jokers category).map (·.owner) := by
  have hfind : ∀ hooks : List Patch,
      (hooks.map (Patch.render config.indentWidth)).find? (·.category = category) =
        (hooks.find? (·.category = category)).map (Patch.render config.indentWidth) :=
    fun hooks => List.find?_map
  rw [ModText.owners, ModCode.render, hfind, hooks_of_compileWith h, find?_mergedPatches]
  cases requestsOf code.jokers category <;> rfl

/-- **Jokers do not influence each other.** -/
theorem renderMod_append (config : Config) (first second : List Joker) :
    ((∃ output, renderMod config (first ++ second) = .ok output) ↔
      (∃ a, renderMod config first = .ok a) ∧ ∃ b, renderMod config second = .ok b) ∧
    ∀ output a b, renderMod config (first ++ second) = .ok output →
      renderMod config first = .ok a → renderMod config second = .ok b →
      output.jokers = a.jokers ++ b.jokers ∧
        ∀ category, output.owners category = a.owners category ++ b.owners category := by
  constructor
  · simp only [exists_renderMod_eq_ok, exists_compile_eq_ok]
    exact List.forall_mem_append
  · intro output a b houtput ha hb
    obtain ⟨code, hcode, rfl⟩ := exists_of_map_eq_ok houtput
    obtain ⟨codeA, hcodeA, rfl⟩ := exists_of_map_eq_ok ha
    obtain ⟨codeB, hcodeB, rfl⟩ := exists_of_map_eq_ok hb
    have hjokers := jokers_compile_append hcode hcodeA hcodeB
    refine ⟨by rw [ModCode.render, hjokers, List.map_append]; rfl, fun category => ?_⟩
    rw [owners_render hcode, owners_render hcodeA, owners_render hcodeB, hjokers,
      requestsOf_append, List.map_append]

/-- `merchant` and `haggler` together: the owners of the discounts are those of the first list and
then those of the second, and the suits are combined by the first list alone. -/
theorem renderMod_append_merchant : ∃ output a b,
    renderMod {} ([merchant] ++ [haggler]) = .ok output ∧ renderMod {} [merchant] = .ok a ∧
      renderMod {} [haggler] = .ok b ∧
      output.owners .discountItems = [⟨"merchant"⟩, ⟨"merchant"⟩, ⟨"haggler"⟩] ∧
      b.owners .combineSuits = [] ∧ output.jokers = a.jokers ++ b.jokers ∧
      ∀ category, output.owners category = a.owners category ++ b.owners category := by
  have hrun : ((renderMod {} [merchant]).toOption.map (·.owners .discountItems),
      (renderMod {} [haggler]).toOption.map fun output =>
        (output.owners .discountItems, output.owners .combineSuits)) =
      (some [⟨"merchant"⟩, ⟨"merchant"⟩], some ([⟨"haggler"⟩], [])) := by
    decide +kernel
  obtain ⟨honly, hjokers⟩ := renderMod_append {} [merchant] [haggler]
  cases ha : renderMod {} [merchant] with
  | error e => simp [ha, Except.toOption] at hrun
  | ok a =>
      cases hb : renderMod {} [haggler] with
      | error e => simp [hb, Except.toOption] at hrun
      | ok b =>
          obtain ⟨output, houtput⟩ := honly.mpr ⟨⟨a, ha⟩, b, hb⟩
          obtain ⟨hlists, howners⟩ := hjokers output a b houtput ha hb
          simp only [ha, hb, Except.toOption, Option.map_some, Prod.mk.injEq,
            Option.some.injEq] at hrun
          obtain ⟨hfirst, hsecond, hnone⟩ := hrun
          refine ⟨output, a, b, houtput, rfl, rfl, ?_, hnone, hlists, howners⟩
          rw [howners, hfirst, hsecond]
          rfl

end Texts

end JokerScript
