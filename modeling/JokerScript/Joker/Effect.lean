import JokerScript.Identity
import JokerScript.Joker.Quantity
import JokerScript.Joker.Suit

/-!
# Effects

An effect is of one of seven kinds, and each kind has exactly the parameters that it
needs.

## Main definitions

* `JokerCreation`, `ConsumableRemoval`, `HandChange`, `BlindChange` — what happens when a
  rule fires.
* `Discount`, `RerollGrant`, `SuitPair` — what holds while the joker is held.
* `EffectKind`, `Effect` — effects as authored.
-/

namespace JokerScript

/-! ### Creating jokers -/

/-- A rarity of jokers. -/
inductive Rarity
  | common
  | uncommon
  | rare
  | legendary
  /-- A rarity that the mod defines. -/
  | custom (name : String)
deriving DecidableEq, Repr

namespace Rarity

/-- The rarity of a name. A name in any letter case that the game does not know is a
rarity of the mod. -/
def ofName (name : String) : Rarity :=
  let word := asciiLower name
  if word = "common" then common
  else if word = "uncommon" then uncommon
  else if word = "rare" then rare
  else if word = "legendary" then legendary
  else custom name

end Rarity

/-- Which joker is created. -/
inductive JokerChoice
  | random
  | ofRarity (rarity : Rarity)
  /-- The joker that the game knows by this key. -/
  | specific (key : String)
deriving DecidableEq, Repr

/-- The edition whose jokers bring a slot of their own. -/
def negativeEdition : String := "e_negative"

/-- A joker to create. -/
structure JokerCreation where
  selection : JokerChoice := .random
  edition : Option String := none
  sticker : Option String := none
  /-- Create the joker even where there is no slot for it. -/
  ignoreSlots : Bool := false
deriving DecidableEq, Repr

namespace JokerCreation

/-- Is the joker created whether or not a slot is free? -/
def skipsSlotCheck (params : JokerCreation) : Bool :=
  params.ignoreSlots || params.edition == some negativeEdition

end JokerCreation

/-! ### Destroying consumables -/

/-- A set of consumable cards. -/
inductive ConsumableSet
  | tarot
  | planet
  | spectral
deriving DecidableEq, Repr

instance : Tagged ConsumableSet where
  all := [.tarot, .planet, .spectral]
  tag
    | .tarot => "tarot"
    | .planet => "planet"
    | .spectral => "spectral"
  find_tag := by intro a; cases a <;> rfl

namespace ConsumableSet

/-- The name by which the game knows the set. -/
def name : ConsumableSet → String
  | tarot => "Tarot"
  | planet => "Planet"
  | spectral => "Spectral"

end ConsumableSet

/-- Which consumable is destroyed. -/
inductive ConsumableChoice
  | any
  /-- One of a set, or one card of the set by name. -/
  | ofSet (set : ConsumableSet) (card : Option String)
deriving DecidableEq, Repr

/-- A consumable to destroy. -/
structure ConsumableRemoval where
  target : ConsumableChoice := .any
deriving DecidableEq, Repr

/-! ### Editing hands -/

/-- What happens to the number of hands. -/
inductive HandOperation
  | add
  | subtract
  | set
deriving DecidableEq, Repr

instance : Tagged HandOperation where
  all := [.add, .subtract, .set]
  tag
    | .add => "add"
    | .subtract => "subtract"
    | .set => "set"
  find_tag := by intro a; cases a <;> rfl

/-- How long the change lasts. -/
inductive Duration
  /-- The hands of every round change. -/
  | permanent
  /-- The hands left in this round change. -/
  | round
deriving DecidableEq, Repr

instance : Tagged Duration where
  all := [.permanent, .round]
  tag
    | .permanent => "permanent"
    | .round => "round"
  find_tag := by intro a; cases a <;> rfl

/-- A change to the number of hands. -/
structure HandChange where
  operation : HandOperation := .add
  duration : Duration := .permanent
  value : Quantity
deriving DecidableEq, Repr

/-! ### Modifying the blind -/

/-- What happens to the chips that the blind asks for. -/
inductive BlindOperation
  | add
  | subtract
  | multiply
  | divide
  | set
deriving DecidableEq, Repr

instance : Tagged BlindOperation where
  all := [.add, .subtract, .multiply, .divide, .set]
  tag
    | .add => "add"
    | .subtract => "subtract"
    | .multiply => "multiply"
    | .divide => "divide"
    | .set => "set"
  find_tag := by intro a; cases a <;> rfl

/-- A change to the chips that the blind asks for. -/
structure BlindChange where
  operation : BlindOperation := .multiply
  value : Quantity
deriving DecidableEq, Repr

/-! ### Discounts -/

/-- The cards of the shop that a discount covers. -/
inductive DiscountTarget
  | planet
  | tarot
  | spectral
  | standard
  | jokers
  | vouchers
  | allConsumables
  | allCards
  | allShopItems
deriving DecidableEq, Repr

instance : Tagged DiscountTarget where
  all := [.planet, .tarot, .spectral, .standard, .jokers, .vouchers, .allConsumables,
    .allCards, .allShopItems]
  tag
    | .planet => "planet"
    | .tarot => "tarot"
    | .spectral => "spectral"
    | .standard => "standard"
    | .jokers => "jokers"
    | .vouchers => "vouchers"
    | .allConsumables => "all_consumables"
    | .allCards => "all_cards"
    | .allShopItems => "all_shop_items"
  find_tag := by intro a; cases a <;> rfl

/-- How a discount changes a cost. -/
inductive DiscountMethod
  /-- The cost becomes zero. -/
  | makeFree
  /-- The amount is taken off. -/
  | flatReduction
  /-- The amount is taken off in percent, and the cost rounded down. -/
  | percentageReduction
deriving DecidableEq, Repr

instance : Tagged DiscountMethod where
  all := [.makeFree, .flatReduction, .percentageReduction]
  tag
    | .makeFree => "make_free"
    | .flatReduction => "flat_reduction"
    | .percentageReduction => "percentage_reduction"
  find_tag := by intro a; cases a <;> rfl

/-- A discount. -/
structure Discount where
  target : DiscountTarget := .planet
  method : DiscountMethod := .makeFree
  amount : Number := Number.one
deriving DecidableEq, Repr

/-! ### Rerolls and suits -/

/-- Rerolls of the shop without cost. -/
structure RerollGrant where
  amount : Number := Number.one
deriving DecidableEq, Repr

/-- Two suits, each of which counts as the other. -/
structure SuitPair where
  first : Suit
  second : Suit
deriving DecidableEq, Repr

/-! ### Effects -/

/-- An effect by its kind. -/
inductive EffectKind
  | createJoker (params : JokerCreation)
  | destroyConsumable (params : ConsumableRemoval)
  | editHand (params : HandChange)
  | modifyBlind (params : BlindChange)
  | discountItems (params : Discount)
  | freeRerolls (params : RerollGrant)
  | combineSuits (params : SuitPair)
deriving DecidableEq, Repr

namespace EffectKind

/-- The tag of the kind. -/
def tag : EffectKind → String
  | createJoker _ => "create_joker"
  | destroyConsumable _ => "destroy_consumable"
  | editHand _ => "edit_hand"
  | modifyBlind _ => "modify_blind_requirement"
  | discountItems _ => "discount_items"
  | freeRerolls _ => "free_rerolls"
  | combineSuits _ => "combine_suits"

end EffectKind

/-- An effect of a rule. -/
structure Effect where
  id : EffectId
  kind : EffectKind
  /-- The text shown in place of the usual one. -/
  customMessage : Option String := none
deriving DecidableEq, Repr

end JokerScript
