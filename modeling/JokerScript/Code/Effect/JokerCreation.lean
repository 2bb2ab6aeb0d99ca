import JokerScript.Code.Effect.Basic

/-!
# Creating Jokers

A joker is created by a scheduled event. Unless it brings a slot of its own or slots do
not matter, its slot is reserved at once, so that two creations in one evaluation cannot
both take the last slot.

## Main definitions

* `JokerCreation.code` — the code of the effect.
-/

namespace JokerScript

namespace JokerCreation

open Lua

/-- The local variable that tells whether a joker is created. -/
def created : String := "created_joker"

/-- The number of reserved slots. -/
def jokerBuffer : String := "G.GAME.joker_buffer"

/-- The name by which the game knows a rarity. -/
def rarityName (naming : Naming) : Rarity → String
  | .common => "Common"
  | .uncommon => "Uncommon"
  | .rare => "Rare"
  | .legendary => "Legendary"
  | .custom name => naming.rarityKey name

/-- What the game is told about the joker to create. -/
def cardSpec (naming : Naming) (selection : JokerChoice) : Expr :=
  let set := ("set", Expr.str "Joker")
  match selection with
  | .random => .record [set]
  | .specific key => .record [set, ("key", .str key)]
  | .ofRarity rarity => .record [set, ("rarity", .str (rarityName naming rarity))]

/-- The new card. -/
def newCard : Expr := .path "joker_card"

/-- The statement that gives the new card a property, if it is to have one. -/
def decoration (method : String) : Option String → Block
  | none => []
  | some name => [.run (.method newCard method [.str name, .bool true])]

/-- The statements that give the new card its edition and its sticker. -/
def decorations (params : JokerCreation) : Block :=
  decoration "set_edition" params.edition ++ decoration "add_sticker" params.sticker

/-- The event of the creation. -/
def creation (naming : Naming) (params : JokerCreation) : Block :=
  let decorate := params.decorations
  [.letLocal "joker_card" (.apply "SMODS.add_card" [cardSpec naming params.selection])] ++
    (if decorate.isEmpty then [] else [.ifThen newCard decorate]) ++
    (if params.skipsSlotCheck then [] else [.set jokerBuffer .zero]) ++
    [.returning (.bool true)]

/-- Is a slot free that nobody has reserved? -/
def hasRoom : Expr :=
  ((Expr.path "G.jokers.cards").length.plus (.path jokerBuffer)).lt
    (.path "G.jokers.config.card_limit")

/-- The creation, and the local variable that tells whether there is one. -/
def attempt (naming : Naming) (params : JokerCreation) : Block :=
  let event := scheduled (params.creation naming)
  if params.skipsSlotCheck then
    [.letLocal created (.bool true), event]
  else
    [.letLocal created (.bool false),
     .ifThen hasRoom
      [.set created (.bool true),
       .set jokerBuffer ((Expr.path jokerBuffer).plus .one),
       event]]

/-- The usual message. -/
def plusJoker : Expr := .apply "localize" [.str "k_plus_joker"]

/-- The code of the effect. There is none for a held joker. -/
def code (setting : Setting) (triggerClass : TriggerClass) (effect : Effect)
    (params : JokerCreation) : Resolver EffectBody := do
  let block := params.attempt setting.naming
  match triggerClass with
  | .scoring =>
    let usual := ((Expr.path created).and plusJoker).or .nil
    return { blocks := .beforeReturn block, message := some (effect.messageOr usual),
             colour := some .blue }
  | .immediate =>
    let announce := statusText (effect.messageOr plusJoker) .blue
    return { blocks := .callback (block ++ [.ifThen (.path created) [announce]]),
             colour := some .blue }
  | .passive => throw (effect.missingShape .passive)

end JokerCreation

end JokerScript
