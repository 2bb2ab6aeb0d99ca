import JokerScript.Joker.Effect

/-!
# Consumable Cards

The game knows a consumable card by a key. Authors name the card, within its set.

## Main definitions

* `ConsumableSet.cards` — the cards of a set, each with its key.
* `ConsumableSet.key` — the key of a card by name.
-/

namespace JokerScript

namespace ConsumableSet

/-- The cards of a set: the name of each with its key. -/
def cards : ConsumableSet → List (String × String)
  | tarot =>
    [("the_fool", "c_fool"), ("the_magician", "c_magician"),
      ("the_high_priestess", "c_high_priestess"), ("the_empress", "c_empress"),
      ("the_emperor", "c_emperor"), ("the_hierophant", "c_hierophant"),
      ("the_lovers", "c_lovers"), ("the_chariot", "c_chariot"), ("justice", "c_justice"),
      ("the_hermit", "c_hermit"), ("the_wheel_of_fortune", "c_wheel_of_fortune"),
      ("strength", "c_strength"), ("the_hanged_man", "c_hanged_man"), ("death", "c_death"),
      ("temperance", "c_temperance"), ("the_devil", "c_devil"), ("the_tower", "c_tower"),
      ("the_star", "c_star"), ("the_moon", "c_moon"), ("the_sun", "c_sun"),
      ("judgement", "c_judgement"), ("the_world", "c_world")]
  | planet =>
    [("pluto", "c_pluto"), ("mercury", "c_mercury"), ("uranus", "c_uranus"),
      ("venus", "c_venus"), ("saturn", "c_saturn"), ("jupiter", "c_jupiter"),
      ("earth", "c_earth"), ("mars", "c_mars"), ("neptune", "c_neptune"),
      ("planet_x", "c_planet_x"), ("ceres", "c_ceres"), ("eris", "c_eris")]
  | spectral =>
    [("familiar", "c_familiar"), ("grim", "c_grim"), ("incantation", "c_incantation"),
      ("talisman", "c_talisman"), ("aura", "c_aura"), ("wraith", "c_wraith"),
      ("sigil", "c_sigil"), ("ouija", "c_ouija"), ("ectoplasm", "c_ectoplasm"),
      ("immolate", "c_immolate"), ("ankh", "c_ankh"), ("deja_vu", "c_deja_vu"),
      ("hex", "c_hex"), ("trance", "c_trance"), ("medium", "c_medium"),
      ("cryptid", "c_cryptid"), ("the_soul", "c_soul"), ("black_hole", "c_black_hole")]

/-- The key of the first card of a set. -/
def firstKey : ConsumableSet → String
  | tarot => "c_fool"
  | planet => "c_pluto"
  | spectral => "c_familiar"

/-- The key of a card by name. A name that the set does not have stands for its first
card. -/
def key (set : ConsumableSet) (name : String) : String :=
  (set.cards.lookup name).getD set.firstKey

end ConsumableSet

end JokerScript
