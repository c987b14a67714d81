import TriggerLang.Catalog.Basic

/-!
# The built-in catalog

The functions and triggers of the game, for scripts that bring no catalog of their own.
-/

namespace TriggerLang.Catalog

/-- Functions that change the game. -/
def actionSignatures : List Signature :=
  [⟨"setHealth", [⟨"entity", "unit"⟩, ⟨"value", "number"⟩],
      "action", "action", "set health of entity"⟩,
    ⟨"sendChatMessage", [⟨"message", "string"⟩],
      "action", "action", "send chat message to everyone"⟩,
    ⟨"sendChatMessageToPlayer", [⟨"message", "string"⟩, ⟨"player", "player"⟩],
      "action", "action", "send chat message to player"⟩,
    ⟨"createUnitForPlayerAtPosition",
      [⟨"unitType", "unitType"⟩, ⟨"player", "player"⟩, ⟨"position", "position"⟩,
        ⟨"angle", "number"⟩],
      "action", "action", "create unit for player at position"⟩,
    ⟨"destroyEntity", [⟨"entity", "unit"⟩], "action", "action", "destroy entity"⟩,
    ⟨"moveEntity", [⟨"entity", "unit"⟩, ⟨"position", "position"⟩],
      "action", "action", "move entity to position"⟩,
    ⟨"setVariable", [⟨"variableName", "string"⟩, ⟨"value", "any"⟩],
      "action", "action", "set variable"⟩,
    ⟨"runScript", [⟨"scriptName", "script"⟩], "action", "action", "run script"⟩,
    ⟨"giveNewItemToUnit", [⟨"itemType", "itemType"⟩, ⟨"unit", "unit"⟩],
      "action", "action", "give new item to unit"⟩,
    ⟨"setPlayerAttribute",
      [⟨"attribute", "attributeType"⟩, ⟨"player", "player"⟩, ⟨"value", "number"⟩],
      "action", "action", "set player attribute"⟩,
    ⟨"playSound", [⟨"sound", "string"⟩, ⟨"position", "position"⟩],
      "action", "action", "play sound at position"⟩]

/-- Functions that name players and units. -/
def entitySignatures : List Signature :=
  [⟨"triggeringPlayer", [], "player", "player", "triggering player"⟩,
    ⟨"triggeringUnit", [], "unit", "unit", "triggering unit"⟩,
    ⟨"thisEntity", [], "any", "entity", "this entity"⟩,
    ⟨"ownerOfEntity", [⟨"entity", "unit"⟩], "player", "player", "owner of entity"⟩,
    ⟨"getUnitType", [⟨"unit", "unit"⟩], "unitType", "unit", "type of unit"⟩]

/-- Functions that compute numbers, texts, positions and truth values. -/
def valueSignatures : List Signature :=
  [⟨"getEntityAttribute", [⟨"attribute", "attributeType"⟩, ⟨"entity", "unit"⟩],
      "number", "number", "attribute value of entity"⟩,
    ⟨"getPlayerName", [⟨"player", "player"⟩], "string", "string", "name of player"⟩,
    ⟨"concat", [⟨"textA", "string"⟩, ⟨"textB", "string"⟩],
      "string", "string", "concatenate text"⟩,
    ⟨"getEntityPosition", [⟨"entity", "unit"⟩], "position", "position", "position of entity"⟩,
    ⟨"xyCoordinate", [⟨"x", "number"⟩, ⟨"y", "number"⟩], "position", "position", "coordinate"⟩,
    ⟨"randomNumberBetween", [⟨"min", "number"⟩, ⟨"max", "number"⟩],
      "number", "number", "random number between"⟩,
    ⟨"getNumberOfUnitsOfUnitType", [⟨"unitType", "unitType"⟩],
      "number", "number", "number of units of unit type"⟩,
    ⟨"playerIsControlledByHuman", [⟨"player", "player"⟩],
      "boolean", "boolean", "player is controlled by a human"⟩]

/-- The events that start a script. -/
def triggerNames : List String :=
  ["gameStart", "secondTick", "frameTick", "playerJoinsGame", "playerLeavesGame",
    "unitDies", "unitAttacksUnit", "unitEntersRegion", "unitUsesItem"]

/-- The catalog of the game. -/
def builtin : Catalog where
  functions :=
    (actionSignatures ++ entitySignatures ++ valueSignatures).map fun signature =>
      (signature.key, signature)
  triggers := triggerNames
  keyed := by
    intro entry h
    obtain ⟨signature, -, rfl⟩ := List.mem_map.mp h
    rfl

end TriggerLang.Catalog
