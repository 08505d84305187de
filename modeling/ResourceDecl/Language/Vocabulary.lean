/-!
# Closed vocabularies

Some fields accept only a fixed list of words (compression, ordering, sound driver, ...). A word
belongs to a vocabulary only in its exact spelling, and the same word may belong to several.
-/

namespace ResourceDecl

/-- A fixed list of words that a field accepts. -/
inductive Vocabulary
  | compression
  | optimization
  | ordering
  | exportFlag
  | farFlag
  | collision
  | cutterGoal
  | cutterEffort
  | duplicateFlag
  | timing
  | soundDriver
deriving DecidableEq, Inhabited

namespace Vocabulary

/-- All vocabularies, in the order of the language reference. -/
def all : List Vocabulary :=
  [compression, optimization, ordering, exportFlag, farFlag, collision, cutterGoal, cutterEffort,
   duplicateFlag, timing, soundDriver]

theorem mem_all (v : Vocabulary) : v ∈ all := by
  cases v <;> decide

/-- What messages call the vocabulary. -/
def name : Vocabulary → String
  | compression => "compression"
  | optimization => "optimization"
  | ordering => "ordering"
  | exportFlag => "export flag"
  | farFlag => "far flag"
  | collision => "collision"
  | cutterGoal => "optimization type"
  | cutterEffort => "optimization level"
  | duplicateFlag => "duplicate optimization flag"
  | timing => "timing"
  | soundDriver => "driver"

theorem name_injective {v w : Vocabulary} : v.name = w.name → v = w := by
  cases v <;> cases w <;> decide

/-- The vocabulary with this name. -/
def ofName? (name : String) : Option Vocabulary :=
  all.find? fun v => v.name == name

/-- The accepted words, in the order in which messages list them. -/
def spellings : Vocabulary → List String
  | compression => ["-1", "0", "1", "2", "AUTO", "BEST", "NONE", "APLIB", "FAST", "LZ4W"]
  | optimization => ["0", "1", "2", "NONE", "ALL", "DUPLICATE"]
  | ordering => ["ROW", "COLUMN"]
  | exportFlag => ["0", "1", "FALSE", "TRUE"]
  | farFlag => ["FALSE", "TRUE"]
  | collision => ["CIRCLE", "BOX", "NONE"]
  | cutterGoal => ["0", "1", "2", "3", "BALANCED", "SPRITE", "TILE", "NONE"]
  | cutterEffort => ["0", "1", "2", "3", "FAST", "MEDIUM", "SLOW", "MAX"]
  | duplicateFlag => ["FALSE", "TRUE"]
  | timing => ["-1", "0", "1", "AUTO", "NTSC", "PAL"]
  | soundDriver => ["DEFAULT", "PCM", "DPCM2", "PCM4", "XGM", "XGM2"]

/-- What the vocabulary decides. -/
def description : Vocabulary → String
  | compression =>
    "Packer selection. -1/AUTO/BEST pick the smallest result, 0/NONE stores raw data."
  | optimization => "Tile deduplication: none, full (flip-aware), or exact duplicates only."
  | ordering => "Tile traversal order when reading the source image."
  | exportFlag => "Whether the tileset is exported as a standalone resource."
  | farFlag => "Whether the resource is placed in the far (bank-switched) area."
  | collision => "Collision shape generated for each sprite frame."
  | cutterGoal =>
    "What the sprite cutter minimizes: hardware sprites, tiles, or a balance of both."
  | cutterEffort => "Effort spent by the sprite cutter."
  | duplicateFlag => "Whether identical frames share their tile data."
  | timing => "Playback timing of an XGM track."
  | soundDriver => "Sound driver the sample is converted for."

/-- The word is one of the accepted spellings. -/
instance : Membership String Vocabulary where
  mem v word := word ∈ v.spellings

instance (word : String) (v : Vocabulary) : Decidable (word ∈ v) :=
  inferInstanceAs (Decidable (word ∈ v.spellings))

/-- The word as the vocabulary spells it, if it is accepted. -/
def lookup (v : Vocabulary) (word : String) : Option String :=
  if word ∈ v then some word else none

/-- The accepted words as a message lists them: `A, B or C`. -/
def expected (v : Vocabulary) : String :=
  match v.spellings.reverse with
  | [] => ""
  | [only] => only
  | last :: rest => String.intercalate ", " rest.reverse ++ " or " ++ last

end Vocabulary

end ResourceDecl
