/-!
# Statement keywords

Every declaration opens with one of fifteen reserved words. `Keyword.ofSpelling?` recognises them,
upper case only, and `ofSpelling?_eq_some_iff` says that it recognises nothing else.
-/

namespace ResourceDecl

/-- Group of related keywords. -/
inductive Category
  | graphics
  | map
  | sprite
  | audio
  | binary
  | directive
deriving DecidableEq, Inhabited

/-- Name of the group as the language reference prints it. -/
def Category.label : Category → String
  | graphics => "graphics"
  | map => "map"
  | sprite => "sprite"
  | audio => "audio"
  | binary => "binary"
  | directive => "directive"

/-- The word that opens a declaration. -/
inductive Keyword
  | palette
  | bitmap
  | tileset
  | image
  | tilemap
  | map
  | objects
  | sprite
  | xgm
  | xgm2
  | wav
  | bin
  | align
  | ungroup
  | near
deriving DecidableEq, Inhabited

/-- Whether a word of the language is still recommended. -/
inductive Stability
  | stable
  | deprecated
deriving DecidableEq, Inhabited

/-- Name of the status as listings print it. -/
def Stability.label : Stability → String
  | stable => "Stable"
  | deprecated => "Deprecated"

/-- A sample declaration for the language reference. -/
structure Example where
  code : String
  note : Option String
deriving DecidableEq, Inhabited

namespace Keyword

/-- All keywords, in the order of the language reference. -/
def all : List Keyword :=
  [palette, bitmap, tileset, image, tilemap, map, objects, sprite, xgm, xgm2, wav, bin, align,
   ungroup, near]

theorem mem_all (k : Keyword) : k ∈ all := by
  cases k <;> decide

/-- How the keyword is written. -/
def spelling : Keyword → String
  | palette => "PALETTE"
  | bitmap => "BITMAP"
  | tileset => "TILESET"
  | image => "IMAGE"
  | tilemap => "TILEMAP"
  | map => "MAP"
  | objects => "OBJECTS"
  | sprite => "SPRITE"
  | xgm => "XGM"
  | xgm2 => "XGM2"
  | wav => "WAV"
  | bin => "BIN"
  | align => "ALIGN"
  | ungroup => "UNGROUP"
  | near => "NEAR"

theorem spelling_injective {k l : Keyword} : k.spelling = l.spelling → k = l := by
  cases k <;> cases l <;> decide

/-- The keyword with this exact spelling. -/
def ofSpelling? (word : String) : Option Keyword :=
  all.find? fun k => k.spelling == word

theorem ofSpelling?_eq_some_iff {word : String} {k : Keyword} :
    ofSpelling? word = some k ↔ k.spelling = word := by
  constructor
  · intro h
    simpa using List.find?_some h
  · rintro rfl
    cases k <;> decide

/-- The group the keyword belongs to. -/
def category : Keyword → Category
  | palette | bitmap | tileset | image => .graphics
  | tilemap | map | objects => .map
  | sprite => .sprite
  | xgm | xgm2 | wav => .audio
  | bin => .binary
  | align | ungroup | near => .directive

/-- What the declaration is for. -/
def description : Keyword → String
  | palette => "Palette extracted from an image or a .pal file."
  | bitmap => "Bitmap image, optionally compressed."
  | tileset => "Tileset built from an image, with optional optimisation and ordering."
  | image => "Image resource: tileset + tilemap + palette in one declaration."
  | tilemap => "Tilemap from an image (against a tileset) or from a TMX layer."
  | map => "Metatile map from an image (against a tileset) or from a TMX layer."
  | objects => "Object layer extracted from a TMX file."
  | sprite =>
    "Sprite sheet with frame size, animation timing, collision and optimisation settings."
  | xgm => "VGM/XGM music track for the XGM driver."
  | xgm2 => "One or more music tracks packed for the XGM2 driver."
  | wav => "PCM sample converted for the selected sound driver."
  | bin => "Raw binary blob with optional alignment, padding and compression."
  | align => "Align the following resource data, optionally to an explicit boundary."
  | ungroup => "Disable resource grouping by type for the rest of the file."
  | near => "Force the following resources into the near (non-bank-switched) area."

/-- The release of the language that introduced the keyword. -/
def since (_ : Keyword) : String := "3.0"

/-- No keyword is deprecated yet. -/
def stability (_ : Keyword) : Stability := .stable

/-- Sample declarations. -/
def examples : Keyword → List Example
  | palette => [⟨"PALETTE pal_main \"main.png\"", none⟩]
  | bitmap => [⟨"BITMAP logo \"logo.png\" LZ4W", none⟩]
  | tileset => [⟨"TILESET ts_bg \"bg.png\" BEST ALL ROW TRUE", none⟩]
  | image => [⟨"IMAGE title \"title.png\" BEST ALL 0", none⟩]
  | tilemap =>
    [⟨"TILEMAP level1 \"level1.png\" ts_bg BEST ALL 0 ROW", some "Image form."⟩,
     ⟨"TILEMAP level1 \"level1.tmx\" \"ground\" BEST BEST 0", some "TMX form."⟩]
  | map =>
    [⟨"MAP world \"world.png\" \"ts_world\" BEST 0", some "Image form."⟩,
     ⟨"MAP world \"world.tmx\" \"layer1\" NONE NONE 0 ROW", some "TMX form."⟩]
  | objects =>
    [⟨"OBJECTS enemies \"level.tmx\" \"objects\" \"x:f32;y:f32\" \"sortby:x\" \"Enemy\"", none⟩]
  | sprite => [⟨"SPRITE player \"player.png\" 4 4 FAST 5 BOX", none⟩]
  | xgm => [⟨"XGM music \"music.vgm\" AUTO", none⟩]
  | xgm2 => [⟨"XGM2 tracks \"a.vgm\" \"b.vgm\"", none⟩]
  | wav => [⟨"WAV jump \"jump.wav\" XGM2", none⟩]
  | bin => [⟨"BIN table \"table.bin\" 256 2 0 NONE FALSE", none⟩]
  | align => [⟨"ALIGN 131072", none⟩]
  | ungroup => []
  | near => []

end Keyword

end ResourceDecl
