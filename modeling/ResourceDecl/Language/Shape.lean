import ResourceDecl.Language.Keyword
import ResourceDecl.Language.Vocabulary

/-!
# Shapes of declarations

A `Shape` lists the fields that may follow a keyword: the required ones in order, then chains of
optional ones. Within a chain a field can only be given together with all fields in front of it.
`TILEMAP` and `MAP` have one shape for maps drawn as an image and one for layers of a TMX map; the
other keywords have a single shape (`Keyword.shapes`).
-/

namespace ResourceDecl

/-- Name of a field, over all shapes. -/
inductive FieldName
  | name
  | file
  | imgFile
  | tilesetId
  | tmxFile
  | layerId
  | fieldDefs
  | sortBy
  | declType
  | typeFilter
  | compression
  | optimization
  | ordering
  | exported
  | mapOpt
  | mapBase
  | tsCompression
  | mapCompression
  | width
  | height
  | time
  | collision
  | optType
  | optLevel
  | optDuplicate
  | timing
  | options
  | wavFile
  | driver
  | outRate
  | far
  | align
  | sizeAlign
  | fill
  | value
deriving DecidableEq, Inhabited

namespace FieldName

/-- All field names. -/
def all : List FieldName :=
  [name, file, imgFile, tilesetId, tmxFile, layerId, fieldDefs, sortBy, declType, typeFilter,
   compression, optimization, ordering, exported, mapOpt, mapBase, tsCompression, mapCompression,
   width, height, time, collision, optType, optLevel, optDuplicate, timing, options, wavFile,
   driver, outRate, far, align, sizeAlign, fill, value]

/-- How messages and listings spell the name. -/
def text : FieldName → String
  | name => "name"
  | file => "file"
  | imgFile => "img_file"
  | tilesetId => "tileset_id"
  | tmxFile => "tmx_file"
  | layerId => "layer_id"
  | fieldDefs => "field_defs"
  | sortBy => "sortby"
  | declType => "decl_type"
  | typeFilter => "type_filter"
  | compression => "compression"
  | optimization => "optimization"
  | ordering => "ordering"
  | exported => "export"
  | mapOpt => "map_opt"
  | mapBase => "map_base"
  | tsCompression => "ts_compression"
  | mapCompression => "map_compression"
  | width => "width"
  | height => "height"
  | time => "time"
  | collision => "collision"
  | optType => "opt_type"
  | optLevel => "opt_level"
  | optDuplicate => "opt_duplicate"
  | timing => "timing"
  | options => "options"
  | wavFile => "wav_file"
  | driver => "driver"
  | outRate => "out_rate"
  | far => "far"
  | align => "align"
  | sizeAlign => "size_align"
  | fill => "fill"
  | value => "value"

/-- The field with this spelling. -/
def ofText? (text : String) : Option FieldName :=
  all.find? fun n => n.text == text

end FieldName

/-- Which of its two shapes a map declaration has. -/
inductive Form
  | image
  | tmx
deriving DecidableEq, Inhabited

/-- How listings spell the form. -/
def Form.text : Form → String
  | image => "image"
  | tmx => "tmx"

/-- What a field accepts. -/
inductive FieldClass
  | ident
  | str
  /-- A tileset is named by an identifier or by a string. -/
  | identOrStr
  /-- One or more strings. -/
  | strs
  | int
  /-- An integer with an optional unit. -/
  | size
  /-- An integer, an array of them, or an array of arrays. -/
  | time
  | sortKey
  | choice (vocabulary : Vocabulary)
deriving DecidableEq, Inhabited

namespace FieldClass

/-- How messages describe what is accepted. -/
def describe : FieldClass → String
  | ident => "an identifier"
  | str => "a string literal"
  | identOrStr => "an identifier or string literal"
  | strs => "one or more string literals"
  | int => "an integer"
  | size => "a size such as 4, 32p or 2f"
  | time => "an integer or integer array"
  | sortKey => "a \"sortby:<field>\" literal"
  | choice vocabulary => "one of " ++ vocabulary.expected

/-- The vocabulary of a field that accepts a fixed list of words. -/
def vocabulary? : FieldClass → Option Vocabulary
  | choice vocabulary => some vocabulary
  | _ => none

end FieldClass

/-- One position of a shape. -/
structure FieldSpec where
  name : FieldName
  accepts : FieldClass
deriving DecidableEq, Inhabited

/-- How messages describe the position. -/
def FieldSpec.describe (spec : FieldSpec) : String :=
  spec.name.text ++ " (" ++ spec.accepts.describe ++ ")"

/-- The fields that may follow a keyword. -/
structure Shape where
  required : List FieldSpec
  chains : List (List FieldSpec)
deriving DecidableEq, Inhabited

/-- All positions in order. -/
def Shape.fields (shape : Shape) : List FieldSpec :=
  shape.required ++ shape.chains.flatten

/-- The shapes of a keyword. -/
inductive Shapes
  | single (shape : Shape)
  | byForm (image tmx : Shape)
deriving DecidableEq, Inhabited

namespace Shapes

/-- The shape of a form; only maps have forms. -/
def shape? : Shapes → Option Form → Option Shape
  | single shape, none => some shape
  | byForm image _, some .image => some image
  | byForm _ tmx, some .tmx => some tmx
  | _, _ => none

/-- There is a choice of forms. -/
def hasForms : Shapes → Bool
  | single _ => false
  | byForm _ _ => true

end Shapes

/-! ## The table of shapes -/

namespace FieldSpec

/-- The name that a declaration gives to its resource. -/
def resourceName : FieldSpec := ⟨.name, .ident⟩

/-- A field with a word of a vocabulary. -/
def word (field : FieldName) (vocabulary : Vocabulary) : FieldSpec := ⟨field, .choice vocabulary⟩

end FieldSpec

open FieldSpec in
/-- The shapes of a keyword. -/
def Keyword.shapes : Keyword → Shapes
  | palette => .single ⟨[resourceName, ⟨.file, .str⟩], []⟩
  | bitmap => .single ⟨[resourceName, ⟨.imgFile, .str⟩], [[word .compression .compression]]⟩
  | tileset =>
    .single
      ⟨[resourceName, ⟨.file, .str⟩],
       [[word .compression .compression, word .optimization .optimization,
         word .ordering .ordering, word .exported .exportFlag]]⟩
  | image =>
    .single
      ⟨[resourceName, ⟨.imgFile, .str⟩],
       [[word .compression .compression, word .mapOpt .optimization, ⟨.mapBase, .int⟩]]⟩
  | tilemap =>
    .byForm
      ⟨imageFields,
       [[word .compression .compression, word .mapOpt .optimization, ⟨.mapBase, .int⟩,
         word .ordering .ordering]]⟩
      ⟨tmxFields,
       [[word .tsCompression .compression, word .mapCompression .compression,
         ⟨.mapBase, .int⟩]]⟩
  | map =>
    .byForm
      ⟨imageFields, [[word .compression .compression, ⟨.mapBase, .int⟩]]⟩
      ⟨tmxFields,
       [[word .tsCompression .compression, word .mapCompression .compression,
         ⟨.mapBase, .int⟩, word .ordering .ordering]]⟩
  | objects =>
    .single
      ⟨tmxFields ++ [⟨.fieldDefs, .str⟩],
       [[⟨.sortBy, .sortKey⟩], [⟨.declType, .str⟩, ⟨.typeFilter, .str⟩]]⟩
  | sprite =>
    .single
      ⟨[resourceName, ⟨.imgFile, .str⟩, ⟨.width, .size⟩, ⟨.height, .size⟩],
       [[word .compression .compression, ⟨.time, .time⟩, word .collision .collision,
         word .optType .cutterGoal, word .optLevel .cutterEffort,
         word .optDuplicate .duplicateFlag]]⟩
  | xgm =>
    .single ⟨[resourceName, ⟨.file, .str⟩], [[word .timing .timing, ⟨.options, .str⟩]]⟩
  | xgm2 => .single ⟨[resourceName, ⟨.file, .strs⟩], []⟩
  | wav =>
    .single
      ⟨[resourceName, ⟨.wavFile, .str⟩, word .driver .soundDriver],
       [[⟨.outRate, .int⟩, word .far .farFlag]]⟩
  | bin =>
    .single
      ⟨[resourceName, ⟨.file, .str⟩],
       [[⟨.align, .int⟩, ⟨.sizeAlign, .int⟩, ⟨.fill, .int⟩, word .compression .compression,
         word .far .farFlag]]⟩
  | align => .single ⟨[], [[⟨.value, .int⟩]]⟩
  | ungroup => .single ⟨[], []⟩
  | near => .single ⟨[], []⟩
where
  /-- A map drawn as an image names the tileset that it is matched against. -/
  imageFields : List FieldSpec :=
    [resourceName, ⟨.imgFile, .str⟩, ⟨.tilesetId, .identOrStr⟩]
  /-- A map taken from a TMX file names the layer. -/
  tmxFields : List FieldSpec :=
    [resourceName, ⟨.tmxFile, .str⟩, ⟨.layerId, .str⟩]

namespace Keyword

/-- The shape of a keyword in a form. -/
def shape? (k : Keyword) (form : Option Form) : Option Shape :=
  k.shapes.shape? form

/-- The declaration has an image form and a TMX form. -/
def hasForms (k : Keyword) : Bool :=
  k.shapes.hasForms

end Keyword

/-- No shape names a field twice, so a field is found by its name. -/
theorem Shape.nodup_fields {k : Keyword} {form : Option Form} {shape : Shape}
    (h : k.shape? form = some shape) : (shape.fields.map FieldSpec.name).Nodup := by
  revert h
  cases k <;> rcases form with _ | _ | _ <;> rintro ⟨⟩ <;> decide

end ResourceDecl
