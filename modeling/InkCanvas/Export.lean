import InkCanvas.Raster.Png
import InkCanvas.Session.Basic
import InkCanvas.Stored.Ink

/-! # Exported pictures

The strokes of a canvas are exported as a picture that shows all of their ink, centered and as
large as the size allows. Such a picture can be sent to a recognizer as `OcrRequest`. -/

namespace InkCanvas

open Json

/-- How a canvas is exported. -/
structure ExportOptions (α : Type) where
  /-- How many pixels wide the picture is. -/
  width : UInt32
  /-- How many pixels high the picture is. -/
  height : UInt32
  /-- How many pixels stay free on each side. -/
  padding : α
  /-- The color below all ink. -/
  background : Color

namespace ExportOptions

/-- The options of an export that is given none. -/
def standard {α : Type} [Scalar α] : ExportOptions α := ⟨800, 400, Scalar.ofNat 24, .white⟩

/-- Export options as they are stored. -/
def toJson (o : ExportOptions Float) : Value :=
  .ofFields [("width", .ofNat o.width.toNat), ("height", .ofNat o.height.toNat),
    ("padding", .ofFloat o.padding), ("background", o.background.toJson)]

/-- The export options that are stored. What is not stored is as in the standard options. -/
def ofJson? (v : Value) : Option (ExportOptions Float) := do
  let f ← Fields.ofValue? ["width", "height", "padding", "background"] v
  let d : ExportOptions Float := standard
  return ⟨← f.getD? "width" d.width Value.toUInt32?, ← f.getD? "height" d.height Value.toUInt32?,
    ← f.getD? "padding" d.padding Value.toFloat?,
    ← f.getD? "background" d.background Color.ofJson?⟩

end ExportOptions

namespace Export

section

variable {α : Type} [Scalar α]

/-- The viewport that shows the ink of all strokes, if there are any. -/
def view? (strokes : List (Stroke α)) (o : ExportOptions α) : Option (Viewport α) :=
  (contentBounds strokes).map fun bounds =>
    Viewport.initial.fit bounds (Scalar.ofNat o.width.toNat) (Scalar.ofNat o.height.toNat)
      o.padding

/-- The frame that shows all strokes, if there are any. -/
def frame? (inks : List (Inked α)) (o : ExportOptions α) : Option (Frame α) :=
  (view? (inks.map Inked.stroke) o).map fun view =>
    ⟨inks.map fun ink => Mark.resolve (some ink.id) ink.stroke.path ink.stroke view, none, view, 0⟩

end

/-- The picture of all strokes. -/
def picture (inks : List (Inked Float)) (o : ExportOptions Float) : Except RenderError Picture :=
  match frame? inks o with
  | none => .error .emptyCanvas
  | some frame => Picture.ofFrame frame o.width.toNat o.height.toNat o.background

/-- The file of an image. -/
def encode (i : Image) : Except RenderError ByteArray :=
  match Png.encode? i with
  | some file => .ok file
  | none => .error .encoding

/-- The file with the picture of all strokes. -/
def png (inks : List (Inked Float)) (o : ExportOptions Float) : Except RenderError ByteArray := do
  encode (.ofPicture (← picture inks o))

end Export

/-! ## Requests -/

namespace Base64

/-- The 64 digits. -/
def alphabet : List Char :=
  "ABCDEFGHIJKLMNOPQRSTUVWXYZabcdefghijklmnopqrstuvwxyz0123456789+/".toList

/-- The digit of a number below 64. -/
def digit (n : Nat) : Char := alphabet.getD n '='

/-- The four digits of up to three bytes, filled up with equals signs. -/
def group : List UInt8 → List Char
  | [] => []
  | [a] =>
    let n := a.toNat * 16
    [digit (n / 64), digit (n % 64), '=', '=']
  | [a, b] =>
    let n := (a.toNat * 256 + b.toNat) * 4
    [digit (n / 4096), digit (n / 64 % 64), digit (n % 64), '=']
  | a :: b :: c :: _ =>
    let n := (a.toNat * 256 + b.toNat) * 256 + c.toNat
    [digit (n / 262144), digit (n / 4096 % 64), digit (n / 64 % 64), digit (n % 64)]

/-- The text of a sequence of bytes, three at a time. -/
def encode (bytes : ByteArray) : String :=
  String.ofList ((List.range ((bytes.size + 2) / 3)).flatMap fun i =>
    group (bytes.extract (3 * i) (3 * i + 3)).toList)

end Base64

/-- What is sent to a recognizer: a picture, spelled as an address that contains it. -/
structure OcrRequest where
  /-- The address. -/
  imageBase64 : String
  deriving DecidableEq

namespace OcrRequest

/-- The request for a picture in a file. -/
def ofPng (file : ByteArray) : OcrRequest :=
  ⟨"data:image/png;base64," ++ Base64.encode file⟩

/-- A request as it is stored. -/
def toJson (r : OcrRequest) : Value := .ofFields [("image_base64", .ofString r.imageBase64)]

/-- The request that is stored. -/
def ofJson? (v : Value) : Option OcrRequest := do
  let f ← Fields.ofValue? ["image_base64"] v
  return ⟨← f.get? "image_base64" Value.toString?⟩

/-- The text of a request. -/
def text (r : OcrRequest) : String := r.toJson.pretty

end OcrRequest

end InkCanvas
