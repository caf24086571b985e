import SceneReel.Asset.Catalog
import SceneReel.Asset.Kinds
import SceneReel.Timeline.Basic

/-! The assets of a document by character id, and what a character resolves to. -/
namespace SceneReel

open Asset

inductive Resolved where
  | shape (asset : Shape)
  | bitmap (asset : Bitmap)
  | text (asset : Caption)
  | timeline (timeline : Timeline)

structure Library where
  shapes : Catalog Shape := {}
  bitmaps : Catalog Bitmap := {}
  texts : Catalog Caption := {}
  sounds : Catalog Sound := {}
  timelines : Catalog Timeline := {}

namespace Library

/-- What a character shows: a shape before a bitmap, a text and a timeline of the same id. -/
def resolve (l : Library) (id : CharId) : Option Resolved :=
  (l.shapes.get? id).map .shape <|> (l.bitmaps.get? id).map .bitmap <|>
    (l.texts.get? id).map .text <|> (l.timelines.get? id).map .timeline

/-- The sizes of the shapes, bitmaps, texts, sounds and timelines, in this order. -/
def counts (l : Library) : List Nat :=
  [l.shapes.size, l.bitmaps.size, l.texts.size, l.sounds.size, l.timelines.size]

end Library

end SceneReel
