import InkCanvas.Path.Basic
import InkCanvas.Raster.Reach

/-! # Which pixels ink covers

A dot covers a disc. A line covers all points that are no farther from its curve than half its
width, so its ends and its corners are round. A pixel is covered if its center is; ink is never
thinner than a pixel. Coordinates are rounded to single precision first. A shape with one that is
not finite covers nothing, and neither does a shape out of reach (`isInReach`). -/

namespace InkCanvas

/-- A straight piece of a curve. -/
structure Segment where
  /-- Where it starts. -/
  p : Point Float
  /-- Where it ends. -/
  q : Point Float

/-- What ink covers. -/
inductive Shape where
  | nothing
  /-- The points within `radius` of `center`. -/
  | disc (center : Point Float) (radius : Float)
  /-- The points within `radius` of one of the segments. -/
  | line (segments : List Segment) (radius : Float)

/-- A point rounded to single precision. -/
def Point.single (p : Point Float) : Point Float := ⟨InkCanvas.single p.x, InkCanvas.single p.y⟩

namespace PathStep

/-- The points that a step names. -/
def points : PathStep Float → List (Point Float)
  | .move p => [p]
  | .line p => [p]
  | .quad c p => [c, p]
  | .cubic c₁ c₂ p => [c₁, c₂, p]
  | .close => []

end PathStep

namespace Segment

/-- The square of the distance from a point to the segment. -/
def distanceSq (s : Segment) (x : Point Float) : Float :=
  let d := s.q - s.p
  let length := d.x * d.x + d.y * d.y
  let t := ((x.x - s.p.x) * d.x + (x.y - s.p.y) * d.y) / length
  let t := if length == 0 then 0 else if t < 0 then 0 else if 1 < t then 1 else t
  x.distanceSq ⟨s.p.x + t * d.x, s.p.y + t * d.y⟩

/-- The segment comes within `radius` of the height `y`. -/
def reaches (s : Segment) (radius y : Float) : Bool :=
  (s.p.y - radius ≤ y || s.q.y - radius ≤ y) && (y ≤ s.p.y + radius || y ≤ s.q.y + radius)

/-- The segments from point to point. -/
def chain : List (Point Float) → List Segment
  | p :: q :: rest => ⟨p, q⟩ :: chain (q :: rest)
  | _ => []

end Segment

/-- Into how many straight pieces a curve is cut whose control points lie `bend` off a straight
and even course: as many as keep every piece within a twentieth of a pixel, up to a limit. -/
def pieceCount (bend : Float) : Nat := min 1024 ((Float.sqrt (5 * bend)).toUInt64.toNat + 1)

/-- The points at `n` even steps of a curve behind its start. -/
def samplesOf (n : Nat) (curve : Float → Point Float) : List (Point Float) :=
  (List.range n).map fun i => curve ((i + 1).toFloat / n.toFloat)

/-- The points along a quadratic curve behind its start. -/
def quadPoints (p c q : Point Float) : List (Point Float) :=
  let bend := Point.distance (p + q) (c + c)
  samplesOf (pieceCount bend) fun t =>
    let s := 1 - t
    ⟨s * s * p.x + 2 * s * t * c.x + t * t * q.x, s * s * p.y + 2 * s * t * c.y + t * t * q.y⟩

/-- The points along a cubic curve behind its start. -/
def cubicPoints (p c₁ c₂ q : Point Float) : List (Point Float) :=
  let bend := 3 * (Point.distance (p + c₂) (c₁ + c₁) + Point.distance (c₁ + q) (c₂ + c₂))
  samplesOf (pieceCount bend) fun t =>
    let s := 1 - t
    let w₀ := s * s * s
    let w₁ := 3 * s * s * t
    let w₂ := 3 * s * t * t
    let w₃ := t * t * t
    ⟨w₀ * p.x + w₁ * c₁.x + w₂ * c₂.x + w₃ * q.x, w₀ * p.y + w₁ * c₁.y + w₂ * c₂.y + w₃ * q.y⟩

/-- The straight pieces of a curve. The pen was put down at `home` and is now at `here`. -/
def segmentsFrom (home here : Point Float) : List (PathStep Float) → List Segment
  | [] => []
  | .move p :: rest => segmentsFrom p p rest
  | .line p :: rest => ⟨here, p⟩ :: segmentsFrom home p rest
  | .quad c p :: rest => Segment.chain (here :: quadPoints here c p) ++ segmentsFrom home p rest
  | .cubic c₁ c₂ p :: rest =>
    Segment.chain (here :: cubicPoints here c₁ c₂ p) ++ segmentsFrom home p rest
  | .close :: rest => ⟨here, home⟩ :: segmentsFrom home home rest

/-- The steps without those that put the pen down only to lift it again. -/
def withoutIdleMoves : List (PathStep Float) → List (PathStep Float)
  | .move _ :: .move p :: rest => withoutIdleMoves (.move p :: rest)
  | step :: rest => step :: withoutIdleMoves rest
  | [] => []

/-- The step closes a curve. -/
def PathStep.isClose : PathStep Float → Bool
  | .close => true
  | _ => false

/-- The steps that paint: a curve cannot be closed before it began. -/
def paintingSteps (steps : List (PathStep Float)) : List (PathStep Float) :=
  withoutIdleMoves (steps.dropWhile PathStep.isClose)

/-- The rectangle around a disc, in single precision. -/
def discBounds (center : Point Float) (radius : Float) : Rect Float :=
  ⟨single (center.x - radius), single (center.y - radius), single (center.x + radius),
    single (center.y + radius)⟩

/-- The rectangle around all points within `radius` of the segment. -/
def Segment.bounds (s : Segment) (radius : Float) : Rect Float :=
  (discBounds s.p radius).union (discBounds s.q radius)

namespace Shape

/-- The rectangle around a shape, if it covers anything. -/
def bounds? : Shape → Option (Rect Float)
  | .nothing => none
  | .disc center radius => some (discBounds center radius)
  | .line [] _ => none
  | .line (s :: rest) radius =>
    some ((rest.map (·.bounds radius)).foldl Rect.union (s.bounds radius))

/-- The shape itself if it is in reach, and nothing otherwise. -/
def withinReach (s : Shape) : Shape := if s.bounds?.any isInReach then s else .nothing

/-- What a path covers as a line of the given width. -/
def ofPath (path : InkPath Float) (width : Float) : Shape :=
  match path with
  | .empty => .nothing
  | .dot center radius =>
    let center := center.single
    let radius := Scalar.max (single radius) 0.5
    if center.isFinite && radius.isFinite then (disc center radius).withinReach else .nothing
  | .curve steps =>
    let steps := paintingSteps (steps.map (PathStep.map Point.single))
    let width := Scalar.max (single width) 1
    if steps.all (·.points.all Point.isFinite) && width.isFinite then
      (line (segmentsFrom .zero .zero steps) (width / 2)).withinReach
    else
      .nothing

/-- The point is covered. -/
def covers (s : Shape) (x : Point Float) : Bool :=
  match s with
  | .nothing => false
  | .disc center radius => center.distanceSq x ≤ radius * radius
  | .line segments radius => segments.any fun segment => segment.distanceSq x ≤ radius * radius

/-- The part of the shape that matters at the height `y`. -/
def atHeight (s : Shape) (y : Float) : Shape :=
  match s with
  | .line segments radius => .line (segments.filter (·.reaches radius y)) radius
  | s => s

end Shape

end InkCanvas
