import DiceOdds.Binary64

/-!
# Plotters

A plotter turns rows of data into frames and charts into pictures.  How it does so is its own
affair, and it may fail at either.
-/

namespace DiceOdds

/-- A bar chart of a frame. -/
structure Chart (Frame : Type) where
  data : Frame
  title : Text
  valueColumn : Text := .ofString "value"
  chanceColumn : Text := .ofString "probability"
  valueTitle : Text := .ofString "value"
  chanceTitle : Text := .ofString "probability"
  chanceFormat : Text := .ofString "%"
  imageFormat : Text := .ofString "png"

/-- The bytes of an image. -/
abbrev Picture := List UInt8

inductive Plotter.Error
  /-- the plotter gave up waiting -/
  | timeout
  | other (description : Text)
  deriving DecidableEq

structure Plotter (Frame : Type) where
  /-- the frame with these columns and rows -/
  frame : (columns : List Text) → (rows : List (Int × Binary64)) → Except Plotter.Error Frame
  picture : Chart Frame → Except Plotter.Error Picture

namespace Plotter

variable {Frame : Type}

/-- Any rows of two items make a frame under two columns. -/
def MakesFrames (plotter : Plotter Frame) : Prop :=
  ∀ first second rows, ∃ frame, plotter.frame [first, second] rows = .ok frame

/-- Every chart has a picture. -/
def MakesPictures (plotter : Plotter Frame) : Prop :=
  ∀ chart, ∃ picture, plotter.picture chart = .ok picture

/-- The bytes that every picture of the format starts with. -/
def signature : Picture :=
  [137, 80, 78, 71, 13, 10, 26, 10]

/-- Frames are the rows themselves, and there is nothing to be seen in a picture. -/
def bare : Plotter (List (Int × Binary64)) where
  frame columns rows :=
    if columns.length = 2 then .ok rows else .error (.other (.ofString "two columns expected"))
  picture _ := .ok signature

theorem bare_makesFrames : bare.MakesFrames :=
  fun _ _ rows => ⟨rows, rfl⟩

theorem bare_makesPictures : bare.MakesPictures :=
  fun _ => ⟨signature, rfl⟩

end Plotter

end DiceOdds
