/-!
# Recognition modes

The hint on page segmentation that a text recognizer is given.
-/

namespace Playback

inductive RecognitionMode where
  | singleBlock
  | singleLine
  | auto
  deriving DecidableEq, Repr, Inhabited

namespace RecognitionMode

def name : RecognitionMode → String
  | singleBlock => "single_block"
  | singleLine => "single_line"
  | auto => "auto"

def all : List (String × RecognitionMode) :=
  [singleBlock, singleLine, auto].map fun m => (m.name, m)

end RecognitionMode

end Playback
