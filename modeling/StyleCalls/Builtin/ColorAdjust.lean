import StyleCalls.Arguments
import StyleCalls.Setting

/-! Color adjustment, with subscribers before and after. -/

namespace StyleCalls.ColorAdjust
variable {σ : Type}

inductive Channel where
  | hue
  | saturation
  | lightness
  | alpha
deriving DecidableEq

def Channel.set (d : Deltas) (x : Delta) : Channel → Deltas
  | hue => { d with h := x }
  | saturation => { d with s := x }
  | lightness => { d with l := x }
  | alpha => { d with a := x }

/-- The color and the offsets of the given channels; further arguments are ignored, and channels
without one do not move. -/
def readArgs (channels : List Channel) (input : Text) : Text × Deltas :=
  let args := Arguments.split .commasAndBlanks input
  (args.headD [],
    (channels.zip args.tail).foldl (fun d p => p.1.set d (Delta.parse p.2)) {})

/-- What is no color after the first subscribers have seen it becomes empty. -/
def adjust (host : Host σ) (color : Text) (d : Deltas) (s : Setting σ) : Text × Setting σ :=
  let ((color, d), memory) := host.hooks.runBefore color d s.memory
  let adjusted := if host.colors.test color then host.colors.adjust color d else []
  let (result, memory) := host.hooks.runAfter d adjusted memory
  (result, { s with memory })

def run (channels : List Channel) (host : Host σ) (input : Text) (s : Setting σ) :
    Text × Setting σ :=
  let (color, d) := readArgs channels input
  adjust host color d s

end StyleCalls.ColorAdjust
