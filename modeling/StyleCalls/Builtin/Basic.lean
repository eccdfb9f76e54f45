import StyleCalls.Builtin.ColorAdjust
import StyleCalls.Builtin.Math
import StyleCalls.Builtin.Query
import StyleCalls.Function

/-! The functions that come with the library. -/

namespace StyleCalls

inductive Builtin where
  | query
  | math
  | hslaAdjust
  | hslAdjust
  | hAdjust
  | sAdjust
  | lAdjust
  | aAdjust
  | thisRule
deriving DecidableEq

namespace Builtin
variable {σ : Type}

def all : List Builtin :=
  [query, math, hslaAdjust, hslAdjust, hAdjust, sAdjust, lAdjust, aAdjust, thisRule]

def name : Builtin → Text
  | query => "query".toList
  | math => "math".toList
  | hslaAdjust => "hsla-adjust".toList
  | hslAdjust => "hsl-adjust".toList
  | hAdjust => "h-adjust".toList
  | sAdjust => "s-adjust".toList
  | lAdjust => "l-adjust".toList
  | aAdjust => "a-adjust".toList
  | thisRule => "this".toList

def ofName? (name : Text) : Option Builtin := all.find? fun b => b.name = name

def run : Builtin → Callback σ Text
  | query, host, input, s => Query.run host input s
  | math, _, input, s => (Math.run input, s)
  | hslaAdjust, host, input, s =>
    ColorAdjust.run [.hue, .saturation, .lightness, .alpha] host input s
  | hslAdjust, host, input, s => ColorAdjust.run [.hue, .saturation, .lightness] host input s
  | hAdjust, host, input, s => ColorAdjust.run [.hue] host input s
  | sAdjust, host, input, s => ColorAdjust.run [.saturation] host input s
  | lAdjust, host, input, s => ColorAdjust.run [.lightness] host input s
  | aAdjust, host, input, s => ColorAdjust.run [.alpha] host input s
  | thisRule, _, input, s => Query.runThis input s

def function (b : Builtin) : Function σ := .raw b.run

end Builtin
end StyleCalls
