import Strapdown.Random.ChaCha
import Strapdown.Random.NormalLayers

/-!
Standard normal numbers from a stream of words. A word picks a layer and a point across it; a point
outside the density is drawn again.
-/

namespace Strapdown.Normal
open ChaCha (Stream)

/-- A number with the given exponent bits and the upper bits of a word as its fraction. -/
def withExponent (exponent word : UInt64) : Float := Float.ofBits (exponent <<< 52 ||| word >>> 12)

/-- A number from -1 up to 1. -/
def symmetric (word : UInt64) : Float := withExponent 0x400 word - 3.0

/-- `2 ^ -53`. -/
def grain : Float := 1.0 / 9007199254740992.0

/-- A number strictly between 0 and 1. -/
def openUnit (word : UInt64) : Float := withExponent 0x3ff word - (1.0 - grain)

/-- A number from 0 up to 1. -/
def unit (word : UInt64) : Float := (word >>> 11).toFloat * grain

/-- More draws than any stream takes for one number. -/
def maxDraws : Nat := 1000

/-- A number beyond the start of the tail, on the side that `sign` points to. -/
def tail (sign : Float) : Nat → Stream → Float × Stream
  | 0, s => (tailStart, s)
  | draws + 1, s =>
    let (a, s) := s.next
    let (b, s) := s.next
    let x := (openUnit a).log / tailStart
    let y := (openUnit b).log
    if -2.0 * y < x * x then tail sign draws s
    else (if sign < 0.0 then x - tailStart else tailStart - x, s)

/-- A standard normal number within so many draws. -/
def drawWithin : Nat → Stream → Float × Stream
  | 0, s => (0.0, s)
  | draws + 1, s =>
    let (word, s) := s.next
    let layer := (word &&& 0xff).toNat
    let u := symmetric word
    let x := u * width layer
    if x.abs < width (layer + 1) then (x, s)
    else if layer = 0 then tail u maxDraws s
    else
      let (height, s) := s.next
      let step := (density layer - density (layer + 1)) * unit height
      if density (layer + 1) + step < (-x * x / 2.0).exp then (x, s) else drawWithin draws s

/-- The next standard normal number of a stream. -/
def draw (s : Stream) : Float × Stream := drawWithin maxDraws s

end Strapdown.Normal
