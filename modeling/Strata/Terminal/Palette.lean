import Mathlib.Tactic

/-! ANSI colour resolution (`terminal/palette.rs`). -/

namespace Strata.Terminal

structure Pixel where
  r : UInt8
  g : UInt8
  b : UInt8
  deriving DecidableEq, Repr, Inhabited

/-- Every channel scaled, for the ANSI "dim" attribute. -/
def Pixel.dim (pixel : Pixel) : Pixel :=
  let scaled (channel : UInt8) : UInt8 := UInt8.ofNat (channel.toNat * 2 / 3)
  ⟨scaled pixel.r, scaled pixel.g, scaled pixel.b⟩

inductive NamedColor where
  | black | red | green | yellow | blue | magenta | cyan | white
  | brightBlack | brightRed | brightGreen | brightYellow | brightBlue | brightMagenta
  | brightCyan | brightWhite
  | dimBlack | dimRed | dimGreen | dimYellow | dimBlue | dimMagenta | dimCyan | dimWhite
  | foreground | brightForeground | dimForeground | background | cursor
  deriving DecidableEq, Repr

inductive Color where
  | named (color : NamedColor)
  | spec (rgb : Pixel)
  | indexed (index : UInt8)
  deriving DecidableEq, Repr

def ansi16 : List Pixel :=
  [⟨0, 0, 0⟩, ⟨205, 0, 0⟩, ⟨0, 205, 0⟩, ⟨205, 205, 0⟩, ⟨0, 0, 238⟩, ⟨205, 0, 205⟩, ⟨0, 205, 205⟩,
    ⟨229, 229, 229⟩, ⟨127, 127, 127⟩, ⟨255, 0, 0⟩, ⟨0, 255, 0⟩, ⟨255, 255, 0⟩, ⟨92, 92, 255⟩,
    ⟨255, 0, 255⟩, ⟨0, 255, 255⟩, ⟨255, 255, 255⟩]

def cubeSteps : List UInt8 := [0, 95, 135, 175, 215, 255]

structure Palette where
  foreground : Pixel
  background : Pixel
  cursor : Pixel
  deriving DecidableEq, Repr

namespace Palette

def default : Palette := ⟨⟨229, 229, 229⟩, ⟨0, 0, 0⟩, ⟨229, 229, 229⟩⟩

def indexed (index : UInt8) : Pixel :=
  let i := index.toNat
  if i ≤ 15 then ansi16[i]!
  else if i ≤ 231 then
    ⟨cubeSteps[(i - 16) / 36]!, cubeSteps[(i - 16) % 36 / 6]!, cubeSteps[(i - 16) % 6]!⟩
  else
    let level := UInt8.ofNat (8 + (i - 232) * 10)
    ⟨level, level, level⟩

def named (palette : Palette) : NamedColor → Pixel
  | .black => ansi16[0]!
  | .red => ansi16[1]!
  | .green => ansi16[2]!
  | .yellow => ansi16[3]!
  | .blue => ansi16[4]!
  | .magenta => ansi16[5]!
  | .cyan => ansi16[6]!
  | .white => ansi16[7]!
  | .brightBlack => ansi16[8]!
  | .brightRed => ansi16[9]!
  | .brightGreen => ansi16[10]!
  | .brightYellow => ansi16[11]!
  | .brightBlue => ansi16[12]!
  | .brightMagenta => ansi16[13]!
  | .brightCyan => ansi16[14]!
  | .brightWhite => ansi16[15]!
  | .dimBlack => ansi16[0]!.dim
  | .dimRed => ansi16[1]!.dim
  | .dimGreen => ansi16[2]!.dim
  | .dimYellow => ansi16[3]!.dim
  | .dimBlue => ansi16[4]!.dim
  | .dimMagenta => ansi16[5]!.dim
  | .dimCyan => ansi16[6]!.dim
  | .dimWhite => ansi16[7]!.dim
  | .foreground | .brightForeground => palette.foreground
  | .dimForeground => palette.foreground.dim
  | .background => palette.background
  | .cursor => palette.cursor

def resolve (palette : Palette) : Color → Pixel
  | .spec rgb => rgb
  | .indexed index => Palette.indexed index
  | .named color => palette.named color

end Palette

end Strata.Terminal
