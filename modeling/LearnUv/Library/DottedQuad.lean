import Mathlib.Data.List.Basic

/-!
# Dotted quads

The text form of an IPv4 address: its four octets in decimal, with a dot between two of
them.  It is read back strictly, four numerals without leading zeros and at most 255
each, and reading undoes writing.

An octet has one to three digits and no dot, so the dots cut the text at the right places and
each part is the numeral of its octet.  The length of the text is four times that of an octet
at most, and three dots.

## Main Definitions

* `Quad` — four octets
* `Quad.render`, `parse` — writing and reading

## Main Results

* `parse_render` — a quad that was written is read back
* `length_render_le` — the text has at most 15 characters
-/

namespace DottedQuad

/-- Four octets. -/
structure Quad where
  a : UInt8
  b : UInt8
  c : UInt8
  d : UInt8
  deriving DecidableEq, Repr

/-- The decimal numeral of an octet. -/
def numeral (octet : UInt8) : List Char := Nat.toDigits 10 octet.toNat

/-- The numerals, with dots in between. -/
def Quad.render (quad : Quad) : List Char :=
  List.intercalate ['.'] ([quad.a, quad.b, quad.c, quad.d].map numeral)

/-- The octet of a numeral: only the text `numeral` writes is accepted. -/
def octet (text : List Char) : Option UInt8 :=
  let value := UInt8.ofNat (Nat.ofDigitChars 10 text 0)
  if numeral value = text then some value else none

/-- Four numerals, with dots in between. -/
def parse (text : List Char) : Option Quad :=
  match (text.splitOn '.').map octet with
  | [some a, some b, some c, some d] => some ⟨a, b, c, d⟩
  | _ => none

@[simp] theorem octet_numeral (o : UInt8) : octet (numeral o) = some o := by
  have hvalue : Nat.ofDigitChars 10 (numeral o) 0 = o.toNat :=
    Nat.ofDigitChars_toDigits (by decide) (by decide)
  simp [octet, hvalue]

theorem dot_notMem_numeral (o : UInt8) : '.' ∉ numeral o := by
  intro hdot
  have hdigit := Nat.isDigit_of_mem_toDigits (by decide) (by decide) hdot
  exact absurd hdigit (by decide)

theorem length_numeral_le (o : UInt8) : (numeral o).length ≤ 3 := by
  rw [numeral, Nat.length_toDigits_le_iff (by decide) (by decide)]
  exact Nat.lt_trans o.toNat_lt (by decide)

/-- **Reading undoes writing.** -/
@[simp] theorem parse_render (quad : Quad) : parse quad.render = some quad := by
  have hsplit : quad.render.splitOn '.' = [quad.a, quad.b, quad.c, quad.d].map numeral := by
    refine List.splitOn_intercalate '.' ?_ (by simp)
    intro part hpart
    obtain ⟨o, -, rfl⟩ := List.mem_map.mp hpart
    exact dot_notMem_numeral o
  simp [parse, hsplit]

/-- The text and a terminating NUL take at most 16 bytes. -/
theorem length_render_le (quad : Quad) : quad.render.length ≤ 15 := by
  have ha := length_numeral_le quad.a
  have hb := length_numeral_le quad.b
  have hc := length_numeral_le quad.c
  have hd := length_numeral_le quad.d
  simp only [Quad.render, List.map_cons, List.map_nil, List.intercalate_cons_cons,
    List.intercalate_singleton, List.length_append, List.length_cons, List.length_nil]
  omega

end DottedQuad
