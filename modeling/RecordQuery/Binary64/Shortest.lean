import RecordQuery.Binary64.Basic

/-! # The shortest decimal of a double

Of the decimals that round to a double, the one with the fewest digits, and of those the one nearest to the double. The
decimals that round to a magnitude lie between its midpoints to the two neighbours, the midpoints included if the
magnitude is even. A grid of decimals `D · 10 ^ p` meets that interval if one of the two grid points around the double
does, so the coarsest grid that meets it is found by trying those two points for one `p` after another. -/

namespace RecordQuery

/-- The decimal number `digits · 10 ^ exponent`. -/
structure Decimal where
  digits : Nat
  exponent : Int
  deriving DecidableEq, Repr

namespace Magnitude

/-- Whether `n / d` units are nearer to the magnitude `b` than to its neighbours, or between and `b` is even. -/
def attracts (b n d : Nat) : Bool :=
  let low := (units (b - 1) + units b) * d
  let high := (units b + units (b + 1)) * d
  if b % 2 = 0 then low ≤ 2 * n && 2 * n ≤ high else low < 2 * n && 2 * n < high

/-- The multiple of `10 ^ p` nearest to `b` among those that round to it, the greater one of two. -/
def onGrid? (b : Nat) (p : Int) : Option Nat :=
  let step := 10 ^ p.toNat * 2 ^ 1074
  let d := 10 ^ (-p).toNat
  let below := units b * d / step
  match attracts b (below * step) d, attracts b ((below + 1) * step) d with
  | true, true => some (if 2 * (units b * d) < (2 * below + 1) * step then below else below + 1)
  | true, false => some below
  | false, true => some (below + 1)
  | false, false => none

/-- The first of the grids `10 ^ p`, `10 ^ (p - 1)`, … with a decimal that rounds to `b`, and that decimal. -/
def onGridsFrom (b : Nat) : Nat → Int → Decimal
  | 0, p => ⟨0, p⟩
  | k + 1, p =>
    match onGrid? b p with
    | some digits => ⟨digits, p⟩
    | none => onGridsFrom b k (p - 1)

/-- A `p` with `10 ^ p` above the double of magnitude `b`: it is below `2 ^ t`, and `2 ^ 100 < 10 ^ 31`,
`2 ^ 10 > 10 ^ 3`. -/
def coarsest (b : Nat) : Int :=
  let t : Int := (units b).log2 + 1 - 1074
  (if 0 ≤ t then t * 31 / 100 else t * 3 / 10) + 1

/-- The shortest decimal that rounds to the magnitude `b`, which is neither zero nor infinite. Seventeen digits always
suffice, and the coarsest grid has no more than a dozen places too few. -/
def shortest (b : Nat) : Decimal := onGridsFrom b 32 (coarsest b)

end Magnitude

end RecordQuery
