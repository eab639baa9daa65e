/-
  The pairing depends on the points of the two groups, not on their triples.

  Multiplying the coordinates of a triple by a factor other than zero multiplies what is made of it by a
  power of the factor: the double (`Point.double_scaled`), the sum (`Point.Scaling.add`) and both parts
  of the line through two points.  Those are also multiplied by the factor of the triple that the line is
  evaluated at (`Scaling.line`).  Every step of the loop therefore takes scalings of its state to scalings
  (`Scaling.step`), and so does the whole loop.  The fraction that is left stands for the same quotient,
  because the factor cancels (`Fraction.Scaling.value_eq`).

  Triples on the curve with one normal form are scalings of each other or both infinite, so pairs of them
  have one pairing (`pair_congr`).
-/
import AggSig.Curve.Pairing
import AggSig.Proofs.Curve.Normal
import AggSig.Proofs.Field.Dodecic

namespace AggSig

/-! ## Points -/

namespace Point

variable {F : Type} [Field F]

/-- The triple with every coordinate multiplied by a factor. -/
def scaled (c : F) (p : Point F) : Point F := ⟨c * p.x, c * p.y, c * p.z⟩

/-- The second triple is the first one, multiplied by a factor other than zero. -/
def Scaling (p r : Point F) : Prop := ∃ c, c ≠ 0 ∧ r = p.scaled c

theorem Scaling.refl (p : Point F) : p.Scaling p :=
  ⟨1, one_ne_zero, by simp only [scaled, one_mul]⟩

/-- Doubling is of degree six in the coordinates. -/
theorem double_scaled (c : F) (p : Point F) : (p.scaled c).double = p.double.scaled (c ^ 6) := by
  simp only [double, scaled, twice, mk.injEq]
  refine ⟨?_, ?_, ?_⟩ <;> ring

theorem Scaling.double {p p' : Point F} (h : p.Scaling p') : p.double.Scaling p'.double := by
  obtain ⟨c, hc, rfl⟩ := h
  exact ⟨c ^ 6, pow_ne_zero 6 hc, double_scaled c p⟩

/-- Cross multiplication tells the same of coordinates that are multiplied. -/
theorem cross_scaled {c d : F} (hc : c ≠ 0) (hd : d ≠ 0) (a b a' b' : F) :
    d * a * (c * b) = c * a' * (d * b') ↔ a * b = a' * b' := by
  have hl : d * a * (c * b) = c * d * (a * b) := by ring
  have hr : c * a' * (d * b') = c * d * (a' * b') := by ring
  rw [hl, hr, mul_right_inj' (mul_ne_zero hc hd)]

variable [DecidableEq F] {p p' r r' : Point F}

theorem add_of_infinite_right (hr : r.z = 0) : p.add r = p := by
  rw [add, if_pos (.inr hr), if_pos hr]

theorem add_of_infinite_left (hp : p.z = 0) (hr : r.z ≠ 0) : p.add r = r := by
  rw [add, if_pos (.inl hp), if_neg hr]

/-- The chord construction is of degree four in both triples. -/
theorem chord_scaled {c d : F} (hc : c ≠ 0) (hd : d ≠ 0) (hp : p.z ≠ 0) (hr : r.z ≠ 0)
    (hx : r.x * p.z ≠ p.x * r.z) :
    (p.scaled c).add (r.scaled d) = (p.add r).scaled ((c * d) ^ 4) := by
  have hpz : (p.scaled c).z ≠ 0 := mul_ne_zero hc hp
  have hrz : (r.scaled d).z ≠ 0 := mul_ne_zero hd hr
  have hx' : (r.scaled d).x * (p.scaled c).z ≠ (p.scaled c).x * (r.scaled d).z :=
    fun h => hx ((cross_scaled hc hd r.x p.z p.x r.z).mp h)
  rw [add, if_neg (not_or.mpr ⟨hpz, hrz⟩), add, if_neg (not_or.mpr ⟨hp, hr⟩)]
  dsimp only
  rw [if_neg hx', if_neg hx]
  simp only [scaled, twice, mk.injEq]
  refine ⟨?_, ?_, ?_⟩ <;> ring

/-- Sums of scalings are scalings. -/
theorem Scaling.add (hp : p.Scaling p') (hr : r.Scaling r') : (p.add r).Scaling (p'.add r') := by
  obtain ⟨c, hc, rfl⟩ := hp
  obtain ⟨d, hd, rfl⟩ := hr
  -- infinity on either side first, as in the definition; scaling moves nothing there
  by_cases hrz : r.z = 0
  · have hrz' : (r.scaled d).z = 0 := mul_eq_zero_of_right d hrz
    rw [add_of_infinite_right hrz, add_of_infinite_right hrz']
    exact ⟨c, hc, rfl⟩
  have hrz' : (r.scaled d).z ≠ 0 := mul_ne_zero hd hrz
  by_cases hpz : p.z = 0
  · have hpz' : (p.scaled c).z = 0 := mul_eq_zero_of_right c hpz
    rw [add_of_infinite_left hpz hrz, add_of_infinite_left hpz' hrz']
    exact ⟨d, hd, rfl⟩
  have hpz' : (p.scaled c).z ≠ 0 := mul_ne_zero hc hpz
  by_cases hx : r.x * p.z = p.x * r.z
  · -- at one place: the tangent, or infinity
    have hx' := (cross_scaled hc hd r.x p.z p.x r.z).mpr hx
    have hy := cross_scaled hc hd r.y p.z p.y r.z
    rw [Point.add, if_neg (not_or.mpr ⟨hpz, hrz⟩), Point.add, if_neg (not_or.mpr ⟨hpz', hrz'⟩)]
    dsimp only [scaled] at hx' ⊢
    rw [if_pos hx, if_pos hx']
    simp only [hy]
    split
    · exact Scaling.double ⟨c, hc, rfl⟩
    · exact Scaling.refl infinity
  · exact ⟨(c * d) ^ 4, pow_ne_zero 4 (mul_ne_zero hc hd), chord_scaled hc hd hpz hrz hx⟩

/-- Finite triples with one normal form are scalings of each other. -/
theorem scaling_of_normal_eq (hp : p.z ≠ 0) (hr : r.z ≠ 0) (h : p.normal = r.normal) :
    p.Scaling r := by
  rw [normal_of_finite hp, normal_of_finite hr, mk.injEq] at h
  obtain ⟨hx, hy, -⟩ := h
  refine ⟨r.z / p.z, div_ne_zero hr hp, ?_⟩
  have hrx : r.x = r.z / p.z * p.x := by
    rw [div_mul_comm, hx, div_mul_cancel₀ _ hr]
  have hry : r.y = r.z / p.z * p.y := by
    rw [div_mul_comm, hy, div_mul_cancel₀ _ hr]
  rw [scaled, ← hrx, ← hry, div_mul_cancel₀ _ hp]

end Point

/-! ## Fractions and lines -/

namespace Fq2

/-- Scaling is multiplication by an element of the prime field. -/
theorem scale_eq (k : Fq) (a : Fq2) : a.scale k = ⟨k, 0⟩ * a := by
  ext1
  · rw [scale, re_mul, zero_mul, sub_zero]
  · rw [scale, im_mul, zero_mul, add_zero]

theorem ofPrime_mul (k l : Fq) : (⟨k * l, 0⟩ : Fq2) = ⟨k, 0⟩ * ⟨l, 0⟩ := by
  ext1
  · rw [re_mul, mul_zero, sub_zero]
  · rw [im_mul, mul_zero, zero_mul, add_zero]

theorem ofPrime_ne_zero {k : Fq} (hk : k ≠ 0) : (⟨k, 0⟩ : Fq2) ≠ 0 :=
  fun h => hk (congrArg Fq2.re h)

end Fq2

namespace Pairing

/-- Both parts of the second fraction are those of the first, multiplied by a factor other than zero. -/
def Fraction.Scaling (f g : Fraction) : Prop :=
  ∃ k, k ≠ 0 ∧ g.top = f.top.scale k ∧ g.bottom = k * f.bottom

namespace Fraction.Scaling

variable {f f' g g' : Fraction}

theorem refl (f : Fraction) : f.Scaling f :=
  ⟨1, one_ne_zero, (Fq12.one_scale f.top).symm, (one_mul f.bottom).symm⟩

/-- A factor of both parts cancels. -/
theorem value_eq (h : f.Scaling g) : g.value = f.value := by
  obtain ⟨k, hk, htop, hbottom⟩ := h
  have hcancel : Fq2.inverse (k * f.bottom) * k = Fq2.inverse f.bottom := by
    show (k * f.bottom)⁻¹ * k = f.bottom⁻¹
    rw [mul_inv, mul_right_comm, inv_mul_cancel₀ hk, one_mul]
  rw [Fraction.value, htop, hbottom, Fq12.scale_scale, hcancel, Fraction.value]

/-- Products of scalings are scalings. -/
theorem mul (hf : f.Scaling f') (hg : g.Scaling g') : (f.mul g).Scaling (f'.mul g') := by
  obtain ⟨k, hk, htop, hbottom⟩ := hf
  obtain ⟨l, hl, htop', hbottom'⟩ := hg
  refine ⟨k * l, mul_ne_zero hk hl, ?_, ?_⟩
  · show f'.top * g'.top = (f.top * g.top).scale (k * l)
    rw [htop, htop', Fq12.scale_mul_scale]
  · show f'.bottom * g'.bottom = k * l * (f.bottom * g.bottom)
    rw [hbottom, hbottom', mul_mul_mul_comm]

end Fraction.Scaling

/-! ## Lines -/

/-- A sloped line keeps its place when the parts of its slope, the coordinates of its point and those of
    the point that it is evaluated at are multiplied. -/
theorem sloped_scaling {m c : Fq2} {d : Fq} (hm : m ≠ 0) (hc : c ≠ 0) (hd : d ≠ 0)
    (slopeTop slopeBottom : Fq2) (p : Point Fq2) (t : Point Fq) :
    (sloped slopeTop slopeBottom p t).Scaling
      (sloped (m * slopeTop) (m * slopeBottom) (p.scaled c) (t.scaled d)) := by
  refine ⟨m * c * ⟨d, 0⟩, mul_ne_zero (mul_ne_zero hm hc) (Fq2.ofPrime_ne_zero hd), ?_, ?_⟩
  · ext1 <;> simp [sloped, Point.scaled, Fq12.scale, Fq2.scale_eq, Fq2.scaleByXi_eq,
      Fq2.ofPrime_mul] <;> ring
  · simp only [sloped, Point.scaled, Fq2.scale_eq, Fq2.scaleByXi_eq, Fq2.ofPrime_mul]
    ring

/-- The vertical line takes one factor from each triple. -/
theorem vertical_scaling {c : Fq2} {d : Fq} (hc : c ≠ 0) (hd : d ≠ 0) (p : Point Fq2)
    (t : Point Fq) : (vertical p t).Scaling (vertical (p.scaled c) (t.scaled d)) := by
  refine ⟨c * ⟨d, 0⟩, mul_ne_zero hc (Fq2.ofPrime_ne_zero hd), ?_, ?_⟩
  · ext1 <;> simp [vertical, Point.scaled, Fq12.scale, Fq2.scale_eq, Fq2.scaleByXi_eq,
      Fq2.ofPrime_mul] <;> ring
  · simp only [vertical, Point.scaled, Fq2.scale_eq, Fq2.scaleByXi_eq, Fq2.ofPrime_mul]
    ring

/-- The line through two points, up to a factor. -/
theorem Scaling.line {p p' s s' : Point Fq2} {t t' : Point Fq} (hp : p.Scaling p')
    (hs : s.Scaling s') (ht : t.Scaling t') : (line p s t).Scaling (line p' s' t') := by
  obtain ⟨c, hc, rfl⟩ := hp
  obtain ⟨d, hd, rfl⟩ := hs
  obtain ⟨e, he, rfl⟩ := ht
  have hcd : c * d ≠ 0 := mul_ne_zero hc hd
  have hrise : d * s.y * (c * p.z) - c * p.y * (d * s.z) = c * d * (s.y * p.z - p.y * s.z) := by ring
  have hrun : d * s.x * (c * p.z) - c * p.x * (d * s.z) = c * d * (s.x * p.z - p.x * s.z) := by ring
  have hzero : ∀ a : Fq2, c * d * a = 0 ↔ a = 0 := fun a => by simp [hc, hd]
  have hline : ∀ slopeTop slopeBottom m, m ≠ 0 → (sloped slopeTop slopeBottom p t).Scaling
      (sloped (m * slopeTop) (m * slopeBottom) ⟨c * p.x, c * p.y, c * p.z⟩ (t.scaled e)) :=
    fun slopeTop slopeBottom m hm => sloped_scaling hm hc he slopeTop slopeBottom p t
  simp only [Pairing.line, Point.scaled, hrise, hrun, ne_eq, hzero]
  split
  · exact hline _ _ _ hcd
  · split
    · -- the slope of the tangent is of degree two
      have hsquare : c * p.x * (c * p.x) + c * p.x * (c * p.x) + c * p.x * (c * p.x) =
          c * c * (p.x * p.x + p.x * p.x + p.x * p.x) := by ring
      have htwice : Point.twice (c * p.y * (c * p.z)) = c * c * Point.twice (p.y * p.z) := by
        rw [Point.twice, Point.twice]
        ring
      rw [hsquare, htwice]
      exact hline _ _ _ (mul_ne_zero hc hc)
    · exact vertical_scaling hc he p t

/-! ## The loop -/

section

variable {Q Q' : Point Fq2} {P P' : Point Fq} (hQ : Q.Scaling Q') (hP : P.Scaling P')

include hQ hP

/-- One digit of the loop takes scalings to scalings. -/
theorem Scaling.step {state state' : Fraction × Point Fq2} (hf : state.1.Scaling state'.1)
    (hR : state.2.Scaling state'.2) (digit : Bool) :
    (step Q P state digit).1.Scaling (step Q' P' state' digit).1 ∧
      (step Q P state digit).2.Scaling (step Q' P' state' digit).2 := by
  have hdoubled : ((state.1.mul state.1).mul (Pairing.line state.2 state.2 P)).Scaling
      ((state'.1.mul state'.1).mul (Pairing.line state'.2 state'.2 P')) :=
    (hf.mul hf).mul (Scaling.line hR hR hP)
  cases digit with
  | false => exact ⟨hdoubled, hR.double⟩
  | true => exact ⟨hdoubled.mul (Scaling.line hR.double hQ hP), hR.double.add hQ⟩

/-- All digits of the loop do. -/
theorem Scaling.foldl (digits : List Bool) {state state' : Fraction × Point Fq2}
    (hf : state.1.Scaling state'.1) (hR : state.2.Scaling state'.2) :
    (digits.foldl (Pairing.step Q P) state).1.Scaling
      (digits.foldl (Pairing.step Q' P') state').1 := by
  induction digits generalizing state state' with
  | nil => exact hf
  | cons digit rest ih =>
    obtain ⟨hf', hR'⟩ := Scaling.step hQ hP hf hR digit
    exact ih hf' hR'

/-- The loop gives one value for all scalings. -/
theorem miller_eq_of_scaling : miller Q P = miller Q' P' :=
  (Scaling.foldl hQ hP _ (Fraction.Scaling.refl ⟨1, 1⟩) hQ).value_eq.symm

end

/-- Triples with one normal form on either side have one pairing. -/
theorem pair_congr {Q Q' : Point Fq2} {P P' : Point Fq} (hQcurve : Q.onCurve b₂ = Q'.onCurve b₂)
    (hPcurve : P.onCurve b₁ = P'.onCurve b₁) (hQ : Q.normal = Q'.normal)
    (hP : P.normal = P'.normal) : pair Q P = pair Q' P' := by
  have hQinfinite : Q.isInfinity = Q'.isInfinity := by
    rw [← Q.isInfinity_normal, hQ, Q'.isInfinity_normal]
  have hPinfinite : P.isInfinity = P'.isInfinity := by
    rw [← P.isInfinity_normal, hP, P'.isInfinity_normal]
  unfold pair
  rw [hQcurve, hPcurve, hQinfinite, hPinfinite]
  -- at infinity no loop is run; finite triples with one normal form are scalings
  by_cases hinfinite : P'.isInfinity = true ∨ Q'.isInfinity = true
  · rw [if_pos hinfinite, if_pos hinfinite]
  · obtain ⟨hPz, hQz⟩ := not_or.mp hinfinite
    have hPscaling : P.Scaling P' :=
      Point.scaling_of_normal_eq (fun h => hPz (hPinfinite ▸ Point.isInfinity_iff.mpr h))
        (fun h => hPz (Point.isInfinity_iff.mpr h)) hP
    have hQscaling : Q.Scaling Q' :=
      Point.scaling_of_normal_eq (fun h => hQz (hQinfinite ▸ Point.isInfinity_iff.mpr h))
        (fun h => hQz (Point.isInfinity_iff.mpr h)) hQ
    rw [miller_eq_of_scaling hQscaling hPscaling]

/-- Triples on the second curve with one normal form have one pairing with every point. -/
theorem pair_eq_of_normal_eq {Q Q' : Point Fq2} (hQ : Q.onCurve b₂ = true)
    (hQ' : Q'.onCurve b₂ = true) (h : Q.normal = Q'.normal) (P : Point Fq) :
    pair Q P = pair Q' P :=
  pair_congr (hQ.trans hQ'.symm) rfl h rfl

end Pairing

end AggSig
