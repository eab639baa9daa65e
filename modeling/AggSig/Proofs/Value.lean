/-
  Byte strings as arguments.

  A plain byte string and a wire value have bytes, and wherever bytes are asked for they are taken as
  those, and counted by their number.
-/
import AggSig.Value

namespace AggSig

variable {P₁ P₂ T : Type}

/-- The value is a plain byte string, or a wire value. -/
def Value.IsByteString (v : Value P₁ P₂) : Prop := ∃ data, v.content? = some data

/-- A value with bytes is as long as these. -/
theorem Value.length_of_content? {v : Value P₁ P₂} {data : Bytes} (h : v.content? = some data) :
    v.length = .ok data.length := by
  cases v with
  | buffer kind content => exact congrArg (Except.ok ∘ List.length) (Option.some.inj h)
  | wire w => exact congrArg (Except.ok ∘ List.length) (Option.some.inj h)
  | _ => cases h

namespace Suite

variable (S : Suite P₁ P₂ T) {v : Value P₁ P₂} {data : Bytes} (h : v.content? = some data)

include h

/-- Asked for its bytes, it gives them. -/
theorem bytesOf_of_content? : S.bytesOf v = .ok data := by
  cases v with
  | buffer kind content => exact congrArg Except.ok (Option.some.inj h)
  | wire w => exact congrArg Except.ok (Option.some.inj h)
  | _ => cases h

/-- Asked how many bytes it has, it gives their number. -/
theorem byteCount_of_content? : S.byteCount v = .ok data.length := by
  -- only an integer is counted in another way than by its bytes
  have hcount : S.byteCount v = List.length <$> S.bytesOf v := by
    cases v with
    | integer n => cases h
    | _ => rfl
  rw [hcount, S.bytesOf_of_content? h]
  rfl

/-- Where a width is asked for, the bytes are taken if they have it, and refused with their number
    otherwise. -/
theorem bytesOfWidth_of_content? (sized : Sized) :
    S.bytesOfWidth sized v =
      if data.length = sized.width then .ok data else .error (.wrongWidth sized data.length) := by
  rw [bytesOfWidth, S.byteCount_of_content? h, S.bytesOf_of_content? h]
  rfl

/-- Where an encoding is asked for, the bytes are taken whatever their number is. -/
theorem encodingOf_of_content? (side : Side) (form : Form) : S.encodingOf side form v = .ok data := by
  rw [encodingOf, S.bytesOf_of_content? h]
  -- the exception for lists is about a failure of `bytesOf`
  intro hfailure
  cases (S.bytesOf_of_content? h).symm.trans hfailure

end Suite

end AggSig
