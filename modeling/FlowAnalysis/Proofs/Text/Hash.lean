import FlowAnalysis.Text.Units
import Mathlib.Algebra.BigOperators.Fin
import Mathlib.Data.Int.ModEq
import Mathlib.Tactic.Ring

/-!
# The hash of a text in closed form

`Spells` says which UTF-16 code units spell a text, without the encoder: a character of the basic
plane is spelt by its code point, any other by a surrogate pair.  Every text has one spelling, the
one that `units` gives (`spells_iff`).

One step of the hash multiplies by 31 and adds the unit, modulo `2 ^ 32`
(`toInt_hashStep_modEq`), although the product is made of a shift and a subtraction that both
wrap around.  So the hash is the polynomial of the units at 31 (`toInt_foldl_hashStep_modEq`),
taken to the signed range, and its absolute value is computed without overflow also at the lower
end of that range (`hash_closed_form`).
-/

namespace FlowAnalysis.Text

/-! ### Code units -/

/-- These code units spell these characters. -/
inductive Spells : List ℕ → List Char → Prop
  | nil : Spells [] []
  | basic {c : Char} {us : List ℕ} {cs : List Char} (plane : c.toNat < 0x10000)
      (rest : Spells us cs) :
      Spells (c.toNat :: us) (c :: cs)
  /-- Ten bits of the code point stand in the leading unit, and ten in the trailing one. -/
  | pair {c : Char} {lead trail : ℕ} {us : List ℕ} {cs : List Char}
      (leading : 0xD800 ≤ lead ∧ lead < 0xDC00) (trailing : 0xDC00 ≤ trail ∧ trail < 0xE000)
      (point : c.toNat = 0x10000 + (lead - 0xD800) * 0x400 + (trail - 0xDC00))
        (rest : Spells us cs) :
      Spells (lead :: trail :: us) (c :: cs)

theorem toNat_lt_of_char (c : Char) : c.toNat < 0x110000 := by
  have hvalid : c.toNat < 0xD800 ∨ 0xDFFF < c.toNat ∧ c.toNat < 0x110000 := c.valid
  omega

theorem spells_flatMap_unitsOf (cs : List Char) : Spells (cs.flatMap unitsOf) cs := by
  induction cs with
  | nil => exact .nil
  | cons c cs ih =>
    rw [List.flatMap_cons, unitsOf]
    split
    · next hplane => exact .basic hplane ih
    · next hplane =>
      have hlt := toNat_lt_of_char c
      refine .pair ?_ ?_ ?_ ih <;> omega

theorem Spells.eq_flatMap_unitsOf {us : List ℕ} {cs : List Char} (h : Spells us cs) :
    us = cs.flatMap unitsOf := by
  induction h with
  | nil => rfl
  | basic plane rest ih =>
    rw [List.flatMap_cons, unitsOf, if_pos plane, ← ih, List.singleton_append]
  | @pair c lead trail us cs leading trailing point rest ih =>
    have hplane : ¬ c.toNat < 0x10000 := by omega
    have hlead : 0xD800 + (c.toNat - 0x10000) / 0x400 = lead := by omega
    have htrail : 0xDC00 + (c.toNat - 0x10000) % 0x400 = trail := by omega
    rw [List.flatMap_cons, unitsOf, if_neg hplane, hlead, htrail, ← ih]
    rfl

/-- A text is spelt by its code units and by no others. -/
theorem spells_iff {us : List ℕ} {s : String} : Spells us s.toList ↔ us = units s := by
  constructor
  · exact Spells.eq_flatMap_unitsOf
  · rintro rfl
    exact spells_flatMap_unitsOf s.toList

/-! ### The hash -/

/-- Shifting a word by five bits multiplies it by 32, up to a multiple of `2 ^ 32`. -/
theorem toInt_shiftLeft_five_modEq (h : Int32) : (h <<< 5).toInt ≡ 32 * h.toInt [ZMOD 2 ^ 32] := by
  have hshift : (h <<< 5).toBitVec = h.toBitVec <<< (5 : ℕ) := rfl
  have hword : h.toInt ≡ h.toBitVec.toNat [ZMOD 2 ^ 32] := by
    rw [← Int32.toInt_toBitVec, BitVec.toInt_eq_toNat_bmod]
    exact Int.bmod_emod
  calc (h <<< 5).toInt
      = ((h.toBitVec.toNat <<< 5 : ℕ) : ℤ).bmod (2 ^ 32) := by
        rw [← Int32.toInt_toBitVec, hshift, BitVec.toInt_shiftLeft]
    _ ≡ ((h.toBitVec.toNat <<< 5 : ℕ) : ℤ) [ZMOD 2 ^ 32] := Int.bmod_emod
    _ = 32 * (h.toBitVec.toNat : ℤ) := by
        rw [Nat.shiftLeft_eq]
        push_cast
        ring
    _ ≡ 32 * h.toInt [ZMOD 2 ^ 32] := hword.symm.mul_left 32

theorem toInt_hashStep_modEq (h : Int32) (u : ℕ) :
    (hashStep h u).toInt ≡ 31 * h.toInt + u [ZMOD 2 ^ 32] := by
  have hunit : (Int32.ofNat u).toInt ≡ u [ZMOD 2 ^ 32] := by
    rw [Int32.toInt_ofNat']
    exact Int.bmod_emod
  have hdiff : ((h <<< 5) - h).toInt ≡ 31 * h.toInt [ZMOD 2 ^ 32] := by
    calc ((h <<< 5) - h).toInt
        = ((h <<< 5).toInt - h.toInt).bmod (2 ^ 32) := Int32.toInt_sub _ _
      _ ≡ (h <<< 5).toInt - h.toInt [ZMOD 2 ^ 32] := Int.bmod_emod
      _ ≡ 32 * h.toInt - h.toInt [ZMOD 2 ^ 32] := (toInt_shiftLeft_five_modEq h).sub_right _
      _ = 31 * h.toInt := by ring
  calc (hashStep h u).toInt
      = (((h <<< 5) - h).toInt + (Int32.ofNat u).toInt).bmod (2 ^ 32) := Int32.toInt_add _ _
    _ ≡ ((h <<< 5) - h).toInt + (Int32.ofNat u).toInt [ZMOD 2 ^ 32] := Int.bmod_emod
    _ ≡ 31 * h.toInt + u [ZMOD 2 ^ 32] := hdiff.add hunit

/-- From any start, the fold is the start carried along by the powers of 31 and
the polynomial of the units. -/
theorem toInt_foldl_hashStep_modEq (us : List ℕ) (h : Int32) :
    (us.foldl hashStep h).toInt ≡ h.toInt * 31 ^ us.length
      + ∑ i : Fin us.length, (us[i] : ℤ) * 31 ^ (us.length - (i + 1)) [ZMOD 2 ^ 32] := by
  induction us generalizing h with
  | nil => simp
  | cons u us ih =>
    have hstep := (toInt_hashStep_modEq h u).mul_right (31 ^ us.length)
    have hsum : ∑ i : Fin (u :: us).length, ((u :: us)[i] : ℤ) * 31 ^ ((u :: us).length - (i + 1))
        = u * 31 ^ us.length + ∑ i : Fin us.length, (us[i] : ℤ) * 31 ^ (us.length - (i + 1)) := by
      simp [Fin.sum_univ_succ]
    calc ((u :: us).foldl hashStep h).toInt
        ≡ (hashStep h u).toInt * 31 ^ us.length
          + ∑ i : Fin us.length, (us[i] : ℤ) * 31 ^ (us.length - (i + 1)) [ZMOD 2 ^ 32] := ih _
      _ ≡ (31 * h.toInt + u) * 31 ^ us.length
          + ∑ i : Fin us.length, (us[i] : ℤ) * 31 ^ (us.length - (i + 1)) [ZMOD 2 ^ 32] :=
        hstep.add_right _
      _ = h.toInt * 31 ^ (u :: us).length + ∑ i : Fin (u :: us).length,
          ((u :: us)[i] : ℤ) * 31 ^ ((u :: us).length - (i + 1)) := by
        rw [hsum, List.length_cons]
        ring

/-- **The hash of a text in closed form.**  A text has one spelling in UTF-16 code units.  Its hash
is the number between `-2 ^ 31` and `2 ^ 31 - 1` that agrees modulo `2 ^ 32` with the sum of the
units, each times 31 to the number of units behind it.  The id is 100000 plus the absolute value of
that number modulo 900000, so it lies between 100000 and 999999, whatever the hash is. -/
theorem hash_closed_form (s : String) :
    ∃ us : List ℕ, (∀ vs, Spells vs s.toList ↔ vs = us) ∧
      (-2 ^ 31 ≤ (hash s).toInt ∧ (hash s).toInt < 2 ^ 31) ∧
      (hash s).toInt ≡ ∑ i : Fin us.length, (us[i] : ℤ) * 31 ^ (us.length - (i + 1)) [ZMOD 2 ^ 32] ∧
      hashId s = 100000 + |(hash s).toInt| % 900000 ∧ 100000 ≤ hashId s ∧ hashId s ≤ 999999 := by
  have hsum := toInt_foldl_hashStep_modEq (units s) 0
  rw [Int32.toInt_zero, zero_mul, zero_add] at hsum
  have hid : hashId s = 100000 + |(hash s).toInt| % 900000 := by
    rw [hashId, Int.abs_eq_natAbs]
    push_cast
    rfl
  refine ⟨units s, fun vs => spells_iff, ⟨Int32.le_toInt _, Int32.toInt_lt _⟩, hsum, hid,
    ?_, ?_⟩ <;>
    omega

-- A text whose hash is the least 32-bit number, which has no opposite in 32 bits.
example : (hash "polygenelubricants").toInt = -2 ^ 31 ∧ hashId "polygenelubricants" = 183648 := by
  decide +kernel

end FlowAnalysis.Text
