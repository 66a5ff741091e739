import InFMon.Foundations.Numerals
import InFMon.Frontend.Model

/-! # Ids of rules as text

`FromStr` of `FlowRuleId` in `ipc/types.rs`, next to the `Display` that it reads back. -/

namespace InFMon

open Numerals JoinedText

/-- The numbers of 64 bits. -/
def u64Bound : ℕ := 2 ^ 64

/-- `FlowRuleId::from_str`. -/
def FlowRuleId.fromStr (s : String) : Except String FlowRuleId :=
  match splitOnce '-' s.toList with
  | none => .error ("invalid FlowRuleId: missing '-' in '" ++ s ++ "'")
  | some (hiStr, loStr) =>
    match fromStrRadix 16 u64Bound hiStr with
    | .error e => .error ("invalid FlowRuleId hi: " ++ e.display)
    | .ok hi =>
      match fromStrRadix 16 u64Bound loStr with
      | .error e => .error ("invalid FlowRuleId lo: " ++ e.display)
      | .ok lo => .ok ⟨UInt64.ofNat hi, UInt64.ofNat lo⟩

/-- The text is a hexadecimal numeral: digits in both cases, behind a plus sign or not. -/
def IsHexNumeral (text : List Char) (n : UInt64) : Prop :=
  ∃ digits values, digits ≠ [] ∧ (text = digits ∨ text = '+' :: digits) ∧
    AreDigits 16 digits values ∧ digitsValue 16 0 values = n.toNat

/-- A number of 64 bits is read from its numerals only. -/
theorem fromStrRadix_eq_ok_iff_isHexNumeral {text : List Char} {n : UInt64} :
    fromStrRadix 16 u64Bound text = .ok n.toNat ↔ IsHexNumeral text n := by
  rw [fromStrRadix_eq_ok_iff (by decide) (by decide)]
  refine exists_congr fun digits => exists_congr fun values => ?_
  exact and_congr_right fun _ => and_congr_right fun _ => and_congr_right fun _ =>
    and_iff_left n.toNat_lt

/-- A number that was read has 64 bits. -/
theorem toNat_of_fromStrRadix {text : List Char} {n : ℕ} (h : fromStrRadix 16 u64Bound text = .ok n) :
    (UInt64.ofNat n).toNat = n := by
  obtain ⟨-, -, -, -, -, -, hlt⟩ := (fromStrRadix_eq_ok_iff (by decide) (by decide)).mp h
  exact UInt64.toNat_ofNat_of_lt' hlt

/-- No sign stands in a numeral but the plus. -/
theorem IsHexNumeral.minus_notMem {text : List Char} {n : UInt64} (h : IsHexNumeral text n) :
    '-' ∉ text := by
  obtain ⟨digits, values, -, htext, hdigits, -⟩ := h
  have hnot : '-' ∉ digits := by
    clear htext
    induction hdigits with
    | nil => exact List.not_mem_nil
    | cons hc _ ih =>
      refine List.mem_cons.not.mpr (not_or.mpr ⟨?_, ih⟩)
      rintro rfl
      rw [toDigit_minus] at hc
      cases hc
  rcases htext with rfl | rfl
  · exact hnot
  · exact List.mem_cons.not.mpr (not_or.mpr ⟨by decide, hnot⟩)

/-- A number is written as a numeral. -/
theorem isHexNumeral_hex16 (n : UInt64) : IsHexNumeral (hex16 n).toList n := by
  rw [hex16, String.toList_ofList]
  exact fromStrRadix_eq_ok_iff_isHexNumeral.mp
    (fromStrRadix_toDigits (by decide) (by decide) n.toNat_lt _)

namespace FlowRuleId

/-- A text is read as two numerals around its only dash. -/
theorem fromStr_eq_ok_iff {s : String} {id : FlowRuleId} :
    fromStr s = .ok id ↔ ∃ hi lo, s.toList = hi ++ '-' :: lo ∧
      IsHexNumeral hi id.hi ∧ IsHexNumeral lo id.lo := by
  constructor
  · intro h
    unfold fromStr at h
    split at h
    · cases h
    rename_i hi lo hsplit
    split at h
    · cases h
    rename_i a ha
    split at h
    · cases h
    rename_i b hb
    obtain rfl := Except.ok.inj h
    have ha' := ha.trans (congrArg _ (toNat_of_fromStrRadix ha).symm)
    have hb' := hb.trans (congrArg _ (toNat_of_fromStrRadix hb).symm)
    exact ⟨hi, lo, (splitOnce_eq_some_iff.mp hsplit).2, fromStrRadix_eq_ok_iff_isHexNumeral.mp ha',
      fromStrRadix_eq_ok_iff_isHexNumeral.mp hb'⟩
  · rintro ⟨hi, lo, hs, hhi, hlo⟩
    -- the first half has no dash, so the split is at this one
    have hsplit := splitOnce_eq_some_iff.mpr ⟨hhi.minus_notMem, hs⟩
    rw [fromStr, hsplit]
    dsimp only
    rw [fromStrRadix_eq_ok_iff_isHexNumeral.mpr hhi]
    dsimp only
    rw [fromStrRadix_eq_ok_iff_isHexNumeral.mpr hlo]
    dsimp only
    rw [UInt64.ofNat_toNat, UInt64.ofNat_toNat]

/-- The text of an id is read back. -/
theorem fromStr_display (id : FlowRuleId) : fromStr id.display = .ok id := by
  refine fromStr_eq_ok_iff.mpr ⟨_, _, ?_, isHexNumeral_hex16 id.hi, isHexNumeral_hex16 id.lo⟩
  rw [display, String.toList_append, String.toList_append, List.append_assoc]
  rfl

end FlowRuleId

/-- **The ids that are read.** The text of an id is read back as the id; and a text is read as an id exactly
if it is two hexadecimal numerals of at most 64 bits around a dash, each of them in either case, with any
number of leading zeros and behind a plus sign or not. -/
theorem flow_rule_id_text (s : String) (id : FlowRuleId) :
    FlowRuleId.fromStr id.display = .ok id ∧
      (FlowRuleId.fromStr s = .ok id ↔ ∃ hi lo, s.toList = hi ++ '-' :: lo ∧
        IsHexNumeral hi id.hi ∧ IsHexNumeral lo id.lo) :=
  ⟨id.fromStr_display, FlowRuleId.fromStr_eq_ok_iff⟩

end InFMon
