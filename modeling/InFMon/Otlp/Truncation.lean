import InFMon.Foundations.Utf8Prefix
import InFMon.Otlp.Model
import Mathlib.Order.Bounds.Defs

/-! # Truncated attributes

A long attribute is cut where a character ends and gets an ellipsis. The scan backwards for that place
finds the last boundary within the limit, which is the end of the longest prefix that fits. -/

namespace InFMon.Otlp

open Utf8Prefix

/-! ### Boundaries -/

/-- `is_char_boundary` of an encoded text. -/
theorem isCharBoundary_encode_iff {cs : List Char} {i : ℕ} :
    isCharBoundary (encode cs) i = true ↔ ∃ q, q <+: cs ∧ (encode q).length = i := by
  rw [← boundary_encode_iff, isCharBoundary]
  split
  · rename_i b hb
    have hlt : i < (encode cs).length := (List.getElem?_eq_some_iff.mp hb).1
    simp only [Bool.or_eq_true, decide_eq_true_eq]
    constructor
    · rintro ((rfl | h) | h)
      · -- the first byte of a text begins a character
        exact boundary_encode_iff.mpr ⟨[], List.nil_prefix, rfl⟩
      · exact Or.inr ⟨b, hb, Or.inl h⟩
      · exact Or.inr ⟨b, hb, Or.inr h⟩
    · rintro (hend | ⟨b', hb', hstarts⟩)
      · omega
      · obtain rfl := Option.some.inj (hb.symm.trans hb')
        exact hstarts.elim (fun h => Or.inl (Or.inr h)) Or.inr
  · rename_i hnone
    rw [beq_iff_eq, Boundary]
    constructor
    · exact Or.inl
    · rintro (hend | ⟨b, hb, -⟩)
      · exact hend
      · cases hnone.symm.trans hb

/-- The start is a boundary. -/
theorem isCharBoundary_zero (bytes : List UInt8) : isCharBoundary bytes 0 = true := by
  cases bytes <;> simp [isCharBoundary]

/-- The scan ends at the last boundary within the limit. -/
theorem backUp_isGreatest (bytes : List UInt8) (limit : ℕ) :
    IsGreatest {e | e ≤ limit ∧ isCharBoundary bytes e = true} (backUp bytes limit) := by
  induction limit with
  | zero => exact ⟨⟨le_rfl, isCharBoundary_zero bytes⟩, fun e he => he.1⟩
  | succ n ih =>
    rw [backUp]
    by_cases hn : isCharBoundary bytes (n + 1) = true
    · rw [if_pos hn]
      exact ⟨⟨le_rfl, hn⟩, fun e he => he.1⟩
    · rw [if_neg hn]
      refine ⟨⟨Nat.le_succ_of_le ih.1.1, ih.1.2⟩, ?_⟩
      rintro e ⟨hle, he⟩
      have hne : e ≠ n + 1 := by
        rintro rfl
        exact hn he
      exact ih.2 ⟨by omega, he⟩

/-! ### Slices -/

/-- A slice that ends behind a prefix is that prefix. -/
theorem charsUpTo_of_prefix {q cs : List Char} (h : q <+: cs) :
    charsUpTo (encode q).length cs = q := by
  induction cs generalizing q with
  | nil => rw [List.prefix_nil.mp h, charsUpTo]
  | cons c cs ih =>
    rcases List.prefix_cons_iff.mp h with rfl | ⟨q, rfl, hq⟩
    · have hpos := Char.utf8Size_pos c
      rw [encode_nil, List.length_nil, charsUpTo, if_neg (by omega)]
    · rw [encode_cons, List.length_append, String.length_utf8EncodeChar, charsUpTo,
        if_pos (Nat.le_add_right _ _), Nat.add_sub_cancel_left, ih hq]

/-- What a cut at a limit keeps: the longest prefix within the limit. The cut is on a boundary, so the
slice of the bytes is the slice of the characters. -/
theorem exists_charsUpTo_backUp (s : String) (limit : ℕ) :
    ∃ kept : String, charsUpTo (backUp (utf8Bytes s) limit) s.toList = kept.toList ∧
      kept.toList <+: s.toList ∧ utf8Bytes kept = (utf8Bytes s).take (backUp (utf8Bytes s) limit) ∧
      (utf8Bytes kept).length ≤ limit ∧
      ∀ q : String, q.toList <+: s.toList → (utf8Bytes q).length ≤ limit →
        q.toList <+: kept.toList := by
  obtain ⟨⟨hle, hboundary⟩, hgreatest⟩ := backUp_isGreatest (utf8Bytes s) limit
  obtain ⟨q, hq, hlength⟩ := isCharBoundary_encode_iff.mp hboundary
  have hkept : utf8Bytes (String.ofList q) = encode q := by rw [utf8Bytes, String.toList_ofList]; rfl
  have htake : encode q = (utf8Bytes s).take (encode q).length :=
    List.prefix_iff_eq_take.mp (encode_mono hq)
  refine ⟨String.ofList q, ?_, ?_, ?_, ?_, fun p hp hple => ?_⟩
  · rw [← hlength, charsUpTo_of_prefix hq, String.toList_ofList]
  · rwa [String.toList_ofList]
  · rw [hkept, ← hlength]
    exact htake
  · rw [hkept, hlength]
    exact hle
  · rw [String.toList_ofList]
    refine prefix_of_length_encode_le hq hp ?_
    rw [hlength]
    exact hgreatest ⟨hple, isCharBoundary_encode_iff.mpr ⟨p.toList, hp, rfl⟩⟩

/-! ### Truncation -/

/-- A string within the cap stays as it is. -/
theorem truncateUtf8Counted_of_le {s : String} {cap : ℕ} (h : (utf8Bytes s).length ≤ cap) :
    truncateUtf8Counted s cap = (s, 0) := by
  rw [truncateUtf8Counted]
  exact if_pos h

/-- A longer text is cut behind its longest prefix that leaves room for the ellipsis. -/
theorem truncateUtf8Counted_of_gt {s : String} {cap : ℕ} (h : cap < (utf8Bytes s).length) :
    ∃ kept : String, truncateUtf8Counted s cap = (kept ++ "…", 1) ∧ kept.toList <+: s.toList ∧
      utf8Bytes kept = (utf8Bytes s).take (backUp (utf8Bytes s) (cap - 3)) ∧
      (utf8Bytes kept).length ≤ cap - 3 ∧
      ∀ q : String, q.toList <+: s.toList → (utf8Bytes q).length ≤ cap - 3 →
        q.toList <+: kept.toList := by
  obtain ⟨kept, heq, hkept⟩ := exists_charsUpTo_backUp s (cap - 3)
  refine ⟨kept, ?_, hkept⟩
  rw [truncateUtf8Counted]
  dsimp only
  rw [if_neg (Nat.not_le.mpr h), heq, String.ofList_append, String.ofList_toList]

/-- Truncation keeps what fits. Anything longer it cuts behind the longest prefix that leaves room for the
ellipsis, and it counts the cut once. What it returns fits, so it is not cut again. -/
theorem truncateUtf8Counted_spec (s : String) {cap : ℕ} (hcap : 3 ≤ cap) :
    (utf8Bytes (truncateUtf8Counted s cap).1).length ≤ cap ∧
      (truncateUtf8Counted s cap = (s, 0) ↔ (utf8Bytes s).length ≤ cap) ∧
      (cap < (utf8Bytes s).length →
        ∃ kept : String, truncateUtf8Counted s cap = (kept ++ "…", 1) ∧
          kept.toList <+: s.toList ∧
          utf8Bytes kept = (utf8Bytes s).take (backUp (utf8Bytes s) (cap - 3)) ∧
          (utf8Bytes kept).length ≤ cap - 3 ∧
          ∀ q : String, q.toList <+: s.toList → (utf8Bytes q).length ≤ cap - 3 →
            q.toList <+: kept.toList) ∧
      truncateUtf8Counted (truncateUtf8Counted s cap).1 cap = ((truncateUtf8Counted s cap).1, 0) := by
  have hlength : (utf8Bytes (truncateUtf8Counted s cap).1).length ≤ cap := by
    by_cases hle : (utf8Bytes s).length ≤ cap
    · rwa [truncateUtf8Counted_of_le hle]
    · obtain ⟨kept, heq, -, -, hkept, -⟩ := truncateUtf8Counted_of_gt (Nat.lt_of_not_le hle)
      have hellipsis : (utf8Bytes (kept ++ "…")).length = (utf8Bytes kept).length + 3 := by
        rw [utf8Bytes, String.toList_append, List.flatMap_append, List.length_append]
        rfl
      rw [heq, hellipsis]
      omega
  refine ⟨hlength, ⟨fun heq => ?_, truncateUtf8Counted_of_le⟩, truncateUtf8Counted_of_gt,
    truncateUtf8Counted_of_le hlength⟩
  rwa [heq] at hlength

/-- Six letters of two bytes in eight bytes: the limit of five bytes falls inside the third letter, so two
of them are kept. -/
theorem truncateUtf8Counted_spec_greek :
    truncateUtf8Counted "αβγδεζ" 8 = ("αβ…", 1) ∧
      truncateUtf8Counted "αβ…" 8 = ("αβ…", 0) ∧ (utf8Bytes "αβ…").length ≤ 8 := by
  have hcut : truncateUtf8Counted "αβγδεζ" 8 = ("αβ…", 1) := by decide +kernel
  have hspec := @truncateUtf8Counted_spec "αβγδεζ" 8 (by decide)
  rw [hcut] at hspec
  exact ⟨hcut, hspec.2.2.2, hspec.1⟩

end InFMon.Otlp
