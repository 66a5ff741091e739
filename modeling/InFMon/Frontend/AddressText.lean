import InFMon.FlowRule.Codec
import InFMon.Foundations.JoinedText
import InFMon.Frontend.Model
import Mathlib.Data.List.TakeWhile

/-! # Texts of addresses

Addresses are told apart by their texts: the octets of an IPv4 address stand between dots, and the
groups of an IPv6 address can be read off the pieces between its colons, since the run of zeros that is
left out shows as an empty piece. -/

namespace InFMon.Frontend

open JoinedText

/-! ### IPv4 addresses -/

/-- The numerals between the dots. -/
theorem toList_ipv4Text (octets : Vector UInt8 4) : (ipv4Text octets).toList =
    ['.'].intercalate (octets.toList.map fun b => Nat.toDigits 10 b.toNat) := by
  rw [ipv4Text, String.toList_intercalate, List.map_map]
  congr 2
  exact funext fun b => Nat.toList_repr

/-- What is no digit stands in no decimal number. -/
theorem not_mem_decimal {c : Char} (hc : c.isDigit = false) (n : ℕ) : c ∉ Nat.toDigits 10 n := by
  intro hmem
  have hdigit := Nat.isDigit_of_mem_toDigits (by omega) (by omega) hmem
  rw [hc] at hdigit
  cases hdigit

/-- An IPv4 address is known by its text. -/
theorem ipv4Text_injective : Function.Injective ipv4Text := by
  have hdots : ∀ octets : Vector UInt8 4,
      ∀ piece ∈ octets.toList.map fun b => Nat.toDigits 10 b.toNat, '.' ∉ piece := by
    intro octets piece hpiece
    obtain ⟨b, -, rfl⟩ := List.mem_map.mp hpiece
    exact not_mem_decimal (by decide) b.toNat
  have hnil : ∀ octets : Vector UInt8 4,
      (octets.toList.map fun b => Nat.toDigits 10 b.toNat) ≠ [] := by
    intro octets h
    have hlength := congrArg List.length h
    rw [List.length_map, Vector.length_toList] at hlength
    cases hlength
  intro a b hab
  have htexts := congrArg String.toList hab
  rw [toList_ipv4Text, toList_ipv4Text, intercalate_inj (hnil a) (hnil b) (hdots a) (hdots b)] at htexts
  have hnumeral : Function.Injective fun b : UInt8 => Nat.toDigits 10 b.toNat :=
    fun x y hxy => UInt8.toNat_inj.mp (toDigits_ten_injective hxy)
  exact Vector.toList_inj.mp (hnumeral.list_map htexts)

/-- What an IPv4 address is written with. -/
theorem mem_ipv4Text {c : Char} {octets : Vector UInt8 4} (h : c ∈ (ipv4Text octets).toList) :
    c = '.' ∨ c.isDigit = true := by
  rw [toList_ipv4Text] at h
  obtain hdot | ⟨piece, hpiece, hc⟩ := mem_intercalate h
  · exact .inl (List.mem_singleton.mp hdot)
  · obtain ⟨b, -, rfl⟩ := List.mem_map.mp hpiece
    exact .inr (Nat.isDigit_of_mem_toDigits (by omega) (by omega) hc)

/-- A dot stands in the text of an IPv4 address. -/
theorem dot_mem_ipv4Text (octets : Vector UInt8 4) : '.' ∈ (ipv4Text octets).toList := by
  rw [toList_ipv4Text]
  match octets.toList, octets.length_toList with
  | [a, b, c, d], _ => simp

/-- The text of an IPv4 address has 16 characters at most. -/
theorem length_ipv4Text_le (octets : Vector UInt8 4) : (ipv4Text octets).length ≤ 16 := by
  have hpieces : ∀ piece ∈ octets.toList.map fun b => Nat.toDigits 10 b.toNat, piece.length ≤ 3 := by
    intro piece hpiece
    obtain ⟨b, -, rfl⟩ := List.mem_map.mp hpiece
    have hb := b.toNat_lt
    exact (Nat.length_toDigits_le_iff (by omega) (by omega)).mpr (by omega)
  have hle : (['.'].intercalate _).length ≤ _ := length_intercalate_le hpieces
  rw [List.length_map, Vector.length_toList] at hle
  rw [← String.length_toList, toList_ipv4Text]
  exact hle

/-! ### Runs of zeros -/

/-- A run of zeros, from its start with its length. -/
def IsZeros (segments : List ℕ) (run : ℕ × ℕ) : Prop :=
  ∀ j < run.2, segments[run.1 + j]? = some 0

/-- What is found is a run of zeros. -/
theorem isZeros_longestZeros {whole segments : List ℕ} {i start len : ℕ} {longest : ℕ × ℕ}
    (hrest : whole.drop i = segments) (hrun : IsZeros whole (start, len))
    (hend : len = 0 ∨ start + len = i) (hlongest : IsZeros whole longest) :
    IsZeros whole (longestZeros i start len longest segments) := by
  induction segments generalizing i start len longest with
  | nil => exact hlongest
  | cons segment segments ih =>
    have hhead : whole[i]? = some segment := by
      rw [← List.head?_drop, hrest, List.head?_cons]
    have htail : whole.drop (i + 1) = segments := by
      rw [← List.drop_drop, hrest, List.drop_one, List.tail_cons]
    rw [longestZeros]
    by_cases hzero : segment = 0
    · rw [if_pos hzero]
      -- the current run grows by this group, or starts with it
      have hgrown : IsZeros whole (if len = 0 then i else start, len + 1) := by
        intro j hj
        by_cases hlen : len = 0
        · obtain rfl : j = 0 := by omega
          rw [if_pos hlen, Nat.add_zero, hhead, hzero]
        · rw [if_neg hlen]
          obtain hlt | rfl : j < len ∨ j = len := by omega
          · exact hrun j hlt
          · rw [hend.resolve_left hlen, hhead, hzero]
      refine ih htail hgrown ?_ ?_
      · split
        all_goals omega
      · split
        · exact hgrown
        · exact hlongest
    · rw [if_neg hzero]
      exact ih htail (fun j hj => absurd hj (Nat.not_lt_zero j)) (.inl rfl) hlongest

/-- A list is its front, its run of zeros and its back. -/
theorem IsZeros.eq_append {segments : List ℕ} {run : ℕ × ℕ} (h : IsZeros segments run) :
    segments.take run.1 ++ (List.replicate run.2 0 ++ segments.drop (run.1 + run.2)) = segments := by
  have hzeros : (segments.drop run.1).take run.2 = List.replicate run.2 0 := by
    refine List.ext_getElem? fun j => ?_
    rw [List.getElem?_take, List.getElem?_replicate, List.getElem?_drop]
    split
    · exact h j ‹_›
    · rfl
  rw [← hzeros, ← List.drop_drop, List.take_append_drop, List.take_append_drop]

/-! ### IPv6 addresses -/

/-- The pieces between the colons of some groups; no groups are one empty piece. -/
def groupPieces (segments : List ℕ) : List (List Char) :=
  if segments = [] then [[]] else segments.map (Nat.toDigits 16)

/-- The groups that the pieces between colons stand for. What is missing are zeros, at the first empty
piece. -/
def ofPieces (pieces : List (List Char)) : List ℕ :=
  let front := pieces.takeWhile fun piece => piece ≠ []
  let back := (pieces.drop front.length).filter fun piece => piece ≠ []
  front.map ofHex ++ (List.replicate (8 - (front.length + back.length)) 0 ++ back.map ofHex)

/-- Groups in hexadecimal are read back. -/
theorem map_ofHex_toDigits (segments : List ℕ) :
    (segments.map (Nat.toDigits 16)).map ofHex = segments := by
  rw [List.map_map]
  exact (List.map_congr_left fun n _ => ofHex_toDigits n).trans (List.map_id _)

/-- A group in hexadecimal is not empty. -/
theorem ne_nil_of_mem_digits {segments : List ℕ} {piece : List Char}
    (h : piece ∈ segments.map (Nat.toDigits 16)) : decide (piece ≠ []) = true := by
  obtain ⟨n, -, rfl⟩ := List.mem_map.mp h
  exact decide_eq_true Nat.toDigits_ne_nil

/-- Without the empty pieces the groups are left. -/
theorem filter_groupPieces (segments : List ℕ) :
    (groupPieces segments).filter (fun piece => piece ≠ []) = segments.map (Nat.toDigits 16) := by
  rw [groupPieces]
  split
  · rename_i hnil
    rw [hnil]
    rfl
  · exact List.filter_eq_self.mpr fun piece => ne_nil_of_mem_digits

/-- Eight groups can be read off their pieces. -/
theorem ofPieces_digits {segments : List ℕ} (h : segments.length = 8) :
    ofPieces (segments.map (Nat.toDigits 16)) = segments := by
  have hfront : (segments.map (Nat.toDigits 16)).takeWhile (fun piece => piece ≠ []) =
      segments.map (Nat.toDigits 16) := List.takeWhile_eq_self_iff.mpr fun piece => ne_nil_of_mem_digits
  rw [ofPieces]
  rw [hfront, List.drop_length, List.filter_nil, map_ofHex_toDigits, List.length_map, h]
  exact List.append_nil segments

/-- The groups around a run of zeros can be read off their pieces. -/
theorem ofPieces_compressed (front back : List ℕ) :
    ofPieces (groupPieces front ++ [] :: groupPieces back) =
      front ++ (List.replicate (8 - (front.length + back.length)) 0 ++ back) := by
  have hfront : (groupPieces front ++ [] :: groupPieces back).takeWhile (fun piece => piece ≠ []) =
      front.map (Nat.toDigits 16) := by
    rw [groupPieces]
    split
    · rename_i hnil
      rw [hnil]
      rfl
    · rw [List.takeWhile_append_of_pos fun piece => ne_nil_of_mem_digits,
        List.takeWhile_cons_of_neg (by simp), List.append_nil]
  have hback : ((groupPieces front ++ [] :: groupPieces back).drop front.length).filter
      (fun piece => piece ≠ []) = back.map (Nat.toDigits 16) := by
    by_cases hnil : front = []
    · rw [hnil, List.length_nil, List.drop_zero, List.filter_append, List.filter_cons_of_neg (by simp),
        filter_groupPieces, filter_groupPieces]
      rfl
    · rw [groupPieces, if_neg hnil, List.drop_left' (List.length_map _),
        List.filter_cons_of_neg (by simp), filter_groupPieces]
  rw [ofPieces]
  rw [hfront, List.length_map, hback, map_ofHex_toDigits, map_ofHex_toDigits, List.length_map]

/-- The text of some groups is made of their pieces. -/
theorem toList_segmentsText (segments : List ℕ) :
    (segmentsText segments).toList = [':'].intercalate (groupPieces segments) := by
  rw [segmentsText, String.toList_intercalate, List.map_map, groupPieces]
  split
  · rename_i hnil
    rw [hnil]
    rfl
  · congr 1
    exact List.map_congr_left fun n _ => String.toList_ofList

/-- There is at least one piece. -/
theorem groupPieces_ne_nil (segments : List ℕ) : groupPieces segments ≠ [] := by
  rw [groupPieces]
  split
  · exact List.cons_ne_nil _ _
  · exact fun h => ‹segments ≠ []› (List.map_eq_nil_iff.mp h)

/-- Two colons enclose an empty piece. -/
theorem toList_compressed (front back : List ℕ) :
    (segmentsText front ++ "::" ++ segmentsText back).toList =
      [':'].intercalate (groupPieces front ++ [] :: groupPieces back) := by
  have hjoin : ∀ l : List (List Char), l ≠ [] →
      [':'].intercalate (l ++ [] :: groupPieces back) =
        [':'].intercalate l ++ [':', ':'] ++ [':'].intercalate (groupPieces back) := by
    intro l hl
    induction l with
    | nil => exact absurd rfl hl
    | cons piece l ih =>
      by_cases hnil : l = []
      · rw [hnil, List.singleton_append, List.intercalate_cons_cons, List.intercalate_singleton,
          List.intercalate_cons_of_ne_nil (groupPieces_ne_nil back)]
        simp
      · rw [List.cons_append, List.intercalate_cons_of_ne_nil (by simp), ih hnil,
          List.intercalate_cons_of_ne_nil hnil]
        simp only [List.append_assoc]
  rw [String.toList_append, String.toList_append, toList_segmentsText, toList_segmentsText,
    hjoin _ (groupPieces_ne_nil front)]
  rfl

/-- A piece is empty or the numeral of a group. -/
theorem mem_groupPieces {segments : List ℕ} {piece : List Char} (h : piece ∈ groupPieces segments) :
    piece = [] ∨ ∃ n ∈ segments, piece = Nat.toDigits 16 n := by
  rw [groupPieces] at h
  split at h
  · exact .inl (List.mem_singleton.mp h)
  · obtain ⟨n, hn, rfl⟩ := List.mem_map.mp h
    exact .inr ⟨n, hn, rfl⟩

/-- There is at most one piece more than groups. -/
theorem length_groupPieces_le (segments : List ℕ) :
    (groupPieces segments).length ≤ segments.length + 1 := by
  rw [groupPieces]
  split
  · exact Nat.le_add_left 1 _
  · rw [List.length_map]
    exact Nat.le_succ _

/-- How the text of groups is made up: of pieces between colons, off which the groups can be read. -/
structure MadeOf (text : String) (segments : List ℕ) (pieces : List (List Char)) : Prop where
  text : text.toList = [':'].intercalate pieces
  groups : ofPieces pieces = segments
  piece : ∀ piece ∈ pieces, piece = [] ∨ ∃ n ∈ segments, piece = Nat.toDigits 16 n
  ne_nil : pieces ≠ []
  length_le : pieces.length ≤ 11

/-- The text of an IPv6 address is made of pieces, unless it is an IPv4-mapped one. -/
theorem exists_madeOf {octets : IpBytes} (h : octets.bytes.take 12 ≠ mappedPrefix) :
    ∃ pieces, MadeOf (ipv6Text octets) (ipv6Segments octets) pieces := by
  have hlength : (ipv6Segments octets).length = 8 := by
    rw [ipv6Segments, List.length_map, List.length_range]
  have hzeros : IsZeros (ipv6Segments octets) (longestZeros 0 0 0 (0, 0) (ipv6Segments octets)) :=
    isZeros_longestZeros List.drop_zero (fun j hj => absurd hj (Nat.not_lt_zero j)) (.inl rfl)
      fun j hj => absurd hj (Nat.not_lt_zero j)
  have hparts := hzeros.eq_append
  rw [ipv6Text, if_neg h]
  dsimp only
  generalize longestZeros 0 0 0 (0, 0) (ipv6Segments octets) = run at hparts
  generalize ipv6Segments octets = segments at hlength hparts
  by_cases hlong : run.2 > 1
  · rw [if_pos hlong]
    have hcount := congrArg List.length hparts
    rw [List.length_append, List.length_append, List.length_replicate, hlength] at hcount
    -- the groups that are left out are as many as are missing
    have hrun : 8 - ((segments.take run.1).length + (segments.drop (run.1 + run.2)).length) =
      run.2 := by omega
    refine ⟨_, toList_compressed _ _, ?_, ?_, ?_, ?_⟩
    · rw [ofPieces_compressed, hrun, hparts]
    · intro piece hpiece
      rw [List.mem_append, List.mem_cons] at hpiece
      obtain hfront | hempty | hback := hpiece
      · exact (mem_groupPieces hfront).imp_right fun ⟨n, hn, hpiece⟩ =>
          ⟨n, List.mem_of_mem_take hn, hpiece⟩
      · exact .inl hempty
      · exact (mem_groupPieces hback).imp_right fun ⟨n, hn, hpiece⟩ =>
          ⟨n, List.mem_of_mem_drop hn, hpiece⟩
    · exact fun hnil => absurd (List.append_eq_nil_iff.mp hnil).2 (List.cons_ne_nil _ _)
    · have hfront := length_groupPieces_le (segments.take run.1)
      have hback := length_groupPieces_le (segments.drop (run.1 + run.2))
      rw [List.length_append, List.length_cons]
      omega
  · rw [if_neg hlong]
    have hpieces : groupPieces segments = segments.map (Nat.toDigits 16) := by
      rw [groupPieces, if_neg]
      rintro rfl
      cases hlength
    refine ⟨groupPieces segments, toList_segmentsText segments, ?_, fun piece => mem_groupPieces,
      groupPieces_ne_nil segments, ?_⟩
    · rw [hpieces, ofPieces_digits hlength]
    · rw [hpieces, List.length_map, hlength]
      omega

/-- A hexadecimal digit is neither a colon nor a dot. -/
theorem digitChar_ne : ∀ d < 16, d.digitChar ≠ ':' ∧ d.digitChar ≠ '.' := by decide

section
variable {text : String} {segments : List ℕ} {pieces : List (List Char)}

/-- A character of a piece is neither a colon nor a dot. -/
theorem MadeOf.ne_of_mem_piece (h : MadeOf text segments pieces) {piece : List Char}
    (hpiece : piece ∈ pieces) {c : Char} (hc : c ∈ piece) : c ≠ ':' ∧ c ≠ '.' := by
  obtain rfl | ⟨n, -, rfl⟩ := h.piece piece hpiece
  · cases hc
  · obtain ⟨d, hd, rfl⟩ := exists_of_mem_toDigits (by omega) hc
    exact digitChar_ne d hd

/-- No dot stands in a text of hexadecimal pieces. -/
theorem MadeOf.dot_not_mem (h : MadeOf text segments pieces) : '.' ∉ text.toList := by
  rw [h.text]
  intro hdot
  obtain hcolon | ⟨piece, hpiece, hmem⟩ := mem_intercalate hdot
  · exact absurd (List.mem_singleton.mp hcolon) (by decide)
  · exact (h.ne_of_mem_piece hpiece hmem).2 rfl

/-- Groups are known by their text. -/
theorem MadeOf.inj {segments' : List ℕ} {pieces' : List (List Char)}
    (h : MadeOf text segments pieces) (h' : MadeOf text segments' pieces') : segments = segments' := by
  have htext := h.text.symm.trans h'.text
  rw [intercalate_inj h.ne_nil h'.ne_nil
    (fun piece hpiece hmem => (h.ne_of_mem_piece hpiece hmem).1 rfl)
    (fun piece hpiece hmem => (h'.ne_of_mem_piece hpiece hmem).1 rfl)] at htext
  rw [← h.groups, htext, h'.groups]

/-- A text of eight groups has 55 characters at most. -/
theorem MadeOf.length_text_le (h : MadeOf text segments pieces)
    (hsegments : ∀ n ∈ segments, n < 65536) : text.length ≤ 55 := by
  have hpieces : ∀ piece ∈ pieces, piece.length ≤ 4 := by
    intro piece hpiece
    obtain rfl | ⟨n, hn, rfl⟩ := h.piece piece hpiece
    · exact Nat.zero_le 4
    · exact (Nat.length_toDigits_le_iff (by omega) (by omega)).mpr (hsegments n hn)
  have hle : ([':'].intercalate _).length ≤ _ := length_intercalate_le hpieces
  rw [← h.text, String.length_toList] at hle
  have hcount := h.length_le
  have hsep : [':'].length = 1 := rfl
  rw [hsep] at hle
  omega

end

/-- Addresses are told apart by their groups. -/
theorem ipv6Segments_injective : Function.Injective ipv6Segments := by
  intro a b hab
  have hsegment : ∀ i < 8, be16 (a.bytes.getD (2 * i) 0) (a.bytes.getD (2 * i + 1) 0) =
      be16 (b.bytes.getD (2 * i) 0) (b.bytes.getD (2 * i + 1) 0) := by
    intro i hi
    exact List.map_inj_left.mp hab i (List.mem_range.mpr hi)
  refine IpBytes.bytes_injective (List.ext_getElem (by simp) fun j hj hj' => ?_)
  have hbytes : a.bytes.getD j 0 = b.bytes.getD j 0 := by
    rw [IpBytes.length_bytes] at hj
    obtain ⟨hhi, hlo⟩ := u16FromBeBytes_injective (congrArg UInt16.ofNat (hsegment (j / 2) (by omega)))
    obtain heven | hodd : j = 2 * (j / 2) ∨ j = 2 * (j / 2) + 1 := by omega
    · rwa [← heven] at hhi
    · rwa [← hodd] at hlo
  rw [List.getD_eq_getElem?_getD, List.getD_eq_getElem?_getD, List.getElem?_eq_getElem hj,
    List.getElem?_eq_getElem hj'] at hbytes
  exact hbytes

/-! ### Addresses -/

/-- The text of an IPv4-mapped address. -/
theorem ipv6Text_of_mapped {octets : IpBytes} (h : octets.bytes.take 12 = mappedPrefix) :
    ipv6Text octets = "::ffff:" ++
      ipv4Text (Vector.ofFn fun i => octets.bytes.getD (12 + i) 0) := by
  rw [ipv6Text, if_pos h]

/-- The text of an IPv4 address is not that of an IPv6 address. -/
theorem ipv4Text_ne_ipv6Text (octets : Vector UInt8 4) (octets' : IpBytes) :
    ipv4Text octets ≠ ipv6Text octets' := by
  intro heq
  by_cases hmapped : octets'.bytes.take 12 = mappedPrefix
  -- one has a colon
  · rw [ipv6Text_of_mapped hmapped] at heq
    have hcolon : ':' ∈ (ipv4Text octets).toList := by
      rw [heq, String.toList_append]
      exact List.mem_append_left _ (by decide)
    exact absurd (mem_ipv4Text hcolon) (by decide)
  -- the other has a dot
  · obtain ⟨pieces, hpieces⟩ := exists_madeOf hmapped
    exact hpieces.dot_not_mem (heq ▸ dot_mem_ipv4Text octets)

/-- IPv6 addresses are told apart by their texts. -/
theorem ipv6Text_injective : Function.Injective ipv6Text := by
  have hdot : ∀ {octets : IpBytes}, octets.bytes.take 12 = mappedPrefix →
      '.' ∈ (ipv6Text octets).toList := by
    intro octets h
    rw [ipv6Text_of_mapped h, String.toList_append]
    exact List.mem_append_right _ (dot_mem_ipv4Text _)
  intro a b hab
  by_cases ha : a.bytes.take 12 = mappedPrefix
  · by_cases hb : b.bytes.take 12 = mappedPrefix
    · rw [ipv6Text_of_mapped ha, ipv6Text_of_mapped hb] at hab
      have hoctets := congrArg String.toList hab
      rw [String.toList_append, String.toList_append, List.append_cancel_left_eq,
        String.toList_inj] at hoctets
      refine decodeIp_injective ?_
      rw [decodeIp, decodeIp, if_pos ha, if_pos hb, ipv4Text_injective hoctets]
    · obtain ⟨pieces, hpieces⟩ := exists_madeOf hb
      exact absurd (hab ▸ hdot ha) hpieces.dot_not_mem
  · obtain ⟨pieces, hpieces⟩ := exists_madeOf ha
    by_cases hb : b.bytes.take 12 = mappedPrefix
    · exact absurd (hab ▸ hdot hb) hpieces.dot_not_mem
    · obtain ⟨pieces', hpieces'⟩ := exists_madeOf hb
      rw [hab] at hpieces
      exact ipv6Segments_injective (hpieces.inj hpieces')

/-- **Addresses are told apart by their texts.** -/
theorem ipText_injective : Function.Injective ipText := by
  intro a b hab
  match a, b with
  | .v4 octets, .v4 octets' => exact congrArg IpAddr.v4 (ipv4Text_injective hab)
  | .v4 octets, .v6 octets' => exact absurd hab (ipv4Text_ne_ipv6Text octets octets')
  | .v6 octets, .v4 octets' => exact absurd hab.symm (ipv4Text_ne_ipv6Text octets' octets)
  | .v6 octets, .v6 octets' => exact congrArg IpAddr.v6 (ipv6Text_injective hab)

/-- The text of an address is short. -/
theorem length_ipText_le (addr : IpAddr) : (ipText addr).length ≤ 55 := by
  cases addr with
  | v4 octets => exact (length_ipv4Text_le octets).trans (by omega)
  | v6 octets =>
    rw [ipText]
    by_cases h : octets.bytes.take 12 = mappedPrefix
    · have hle := length_ipv4Text_le (Vector.ofFn fun i => octets.bytes.getD (12 + i) 0)
      have hseven : "::ffff:".length = 7 := rfl
      rw [ipv6Text_of_mapped h, String.length_append, hseven]
      omega
    · obtain ⟨pieces, hpieces⟩ := exists_madeOf h
      refine hpieces.length_text_le fun n hn => ?_
      obtain ⟨i, -, rfl⟩ := List.mem_map.mp hn
      exact be16_lt _ _

end InFMon.Frontend
