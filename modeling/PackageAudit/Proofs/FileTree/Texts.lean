/-
PackageAudit.Proofs.FileTree.Texts — a text written to a file is read back.

A character takes as many octets as its code asks for, and the lead octet says
how many. What a reading refuses are codes written with too many octets, the
codes set aside for halves of a pair and those beyond the last one: each of
them shows in the range that is asked of the second octet. Since no character
has such a code, the second octet is always in its range
(`followers?_of_three`, `followers?_of_four`), and the reading of one character
takes just its octets (`exists_character`). The rest is an induction on the
characters, with enough fuel as no character is without octets.

What a document in a file is follows from its characters, with no look at the
octets, when no line ends in a carriage return (`readText_of_find`).
-/
import PackageAudit.FileTree.Document
import PackageAudit.Proofs.Json.Layout

namespace PackageAudit

namespace Text

namespace Utf8

/-! ## 1. One character -/

/-- An octet in its range adds six bits. -/
theorem follow_octet {low high b code good : Nat} {more : List (Nat × Nat)} {rest : Octets}
    (hlow : low ≤ b) (hhigh : b ≤ high) (hb : b < 256) :
    follow ((low, high) :: more) code good (UInt8.ofNat b :: rest) =
      follow more (code * 64 + (b - 0x80)) (good + 1) rest := by
  rw [follow, UInt8.toNat_ofNat_of_lt' hb, if_pos (by simp [hlow, hhigh])]

theorem followers?_of_two {lead : Nat} (hlow : 0xC2 ≤ lead) (hhigh : lead < 0xE0) :
    followers? lead = some [(0x80, 0xBF)] := by
  rw [followers?, if_neg (by omega), if_neg (by omega), if_pos hhigh]

/-- Of three octets the second one tells codes that two octets suffice for and halves
of a pair. -/
theorem followers?_of_three {lead : Nat} (hlow : 0xE0 ≤ lead) (hhigh : lead < 0xF0) :
    followers? lead = some [(if lead = 0xE0 then 0xA0 else 0x80,
      if lead = 0xED then 0x9F else 0xBF), (0x80, 0xBF)] := by
  rw [followers?, if_neg (by omega), if_neg (by omega), if_neg (by omega)]
  by_cases hfirst : lead = 0xE0
  · simp [hfirst]
  by_cases hpair : lead = 0xED
  · simp [hpair]
  simp [hfirst, hpair, hhigh]

/-- Of four octets the second one tells codes that three octets suffice for and codes
beyond the last one. -/
theorem followers?_of_four {lead : Nat} (hlow : 0xF0 ≤ lead) (hhigh : lead ≤ 0xF4) :
    followers? lead = some [(if lead = 0xF0 then 0x90 else 0x80,
      if lead = 0xF4 then 0x8F else 0xBF), (0x80, 0xBF), (0x80, 0xBF)] := by
  obtain rfl | rfl | rfl | rfl | rfl :
      lead = 0xF0 ∨ lead = 0xF1 ∨ lead = 0xF2 ∨ lead = 0xF3 ∨ lead = 0xF4 := by
    omega
  all_goals rfl

/-- The codes of characters: none is a half of a pair, and none is beyond the last. -/
theorem toNat_of_char (c : Char) :
    c.toNat < 0xD800 ∨ 0xDFFF < c.toNat ∧ c.toNat < 0x110000 := c.valid

/-- What a lead octet asks for is read. -/
theorem character_of_followers {lead : Nat} {ranges : List (Nat × Nat)} (hlead : lead < 256)
    (h : followers? lead = some ranges) (rest : Octets) :
    character (UInt8.ofNat lead) rest = follow ranges (leadBits lead ranges.length) 1 rest := by
  rw [character, UInt8.toNat_ofNat_of_lt' hlead, h]

/-- The octets of a character are read as its code, and no more are taken. -/
theorem exists_character (c : Char) (rest : Octets) :
    ∃ lead tail, String.utf8EncodeChar c = lead :: tail ∧
      character lead (tail ++ rest) = .ok (c.toNat, rest) := by
  have hvalid := toNat_of_char c
  have hcode : c.val.toNat = c.toNat := rfl
  unfold String.utf8EncodeChar
  simp only [hcode]
  generalize c.toNat = v at hvalid
  -- One case for each number of octets; the bounds on the code are those of the lead octet.
  by_cases hone : v ≤ 127
  · rw [if_pos hone]
    refine ⟨_, [], rfl, ?_⟩
    have hlead : followers? v = some [] := by rw [followers?, if_pos (by omega)]
    rw [character_of_followers (by omega) hlead]
    rfl
  rw [if_neg hone]
  by_cases htwo : v ≤ 2047
  · rw [if_pos htwo]
    refine ⟨_, [_], rfl, ?_⟩
    have hbits : (v / 64 % 32 + 192 - 0xC0) * 64 + (v % 64 + 128 - 0x80) = v := by omega
    rw [character_of_followers (by omega) (followers?_of_two (by omega) (by omega)),
      List.singleton_append, follow_octet (by omega) (by omega) (by omega), follow]
    exact congrArg (fun code => Except.ok (code, rest)) hbits
  rw [if_neg htwo]
  by_cases hthree : v ≤ 65535
  · rw [if_pos hthree]
    refine ⟨_, [_, _], rfl, ?_⟩
    have hbits : ((v / 4096 % 16 + 224 - 0xE0) * 64 + (v / 64 % 64 + 128 - 0x80)) * 64 +
        (v % 64 + 128 - 0x80) = v := by omega
    rw [character_of_followers (by omega) (followers?_of_three (by omega) (by omega)),
      List.cons_append, List.singleton_append,
      follow_octet (by split <;> omega) (by split <;> omega) (by omega),
      follow_octet (by omega) (by omega) (by omega), follow]
    exact congrArg (fun code => Except.ok (code, rest)) hbits
  · rw [if_neg hthree]
    refine ⟨_, [_, _, _], rfl, ?_⟩
    have hbits : (((v / 262144 % 8 + 240 - 0xF0) * 64 + (v / 4096 % 64 + 128 - 0x80)) * 64 +
        (v / 64 % 64 + 128 - 0x80)) * 64 + (v % 64 + 128 - 0x80) = v := by omega
    rw [character_of_followers (by omega) (followers?_of_four (by omega) (by omega)),
      List.cons_append, List.cons_append, List.singleton_append,
      follow_octet (by split <;> omega) (by split <;> omega) (by omega),
      follow_octet (by omega) (by omega) (by omega),
      follow_octet (by omega) (by omega) (by omega), follow]
    exact congrArg (fun code => Except.ok (code, rest)) hbits

/-! ## 2. A text -/

theorem toListLoop_eq (bytes : ByteArray) (i : Nat) (acc : Octets) :
    ByteArray.toList.loop bytes i acc = acc.reverse ++ bytes.data.toList.drop i := by
  fun_induction ByteArray.toList.loop bytes i acc with
  | case1 i acc hin ih =>
    have hlength : i < bytes.data.toList.length := by simpa using hin
    rw [ih, List.drop_eq_getElem_cons hlength]
    simp [ByteArray.get!, hin]
  | case2 i acc hout =>
    rw [List.drop_eq_nil_of_le (by simpa using Nat.le_of_not_lt hout), List.append_nil]

theorem encode_ofList (cs : List Char) :
    encode (String.ofList cs) = cs.flatMap String.utf8EncodeChar := by
  rw [encode, String.toUTF8, String.toByteArray_ofList, List.utf8Encode, ByteArray.toList,
    toListLoop_eq]
  simp

theorem length_le_octets (cs : List Char) :
    cs.length ≤ (cs.flatMap String.utf8EncodeChar).length := by
  induction cs with
  | nil => exact Nat.le_refl 0
  | cons c cs ih =>
    obtain ⟨lead, tail, hoctets, -⟩ := exists_character c []
    rw [List.flatMap_cons, hoctets, List.length_append, List.length_cons, List.length_cons]
    omega

theorem decodeFrom_octets {cs : List Char} {fuel : Nat} (h : cs.length ≤ fuel) (position : Nat)
    (acc : List Char) : decodeFrom fuel position (cs.flatMap String.utf8EncodeChar) acc =
      .ok (acc.reverse ++ cs) := by
  induction cs generalizing fuel position acc with
  | nil => cases fuel <;> simp [decodeFrom]
  | cons c cs ih =>
    obtain ⟨fuel, rfl⟩ : ∃ n, fuel = n + 1 := ⟨fuel - 1, by simp at h; omega⟩
    obtain ⟨lead, tail, hoctets, hread⟩ := exists_character c (cs.flatMap String.utf8EncodeChar)
    rw [List.flatMap_cons, hoctets, List.cons_append, decodeFrom, hread]
    dsimp only
    rw [ih (Nat.le_of_succ_le_succ h), Char.ofNat_toNat, List.reverse_cons, List.append_assoc]
    rfl

/-- **Written and read.** The octets of a text are read as the text. -/
theorem decode_encode (s : String) : decode (encode s) = .ok s := by
  have hs := encode_ofList s.toList
  rw [String.ofList_toList] at hs
  rw [decode, hs, decodeFrom_octets (length_le_octets s.toList)]
  simp [Except.map]

end Utf8

theorem unifyLineEnds_of_not_mem {cs : List Char} (h : '\r' ∉ cs) : unifyLineEnds cs = cs := by
  induction cs with
  | nil => rfl
  | cons c cs ih =>
    rw [List.mem_cons, not_or] at h
    simp [unifyLineEnds, Ne.symm h.1, ih h.2]

end Text

/-! ## 3. A file -/

/-- The characters write a value: nothing but blanks is behind it, there is no mark in
front of it, and no line ends in a carriage return. -/
structure Json.Write (cs : List Char) (v : Json) : Prop where
  ends : '\r' ∉ cs
  head : (cs.head? == some '\ufeff') = false
  value : (Json.value (cs.length + 1) (Cursor.skipBlanks ⟨cs, 0⟩)).map
    (fun r => (r.1, r.2.skipBlanks.rest)) = .ok (v, [])

theorem Json.Write.parse_eq {cs : List Char} {v : Json} (h : Json.Write cs v) :
    parse (String.ofList cs) = .ok v := by
  have hvalue := h.value
  cases hread : Json.value (cs.length + 1) (Cursor.skipBlanks ⟨cs, 0⟩) with
  | error f =>
    rw [hread] at hvalue
    cases hvalue
  | ok r =>
    rw [hread] at hvalue
    obtain ⟨rfl, hrest⟩ := Prod.mk.inj (Except.ok.inj hvalue)
    rw [Document.parse_of_ok h.head hread, hrest]
    rfl

namespace FileTree

variable {t : FileTree} {path text : String} {place : List String} {cs : List Char} {v : Json}

section

variable (hfile : t.find path = .ok ⟨place, .file (Text.Utf8.encode text)⟩)
  (htext : text = String.ofList cs)

include hfile htext

/-- The text of a file is the one that was written, if no line ends in a carriage
return. -/
theorem readText_of_find (hends : '\r' ∉ cs) : t.readText path = .ok (String.ofList cs) := by
  simp only [readText, read, hfile, htext, Text.Utf8.decode_encode, String.toList_ofList,
    Text.unifyLineEnds_of_not_mem hends]

theorem readWith_of_find (hends : '\r' ∉ cs) (parse : String → Except Json.Error Json) :
    readWith parse t path = (parse (String.ofList cs)).mapError .json := by
  rw [readWith, readText_of_find hfile htext hends]

/-- **Documents in files.** A file in which a value was written holds that value,
whether or not comments are allowed in it. -/
theorem readJson_of_write (h : Json.Write cs v) : t.readJson path = .ok v := by
  rw [readJson, readWith_of_find hfile htext h.ends, h.parse_eq]
  rfl

theorem readRelaxed_of_write (h : Json.Write cs v) : t.readRelaxed path = .ok v := by
  rw [readRelaxed, readWith_of_find hfile htext h.ends, Json.parseRelaxed, h.parse_eq]
  rfl

end

end FileTree

end PackageAudit
