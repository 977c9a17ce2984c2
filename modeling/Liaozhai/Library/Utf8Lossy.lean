import Mathlib.Data.List.Basic

/-!
# Lossy decoding of UTF-8

`String::from_utf8_lossy`: well-formed characters are decoded, and each maximal
piece of an ill-formed one is replaced by one U+FFFD.
-/

namespace Liaozhai.Utf8Lossy

set_option autoImplicit false

/-- The bytes of a string in memory. -/
def asBytes (s : String) : List UInt8 := s.toList.flatMap String.utf8EncodeChar

@[simp] theorem asBytes_append (s t : String) : asBytes (s ++ t) = asBytes s ++ asBytes t := by
  rw [asBytes, String.toList_append, List.flatMap_append]
  rfl

theorem length_asBytes (s : String) : (asBytes s).length = s.utf8ByteSize := by
  rw [← String.size_toByteArray, ← String.utf8Encode_toList, List.utf8Encode,
    List.size_toByteArray]
  rfl

def decodeChar? (bs : List UInt8) : Option Char := bs.toByteArray.utf8DecodeChar? 0

def isContinuation (b : UInt8) : Bool := 0x80 ≤ b && b ≤ 0xBF

/-- The second bytes a three- or four-byte character may have after `lead`. -/
def secondFits (lead b : UInt8) : Bool :=
  if lead = 0xE0 then 0xA0 ≤ b && b ≤ 0xBF
  else if lead = 0xED then 0x80 ≤ b && b ≤ 0x9F
  else if lead = 0xF0 then 0x90 ≤ b && b ≤ 0xBF
  else if lead = 0xF4 then 0x80 ≤ b && b ≤ 0x8F
  else isContinuation b

/-- How many bytes one replacement character stands for, at the start of bytes
that no character starts. -/
def invalidLength : List UInt8 → Nat
  | lead :: second :: rest =>
    if 0xE0 ≤ lead ∧ lead ≤ 0xEF ∧ secondFits lead second then 2
    else if 0xF0 ≤ lead ∧ lead ≤ 0xF4 ∧ secondFits lead second then
      match rest with
      | third :: _ => if isContinuation third then 3 else 2
      | [] => 2
    else 1
  | _ => 1

theorem invalidLength_pos (bs : List UInt8) : 0 < invalidLength bs := by
  unfold invalidLength
  split
  · split_ifs
    · omega
    · split
      · split <;> omega
      · omega
    · omega
  · omega

def lossyChars (bs : List UInt8) : List Char :=
  if _hne : bs = [] then []
  else
    match decodeChar? bs with
    | some c => c :: lossyChars (bs.drop c.utf8Size)
    | none => '\uFFFD' :: lossyChars (bs.drop (invalidLength bs))
termination_by bs.length
decreasing_by
  · have hpos := c.utf8Size_pos
    have hlen := List.length_pos_of_ne_nil _hne
    rw [List.length_drop]
    omega
  · have hpos := invalidLength_pos bs
    have hlen := List.length_pos_of_ne_nil _hne
    rw [List.length_drop]
    omega

def fromUtf8Lossy (bs : List UInt8) : String := String.ofList (lossyChars bs)

@[simp] theorem lossyChars_nil : lossyChars [] = [] := by
  rw [lossyChars, dif_pos rfl]

theorem decodeChar?_encode (c : Char) (bs : List UInt8) :
    decodeChar? (String.utf8EncodeChar c ++ bs) = some c := by
  rw [decodeChar?, List.toByteArray_append]
  exact ByteArray.utf8DecodeChar?_utf8EncodeChar_append

theorem lossyChars_encode (c : Char) (bs : List UInt8) :
    lossyChars (String.utf8EncodeChar c ++ bs) = c :: lossyChars bs := by
  rw [lossyChars, dif_neg (by simp [String.utf8EncodeChar_ne_nil])]
  simp only [decodeChar?_encode]
  rw [← String.length_utf8EncodeChar c, List.drop_left]

theorem lossyChars_flatMap_encode (cs : List Char) :
    lossyChars (cs.flatMap String.utf8EncodeChar) = cs := by
  induction cs with
  | nil => exact lossyChars_nil
  | cons c cs ih => rw [List.flatMap_cons, lossyChars_encode, ih]

/-- The bytes of a string are decoded to the string. -/
theorem fromUtf8Lossy_asBytes (s : String) : fromUtf8Lossy (asBytes s) = s := by
  rw [fromUtf8Lossy, asBytes, lossyChars_flatMap_encode, String.ofList_toList]

theorem lossyChars_eq_nil {bs : List UInt8} : lossyChars bs = [] ↔ bs = [] := by
  constructor
  · intro h
    by_contra hne
    rw [lossyChars, dif_neg hne] at h
    split at h <;> simp at h
  · rintro rfl
    exact lossyChars_nil

theorem fromUtf8Lossy_eq_empty {bs : List UInt8} : fromUtf8Lossy bs = "" ↔ bs = [] := by
  rw [fromUtf8Lossy, ← lossyChars_eq_nil]
  constructor
  · intro h
    have h' := congrArg String.toList h
    rwa [String.toList_ofList] at h'
  · intro h
    rw [h]

/-- Every character stands for at least one byte. -/
theorem length_lossyChars_le (bs : List UInt8) : (lossyChars bs).length ≤ bs.length := by
  induction hn : bs.length using Nat.strongRecOn generalizing bs with
  | ind n ih =>
    by_cases hne : bs = []
    · rw [hne, lossyChars_nil]
      exact Nat.zero_le _
    · have hlen := List.length_pos_of_ne_nil hne
      rw [lossyChars, dif_neg hne]
      split
      · rename_i c _
        have hpos := c.utf8Size_pos
        have hrest := ih (bs.drop c.utf8Size).length (by rw [List.length_drop]; omega) _ rfl
        rw [List.length_drop] at hrest
        rw [List.length_cons]
        omega
      · have hpos := invalidLength_pos bs
        have hrest := ih (bs.drop (invalidLength bs)).length (by rw [List.length_drop]; omega) _ rfl
        rw [List.length_drop] at hrest
        rw [List.length_cons]
        omega

theorem length_le_utf8ByteSize (s : String) : s.length ≤ s.utf8ByteSize := by
  have hle := length_lossyChars_le (asBytes s)
  rw [asBytes, lossyChars_flatMap_encode] at hle
  rw [← length_asBytes]
  exact hle

theorem encode_ascii {b : UInt8} (hb : b < 0x80) :
    String.utf8EncodeChar (Char.ofNat b.toNat) = [b] := by
  have hlt : b.toNat < 128 := hb
  have hval : (Char.ofNat b.toNat).val.toNat = b.toNat := by
    rw [Char.ofNat, dif_pos (.inl (by omega))]
    rfl
  unfold String.utf8EncodeChar
  dsimp only
  rw [hval, if_pos (by omega), UInt8.ofNat_toNat]

theorem length_lossyChars_ascii {bs : List UInt8} (h : ∀ b ∈ bs, b < 0x80) :
    (lossyChars bs).length = bs.length := by
  induction bs with
  | nil =>
    rw [lossyChars_nil]
    rfl
  | cons b bs ih =>
    have hcons : b :: bs = String.utf8EncodeChar (Char.ofNat b.toNat) ++ bs := by
      rw [encode_ascii (h b List.mem_cons_self)]
      rfl
    have hchars : lossyChars (b :: bs) = Char.ofNat b.toNat :: lossyChars bs := by
      rw [hcons, lossyChars_encode]
    rw [hchars, List.length_cons, ih fun x hx => h x (List.mem_cons_of_mem _ hx), List.length_cons]

theorem ofNat_ne_ff {n : Nat} (h : n < 0xFF) : UInt8.ofNat n ≠ 0xFF := by
  intro he
  have hnat := congrArg UInt8.toNat he
  simp only [UInt8.toNat_ofNat', UInt8.reduceToNat] at hnat
  omega

theorem byte_ne_of_mem_encode {c : Char} {b : UInt8} (h : b ∈ String.utf8EncodeChar c) :
    b ≠ 0xFF := by
  unfold String.utf8EncodeChar at h
  dsimp only at h
  split_ifs at h
  all_goals
    simp only [List.mem_cons, List.not_mem_nil, or_false] at h
  · rw [h]
    exact ofNat_ne_ff (by omega)
  · rcases h with h | h
    all_goals
      rw [h]
      exact ofNat_ne_ff (by omega)
  · rcases h with h | h | h
    all_goals
      rw [h]
      exact ofNat_ne_ff (by omega)
  · rcases h with h | h | h | h
    all_goals
      rw [h]
      exact ofNat_ne_ff (by omega)

/-- No byte of a string is 0xFF. -/
theorem byte_ne_of_mem_asBytes {s : String} {b : UInt8} (h : b ∈ asBytes s) : b ≠ 0xFF := by
  obtain ⟨c, -, hb⟩ := List.mem_flatMap.mp h
  exact byte_ne_of_mem_encode hb

theorem le_ofNat_add {m n : Nat} (hm : 128 ≤ m) (hn : n + m < 256) :
    ¬ UInt8.ofNat (n + m) < 0x80 := by
  rw [UInt8.lt_iff_toNat_lt, UInt8.toNat_ofNat']
  simp only [UInt8.reduceToNat]
  omega

/-- An ASCII byte of an encoded character is that character. -/
theorem eq_of_mem_encode {c : Char} {b : UInt8} (h : b ∈ String.utf8EncodeChar c) (hb : b < 0x80) :
    c.toNat = b.toNat := by
  unfold String.utf8EncodeChar at h
  dsimp only at h
  split_ifs at h with hone htwo hthree
  all_goals simp only [List.mem_cons, List.not_mem_nil, or_false] at h
  · subst h
    rw [UInt8.toNat_ofNat']
    change c.val.toNat = _
    omega
  · rcases h with rfl | rfl
    all_goals exact absurd hb (le_ofNat_add (by omega) (by omega))
  · rcases h with rfl | rfl | rfl
    all_goals exact absurd hb (le_ofNat_add (by omega) (by omega))
  · rcases h with rfl | rfl | rfl | rfl
    all_goals exact absurd hb (le_ofNat_add (by omega) (by omega))

theorem ascii_mem_asBytes {s : String} {b : UInt8} {c : Char} (h : b ∈ asBytes s) (hb : b < 0x80)
    (hc : c.toNat = b.toNat) : c ∈ s.toList := by
  obtain ⟨d, hd, hmem⟩ := List.mem_flatMap.mp h
  have hnat : d.toNat = c.toNat := (eq_of_mem_encode hmem hb).trans hc.symm
  obtain rfl : d = c := Char.ext (UInt32.toNat_inj.mp hnat)
  exact hd

example : fromUtf8Lossy [0x68, 0xE2, 0x82, 0x69, 0xFF] = "h\uFFFDi\uFFFD" := by decide +kernel

end Liaozhai.Utf8Lossy
