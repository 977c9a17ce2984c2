import Mathlib.Algebra.Order.Ring.Nat
import Mathlib.Data.List.DropRight

/-!
# String functions of the standard library

`str::trim`, `str::to_ascii_lowercase`, `str::replace`, `str::parse::<usize>` and
the left-aligned padding of `format!`, on lists of characters.
-/

namespace Liaozhai.RustString

set_option autoImplicit false

/-- `char::is_whitespace`: the characters with the property White_Space. -/
def isWhitespace (c : Char) : Bool :=
  let n := c.toNat
  (9 ≤ n && n ≤ 13) || n == 0x20 || n == 0x85 || n == 0xA0 || n == 0x1680 ||
    (0x2000 ≤ n && n ≤ 0x200A) || n == 0x2028 || n == 0x2029 || n == 0x202F || n == 0x205F ||
    n == 0x3000

def trimChars (cs : List Char) : List Char :=
  (cs.dropWhile isWhitespace).rdropWhile isWhitespace

def trim (s : String) : String := String.ofList (trimChars s.toList)

def toAsciiLowercase (s : String) : String := String.ofList (s.toList.map Char.toLower)

/-- Matches of `pattern` from the left, none overlapping; `skip` counts the
characters of a match that are still to pass. -/
def replaceChars (pattern replacement : List Char) : Nat → List Char → List Char
  | _, [] => []
  | skip + 1, _ :: cs => replaceChars pattern replacement skip cs
  | 0, c :: cs =>
    if pattern.isPrefixOf (c :: cs) then
      replacement ++ replaceChars pattern replacement (pattern.length - 1) cs
    else c :: replaceChars pattern replacement 0 cs

/-- `s.replace(pattern, replacement)` for a pattern that is not empty. -/
def replace (s pattern replacement : String) : String :=
  String.ofList (replaceChars pattern.toList replacement.toList 0 s.toList)

def usizeMax : Nat := 2 ^ 64 - 1

def digit (c : Char) : Option Nat :=
  if '0' ≤ c ∧ c ≤ '9' then some (c.toNat - '0'.toNat) else none

/-- The digits from the left; an overflow is an error. -/
def parseDigits : Nat → List Char → Option Nat
  | value, [] => some value
  | value, c :: cs =>
    match digit c with
    | none => none
    | some d => if value * 10 + d ≤ usizeMax then parseDigits (value * 10 + d) cs else none

/-- `s.parse::<usize>().ok()`: an optional plus sign and at least one digit. -/
def parseUsize (s : String) : Option Nat :=
  match s.toList with
  | [] => none
  | ['+'] => none
  | '+' :: cs => parseDigits 0 cs
  | cs => parseDigits 0 cs

/-- The text with spaces after it; the width counts characters. -/
def padded (s : String) (width : Nat) : String :=
  s ++ String.ofList (List.replicate (width - s.length) ' ')

/-- `u16::MAX`, the largest width that `format!` takes. -/
def widthMax : Nat := 65535

/-- `format!("{s:<width$}")`, which panics on a greater width. -/
def padRight (s : String) (width : Nat) : Option String :=
  if width ≤ widthMax then some (padded s width) else none

theorem length_padded (s : String) (width : Nat) :
    (padded s width).length = max s.length width := by
  rw [padded, String.length_append, String.length_ofList, List.length_replicate]
  omega

theorem trimChars_trimChars (cs : List Char) : trimChars (trimChars cs) = trimChars cs := by
  have hstart : (trimChars cs).dropWhile isWhitespace = trimChars cs := by
    unfold trimChars
    rw [List.dropWhile_eq_self_iff]
    intro hpos
    have hkept := List.rdropWhile_prefix isWhitespace (l := cs.dropWhile isWhitespace)
    rw [hkept.getElem hpos]
    exact List.dropWhile_get_zero_not isWhitespace cs (Nat.lt_of_lt_of_le hpos hkept.length_le)
  change ((trimChars cs).dropWhile isWhitespace).rdropWhile isWhitespace = trimChars cs
  rw [hstart]
  exact List.rdropWhile_idempotent isWhitespace (cs.dropWhile isWhitespace)

/-- Trimming twice is trimming once. -/
@[simp] theorem trim_trim (s : String) : trim (trim s) = trim s := by
  rw [trim, trim, String.toList_ofList, trimChars_trimChars]

/-! ### Numbers as they are printed -/

theorem trimChars_eq_self {cs : List Char} (h : ∀ c ∈ cs, isWhitespace c = false) :
    trimChars cs = cs := by
  have hstart : cs.dropWhile isWhitespace = cs := by
    rw [List.dropWhile_eq_self_iff]
    intro hpos
    rw [h _ (List.getElem_mem hpos)]
    exact Bool.false_ne_true
  rw [trimChars, hstart, List.rdropWhile_eq_self_iff]
  intro hne
  rw [h _ (List.getLast_mem hne)]
  exact Bool.false_ne_true

theorem isDigit_toString {n : Nat} {c : Char} (h : c ∈ (toString n).toList) :
    c.isDigit = true := by
  rw [Nat.toString_eq_ofList_toDigits, String.toList_ofList] at h
  exact Nat.isDigit_of_mem_toDigits (by decide) (by decide) h

theorem isDigit_bounds {c : Char} (h : c.isDigit = true) : 48 ≤ c.toNat ∧ c.toNat ≤ 57 := by
  simp only [Char.isDigit, Bool.and_eq_true, decide_eq_true_eq] at h
  exact h

theorem isWhitespace_of_isDigit {c : Char} (h : c.isDigit = true) : isWhitespace c = false := by
  have hbounds := isDigit_bounds h
  simp only [isWhitespace, Bool.or_eq_false_iff, Bool.and_eq_false_iff, decide_eq_false_iff_not,
    beq_eq_false_iff_ne]
  omega

@[simp] theorem trim_toString (n : Nat) : trim (toString n) = toString n := by
  rw [trim, trimChars_eq_self, String.ofList_toList]
  intro c hc
  exact isWhitespace_of_isDigit (isDigit_toString hc)

theorem toLower_of_isDigit {c : Char} (h : c.isDigit = true) : c.toLower = c := by
  have hbounds := isDigit_bounds h
  unfold Char.toLower
  rw [dif_neg]
  intro hupper
  have hle : 65 ≤ c.toNat := UInt32.le_iff_toNat_le.mp hupper.1
  omega

theorem toAsciiLowercase_toString (n : Nat) : toAsciiLowercase (toString n) = toString n := by
  rw [toAsciiLowercase, List.map_congr_left (g := id), List.map_id, String.ofList_toList]
  intro c hc
  exact toLower_of_isDigit (isDigit_toString hc)

theorem digit_of_isDigit {c : Char} (h : c.isDigit = true) :
    digit c = some (c.toNat - '0'.toNat) := by
  apply if_pos
  simp only [Char.isDigit, Bool.and_eq_true, decide_eq_true_eq] at h
  exact h

/-- Digits parse to their value if it does not overflow. -/
theorem parseDigits_eq_some {cs : List Char} (hcs : ∀ c ∈ cs, c.isDigit = true) {value : Nat}
    (h : Nat.ofDigitChars 10 cs value ≤ usizeMax) :
    parseDigits value cs = some (Nat.ofDigitChars 10 cs value) := by
  induction cs generalizing value with
  | nil => rw [parseDigits, Nat.ofDigitChars_nil]
  | cons c cs ih =>
    rw [Nat.ofDigitChars_cons, Nat.mul_comm] at h ⊢
    have hnow : value * 10 + (c.toNat - '0'.toNat) ≤ usizeMax := by
      apply Nat.le_trans _ h
      rw [Nat.ofDigitChars_eq_ofDigitChars_zero]
      apply Nat.le_trans (Nat.le_mul_of_pos_left _ (Nat.pow_pos (Nat.succ_pos 9)))
      exact Nat.le_add_right _ _
    rw [parseDigits, digit_of_isDigit (hcs c List.mem_cons_self)]
    dsimp only
    rw [if_pos hnow]
    exact ih (fun d hd => hcs d (List.mem_cons_of_mem _ hd)) h

theorem parseUsize_of_head {s : String} {c : Char} {cs : List Char} (hs : s.toList = c :: cs)
    (hc : c ≠ '+') : parseUsize s = parseDigits 0 (c :: cs) := by
  unfold parseUsize
  rw [hs]
  split
  · cases ‹c :: cs = []›
  · exact absurd (List.cons.inj ‹c :: cs = ['+']›).1 hc
  · rename_i cs' hplus
    exact absurd (List.cons.inj hplus).1 hc
  · rfl

theorem parseUsize_toString {n : Nat} (h : n ≤ usizeMax) : parseUsize (toString n) = some n := by
  have hdigits : (toString n).toList = Nat.toDigits 10 n := by
    rw [Nat.toString_eq_ofList_toDigits, String.toList_ofList]
  have hall : ∀ c ∈ Nat.toDigits 10 n, c.isDigit = true := by
    intro c hc
    exact isDigit_toString (hdigits ▸ hc)
  cases hcs : Nat.toDigits 10 n with
  | nil => exact absurd hcs Nat.toDigits_ne_nil
  | cons c cs =>
    have hplus : c ≠ '+' := by
      intro hplus
      have hdigit := hall c (hcs ▸ List.mem_cons_self)
      rw [hplus] at hdigit
      cases hdigit
    rw [parseUsize_of_head (hdigits.trans hcs) hplus, ← hcs, parseDigits_eq_some hall]
    · rw [Nat.ofDigitChars_ten_toDigits]
    · rw [Nat.ofDigitChars_ten_toDigits]
      exact h

/-! ### Numerals of any length -/

def digitsValue (cs : List Char) : Option Nat :=
  if cs ≠ [] ∧ cs.all Char.isDigit then some (Nat.ofDigitChars 10 cs 0) else none

/-- The value of a decimal numeral: digits, and a plus sign allowed before them. -/
def numeral (s : String) : Option Nat :=
  if s.toList.head? = some '+' then digitsValue s.toList.tail else digitsValue s.toList

theorem isDigit_of_digit {c : Char} {d : Nat} (h : digit c = some d) : c.isDigit = true := by
  unfold digit at h
  split at h
  · rename_i hc
    simp only [Char.isDigit, Bool.and_eq_true, decide_eq_true_eq]
    exact hc
  · cases h

/-- What parses are digits, and their value does not overflow. -/
theorem parseDigits_some {cs : List Char} {value n : Nat} (hvalue : value ≤ usizeMax)
    (h : parseDigits value cs = some n) :
    (∀ c ∈ cs, c.isDigit = true) ∧ Nat.ofDigitChars 10 cs value = n ∧ n ≤ usizeMax := by
  induction cs generalizing value with
  | nil =>
    obtain rfl := Option.some.inj h
    exact ⟨by simp, Nat.ofDigitChars_nil, hvalue⟩
  | cons c cs ih =>
    rw [parseDigits] at h
    cases hd : digit c with
    | none =>
      rw [hd] at h
      cases h
    | some d =>
      rw [hd] at h
      dsimp only at h
      split at h
      · rename_i hnow
        have hdigit := isDigit_of_digit hd
        obtain ⟨hrest, hn, hfits⟩ := ih hnow h
        rw [digit_of_isDigit hdigit] at hd
        refine ⟨?_, ?_, hfits⟩
        · intro c' hc'
          rcases List.mem_cons.mp hc' with rfl | hmem
          · exact hdigit
          · exact hrest c' hmem
        · rw [Nat.ofDigitChars_cons, Option.some.inj hd, Nat.mul_comm]
          exact hn
      · cases h

theorem parseDigits_zero {cs : List Char} (hcs : cs ≠ []) :
    parseDigits 0 cs = (digitsValue cs).filter fun k => k ≤ usizeMax := by
  unfold digitsValue
  by_cases hall : cs.all Char.isDigit = true
  · have hdigits : ∀ c ∈ cs, c.isDigit = true := List.all_eq_true.mp hall
    rw [if_pos ⟨hcs, hall⟩, Option.filter_some]
    split
    · rename_i hfits
      exact parseDigits_eq_some hdigits (by simpa using hfits)
    · rename_i hover
      rw [Option.eq_none_iff_forall_ne_some]
      intro n hn
      obtain ⟨_, rfl, hfits⟩ := parseDigits_some (Nat.zero_le _) hn
      exact hover (by simpa using hfits)
  · rw [if_neg (fun h => hall h.2), Option.filter_none, Option.eq_none_iff_forall_ne_some]
    intro n hn
    exact hall (List.all_eq_true.mpr (parseDigits_some (Nat.zero_le _) hn).1)

/-- A string parses if and only if it is a numeral whose value does not overflow. -/
theorem parseUsize_eq (s : String) :
    parseUsize s = (numeral s).filter fun k => k ≤ usizeMax := by
  unfold numeral
  cases hs : s.toList with
  | nil =>
    unfold parseUsize
    rw [hs]
    rfl
  | cons c cs =>
    by_cases hplus : c = '+'
    · subst hplus
      rw [if_pos (List.head?_cons), List.tail_cons]
      unfold parseUsize
      rw [hs]
      cases cs with
      | nil => rfl
      | cons d cs => exact parseDigits_zero (List.cons_ne_nil d cs)
    · have hhead : (c :: cs).head? ≠ some '+' := by simpa using hplus
      rw [if_neg hhead, ← parseDigits_zero (List.cons_ne_nil c cs)]
      exact parseUsize_of_head hs hplus

example : trim "\u3000 a b\t\r" = "a b" := by decide

end Liaozhai.RustString
