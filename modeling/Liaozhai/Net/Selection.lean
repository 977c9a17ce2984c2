import Liaozhai.Net.Session

/-!
# Selection by value

The two refusals at the world prompt stand for two kinds of input: one that is no
number, and a number without a world. The parser has one kind of failure for the
first and for a number that does not fit into a machine word, so such a number is
refused as if it were none.
-/

namespace Liaozhai.Net

open Auth Constants RustString Worlds
set_option autoImplicit false

namespace Session

variable {session : Session} {account : Account} {line : String}

/-- The answer to a number, and to an input that is none. -/
def selectByValue (registry : WorldRegistry) : Option Nat → Transition
  | some k =>
    if h : 1 ≤ k ∧ k ≤ registry.len then
      .disconnect ("\r\n" ++ replace worldSelectedTemplate "{world}"
        (registry.worlds.get ⟨k - 1, Nat.lt_of_lt_of_le (Nat.sub_one_lt_of_lt h.1) h.2⟩).name)
    else
      .stay (replace worldSelectionOutOfRangeMsg "{n}" (toString registry.len) ++
        formatWorldSelectPrompt registry.len)
  | none => .stay (worldSelectionNonNumericMsg ++ formatWorldSelectPrompt registry.len)

theorem getByPosition_eq_some {registry : WorldRegistry} {k : Nat}
    (h : 1 ≤ k ∧ k ≤ registry.len) :
    registry.getByPosition k =
      some (registry.worlds.get ⟨k - 1, Nat.lt_of_lt_of_le (Nat.sub_one_lt_of_lt h.1) h.2⟩) := by
  have hpos : k ≠ 0 := Nat.ne_of_gt h.1
  have hlt : k - 1 < registry.worlds.length := Nat.lt_of_lt_of_le (Nat.sub_one_lt_of_lt h.1) h.2
  rw [WorldRegistry.getByPosition, if_neg hpos, List.getElem?_eq_getElem hlt]
  rfl

theorem getByPosition_eq_none {registry : WorldRegistry} {k : Nat}
    (h : ¬ (1 ≤ k ∧ k ≤ registry.len)) : registry.getByPosition k = none := by
  unfold WorldRegistry.getByPosition
  split
  · rfl
  · rename_i hpos
    apply List.getElem?_eq_none
    change registry.len ≤ k - 1
    omega

/-- At the world prompt the answer goes by the value, as far as the input parses. -/
theorem handleInput_eq_selectByValue (hstate : session.state = .worldSelection account)
    (hquit : isSessionTerminator line = false) :
    session.handleInput line = selectByValue session.registry (parseUsize (trim line)) := by
  rw [handleInput, hstate]
  simp only [handleWorldSelectionInput, isSessionTerminator_trim, hquit]
  by_cases hempty : trim line = ""
  · rw [hempty]
    rfl
  · rw [if_neg Bool.false_ne_true, if_neg hempty]
    cases parseUsize (trim line) with
    | none => rfl
    | some k =>
      by_cases hrange : 1 ≤ k ∧ k ≤ session.registry.len
      · dsimp only
        rw [getByPosition_eq_some hrange, selectByValue, dif_pos hrange]
      · dsimp only
        rw [getByPosition_eq_none hrange, selectByValue, dif_neg hrange]

theorem replace_outOfRange (count : String) :
    replace worldSelectionOutOfRangeMsg "{n}" count =
      "Please enter a number between 1 and " ++ (count ++ ".\r\n") := by
  apply String.toList_injective
  rw [replace, String.toList_ofList, String.toList_append, String.toList_append]
  rfl

theorem nonNumeric_ne_outOfRange (count prompt : String) :
    worldSelectionNonNumericMsg ++ prompt ≠
      replace worldSelectionOutOfRangeMsg "{n}" count ++ prompt := by
  intro hsame
  have hlists := congrArg String.toList hsame
  rw [replace_outOfRange, String.toList_append, String.toList_append] at hlists
  have hmsgs := List.append_cancel_right hlists
  rw [String.toList_append] at hmsgs
  have hlen := congrArg List.length hmsgs
  rw [List.length_append] at hlen
  have hshort : worldSelectionNonNumericMsg.toList.length = 24 := by decide
  have hlong : "Please enter a number between 1 and ".toList.length = 36 := by decide
  omega

/-- No number is answered as an input that is none. -/
theorem selectByValue_ne_none (registry : WorldRegistry) (k : Nat) :
    selectByValue registry none ≠ selectByValue registry (some k) := by
  rw [selectByValue, selectByValue]
  split
  · intro hsame
    cases hsame
  · intro hsame
    injection hsame with houtput
    exact nonNumeric_ne_outOfRange _ _ houtput

/-- The input is classified by its numeric value if and only if that value fits. -/
theorem handleInput_by_value_iff (hstate : session.state = .worldSelection account)
    (hquit : isSessionTerminator line = false) :
    session.handleInput line = selectByValue session.registry (numeral (trim line)) ↔
      ∀ k ∈ numeral (trim line), k ≤ usizeMax := by
  rw [handleInput_eq_selectByValue hstate hquit, parseUsize_eq]
  cases numeral (trim line) with
  | none => exact iff_of_true rfl (by simp)
  | some k =>
    rw [Option.filter_some]
    split
    · rename_i hfits
      have hk : k ≤ usizeMax := by simpa using hfits
      exact iff_of_true rfl (by simpa using hk)
    · rename_i hover
      refine iff_of_false (selectByValue_ne_none session.registry k) ?_
      intro hall
      exact hover (by simpa using hall k rfl)

def duskRegistry : WorldRegistry :=
  ⟨[⟨"studio-dusk", "The Studio at Dusk", "A small interior, warmly lit."⟩]⟩

/-- Leading zeros and a plus sign do not change the value. -/
theorem handleInput_by_value_zeros :
    handleInput ⟨.worldSelection ⟨1, "alice", 0, none⟩, duskRegistry⟩ " +001 " =
      selectByValue duskRegistry (numeral (trim " +001 ")) := by
  refine (handleInput_by_value_iff rfl (by decide)).mpr ?_
  decide

/-- The number 2^64 is answered as if it were not a number. -/
theorem handleInput_overflow :
    ¬ ∀ (session : Session) (account : Account) (line : String),
      session.state = .worldSelection account → isSessionTerminator line = false →
      session.handleInput line = selectByValue session.registry (numeral (trim line)) := by
  intro h
  have hsame := h ⟨.worldSelection ⟨1, "alice", 0, none⟩, duskRegistry⟩ ⟨1, "alice", 0, none⟩ "18446744073709551616" rfl
    (by decide)
  exact absurd hsame (by decide +kernel)

end Session

end Liaozhai.Net
