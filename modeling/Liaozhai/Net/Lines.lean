import Liaozhai.Library.Transducer
import Liaozhai.Net.Codec

/-!
# Splitting data into lines

The line splitter reads each data byte once. A line ends at its CR or LF, and an
LF that directly follows a CR belongs to it. `find_line_terminator` and
`consume_terminator` take one line off the front of a buffer; repeated, they
give the lines of the splitter.
-/

namespace Liaozhai.Lines

open Codec
set_option autoImplicit false

structure LineState where
  partialLine : List UInt8
  afterCr : Bool
  deriving DecidableEq, Repr

def LineState.fresh : LineState := ⟨[], false⟩

def step (s : LineState) (b : UInt8) : LineState × List (List UInt8) :=
  if b = LF then (.fresh, if s.afterCr then [] else [s.partialLine])
  else if b = CR then (⟨[], true⟩, [s.partialLine])
  else (⟨s.partialLine ++ [b], false⟩, [])

def split : LineState → List UInt8 → LineState × List (List UInt8) := Transducer.run step

/-- The complete lines of some data. -/
def complete (bs : List UInt8) : List (List UInt8) := (split .fresh bs).2

/-- The unterminated bytes at its end. -/
def residue (bs : List UInt8) : List UInt8 := (split .fresh bs).1.partialLine

def Plain (bs : List UInt8) : Prop := LF ∉ bs ∧ CR ∉ bs

instance (bs : List UInt8) : Decidable (Plain bs) := inferInstanceAs (Decidable (_ ∧ _))

@[simp] theorem split_nil (s : LineState) : split s [] = (s, []) := rfl

theorem split_cons (s : LineState) (b : UInt8) (bs : List UInt8) :
    split s (b :: bs) = ((split (step s b).1 bs).1, (step s b).2 ++ (split (step s b).1 bs).2) := rfl

theorem split_append (s : LineState) (as bs : List UInt8) :
    split s (as ++ bs) =
      ((split (split s as).1 bs).1, (split s as).2 ++ (split (split s as).1 bs).2) :=
  Transducer.run_append step s as bs

theorem Plain.cons {b : UInt8} {bs : List UInt8} (h : Plain (b :: bs)) :
    b ≠ LF ∧ b ≠ CR ∧ Plain bs := by
  obtain ⟨hlf, hcr⟩ := h
  simp only [List.mem_cons, not_or] at hlf hcr
  exact ⟨Ne.symm hlf.1, Ne.symm hcr.1, hlf.2, hcr.2⟩

theorem plain_nil : Plain [] := ⟨by simp, by simp⟩

theorem plain_append {as bs : List UInt8} : Plain (as ++ bs) ↔ Plain as ∧ Plain bs := by
  simp only [Plain, List.mem_append, not_or]
  tauto

/-- Plain bytes extend the current line. -/
theorem split_plain {p bs : List UInt8} (h : Plain bs) :
    split ⟨p, false⟩ bs = (⟨p ++ bs, false⟩, []) := by
  induction bs generalizing p with
  | nil => simp
  | cons b bs ih =>
    obtain ⟨hlf, hcr, hbs⟩ := h.cons
    simp [split_cons, step, hlf, hcr, ih hbs]

/-- Only an LF at the start can tell whether a CR came before. -/
theorem split_afterCr {p bs : List UInt8} (h : bs.head? ≠ some LF) :
    (split ⟨p, true⟩ bs).1.partialLine = (split ⟨p, false⟩ bs).1.partialLine ∧
      (split ⟨p, true⟩ bs).2 = (split ⟨p, false⟩ bs).2 := by
  cases bs with
  | nil => simp
  | cons b bs =>
    have hb : b ≠ LF := by simpa using h
    simp [split_cons, step, hb]

/-- The end of a line: LF, CR LF, or a CR that no LF follows. -/
inductive Terminator : List UInt8 → List UInt8 → Prop where
  | lf (rest : List UInt8) : Terminator [LF] rest
  | crLf (rest : List UInt8) : Terminator [CR, LF] rest
  | cr {rest : List UInt8} : rest.head? ≠ some LF → Terminator [CR] rest

theorem Terminator.length_pos {t rest : List UInt8} (h : Terminator t rest) : 0 < t.length := by
  cases h <;> simp

theorem Terminator.eq_lf {t rest : List UInt8} (h : Terminator t rest) (hcr : CR ∉ t) :
    t = [LF] := by
  cases h with
  | lf => rfl
  | crLf => simp at hcr
  | cr hrest => simp at hcr

theorem Terminator.append {t rest more : List UInt8} (h : Terminator t rest) (hmore : LF ∉ more) :
    Terminator t (rest ++ more) := by
  cases h with
  | lf => exact .lf _
  | crLf => exact .crLf _
  | cr hrest =>
    apply Terminator.cr
    cases rest with
    | nil =>
      intro hhead
      exact hmore (List.mem_of_mem_head? hhead)
    | cons b rest => exact hrest

/-- Data either has no line end or starts with a plain line and its end. -/
theorem plain_or_line (bs : List UInt8) :
    Plain bs ∨ ∃ l t rest, bs = l ++ (t ++ rest) ∧ Plain l ∧ Terminator t rest := by
  induction bs with
  | nil => exact .inl ⟨by simp, by simp⟩
  | cons b bs ih =>
    by_cases hlf : b = LF
    · exact .inr ⟨[], [LF], bs, by simp [hlf], ⟨by simp, by simp⟩, .lf bs⟩
    by_cases hcr : b = CR
    · by_cases hnext : bs.head? = some LF
      · obtain ⟨rest, rfl⟩ : ∃ rest, bs = LF :: rest := by
          cases bs with
          | nil => simp at hnext
          | cons c rest => exact ⟨rest, by simpa using hnext⟩
        exact .inr ⟨[], [CR, LF], rest, by simp [hcr], ⟨by simp, by simp⟩, .crLf rest⟩
      · exact .inr ⟨[], [CR], bs, by simp [hcr], ⟨by simp, by simp⟩, .cr hnext⟩
    have hb : ∀ {l}, Plain l → Plain (b :: l) := by
      intro l hl
      exact ⟨by simp [Ne.symm hlf, hl.1], by simp [Ne.symm hcr, hl.2]⟩
    rcases ih with h | ⟨l, t, rest, rfl, hl, ht⟩
    · exact .inl (hb h)
    · exact .inr ⟨b :: l, t, rest, rfl, hb hl, ht⟩

theorem split_terminator {p l t rest : List UInt8} (hl : Plain l) (ht : Terminator t rest) :
    (split ⟨p, false⟩ (l ++ (t ++ rest))).1.partialLine = residue rest ∧
      (split ⟨p, false⟩ (l ++ (t ++ rest))).2 = (p ++ l) :: complete rest := by
  rw [split_append, split_plain hl]
  cases ht with
  | lf => simp [split_cons, step, residue, complete]
  | crLf => simp [split_cons, step, residue, complete]
  | cr hrest =>
    obtain ⟨hpart, hlines⟩ := split_afterCr (p := []) hrest
    simp [split_cons, step, residue, complete, LineState.fresh, hpart, hlines]

theorem complete_plain {bs : List UInt8} (h : Plain bs) : complete bs = [] := by
  simp [complete, LineState.fresh, split_plain h]

theorem residue_plain {bs : List UInt8} (h : Plain bs) : residue bs = bs := by
  simp [residue, LineState.fresh, split_plain h]

theorem complete_terminator {l t rest : List UInt8} (hl : Plain l) (ht : Terminator t rest) :
    complete (l ++ (t ++ rest)) = l :: complete rest :=
  (split_terminator (p := []) hl ht).2

theorem residue_terminator {l t rest : List UInt8} (hl : Plain l) (ht : Terminator t rest) :
    residue (l ++ (t ++ rest)) = residue rest :=
  (split_terminator (p := []) hl ht).1

theorem plain_residue (bs : List UInt8) : Plain (residue bs) := by
  apply Transducer.run_invariant step (P := fun s => Plain s.partialLine)
  · intro s b _ hs
    unfold step
    split
    · exact plain_nil
    · split
      · exact plain_nil
      · rename_i hlf hcr
        exact plain_append.mpr ⟨hs, by simp [Ne.symm hlf], by simp [Ne.symm hcr]⟩
  · exact plain_nil

/-- What is retained from some data is its end. -/
theorem residue_suffix (bs : List UInt8) : residue bs <:+ bs := by
  induction hn : bs.length using Nat.strongRecOn generalizing bs with
  | ind n ih =>
    rcases plain_or_line bs with hplain | ⟨l, t, rest, rfl, hl, ht⟩
    · rewrite [residue_plain hplain]
      exact List.suffix_refl _
    · rw [residue_terminator hl ht]
      have hpos := ht.length_pos
      simp only [List.length_append] at hn
      have hrest := ih rest.length (by omega) rest rfl
      rw [← List.append_assoc]
      exact hrest.trans (List.suffix_append _ _)

theorem split_eq_of_cr_notMem {as : List UInt8} (h : CR ∉ as) :
    split .fresh as = (⟨residue as, false⟩, complete as) := by
  have hcr : (split .fresh as).1.afterCr = false := by
    apply Transducer.run_invariant step (P := fun s => s.afterCr = false)
    · intro s b hb _
      have hne : b ≠ CR := fun he => h (he ▸ hb)
      unfold step
      rw [if_neg hne]
      split <;> rfl
    · rfl
  rw [← hcr]
  rfl

/-- Without a CR, data may be split again from the retained bytes. -/
theorem split_append_of_cr_notMem {as : List UInt8} (h : CR ∉ as) (bs : List UInt8) :
    split .fresh (as ++ bs) =
      ((split .fresh (residue as ++ bs)).1,
        complete as ++ (split .fresh (residue as ++ bs)).2) := by
  rw [split_append, split_eq_of_cr_notMem h, split_append]
  simp [LineState.fresh, split_plain (plain_residue as)]

theorem complete_append {as : List UInt8} (h : CR ∉ as) (bs : List UInt8) :
    complete (as ++ bs) = complete as ++ complete (residue as ++ bs) :=
  congrArg Prod.snd (split_append_of_cr_notMem h bs)

theorem partialLine_of_afterCr (bs : List UInt8) (h : (split .fresh bs).1.afterCr = true) :
    residue bs = [] := by
  refine Transducer.run_invariant step
    (P := fun s => s.afterCr = true → s.partialLine = []) ?_ (fun _ => rfl) h
  intro s b _ _
  unfold step
  split
  · exact fun _ => rfl
  · split
    · exact fun _ => rfl
    · simp

theorem split_partialLine (p bs : List UInt8) (cr : Bool) :
    (split ⟨p, cr⟩ bs).1.partialLine = (split ⟨p, false⟩ bs).1.partialLine := by
  cases bs with
  | nil => rfl
  | cons b bs =>
    rw [split_cons, split_cons]
    unfold step
    split
    · rfl
    · split <;> rfl

/-- The retained bytes are all that later data needs. -/
theorem residue_append (as bs : List UInt8) : residue (as ++ bs) = residue (residue as ++ bs) := by
  have hold : residue (as ++ bs) = (split ⟨residue as, false⟩ bs).1.partialLine := by
    rw [residue, split_append]
    exact split_partialLine (residue as) bs _
  have hnew : residue (residue as ++ bs) = (split ⟨residue as, false⟩ bs).1.partialLine := by
    rw [residue, split_append, LineState.fresh, split_plain (plain_residue as)]
    rfl
  rw [hold, hnew]

/-- The lines of some data, terminated or not. -/
def segments (bs : List UInt8) : List (List UInt8) := complete bs ++ [residue bs]

/-- The unterminated line counts when it is not empty. -/
def lastLine (bs : List UInt8) : List (List UInt8) := if bs = [] then [] else [bs]

/-- The lines a reader delivers for some data. -/
def lines (bs : List UInt8) : List (List UInt8) := complete bs ++ lastLine (residue bs)

/-- Lines written out, each with its LF, and an unterminated rest. -/
def join (ls : List (List UInt8)) (last : List UInt8) : List UInt8 :=
  (ls.flatMap fun l => l ++ [LF]) ++ last

theorem join_cons (l : List UInt8) (ls : List (List UInt8)) (last : List UInt8) :
    join (l :: ls) last = l ++ ([LF] ++ join ls last) := by
  simp [join]

theorem complete_join {ls : List (List UInt8)} {last : List UInt8}
    (hls : ∀ l ∈ ls, Plain l) (hlast : Plain last) : complete (join ls last) = ls := by
  induction ls with
  | nil => exact complete_plain hlast
  | cons l ls ih =>
    rw [join_cons, complete_terminator (hls l List.mem_cons_self) (.lf _),
      ih fun m hm => hls m (List.mem_cons_of_mem _ hm)]

theorem residue_join {ls : List (List UInt8)} {last : List UInt8}
    (hls : ∀ l ∈ ls, Plain l) (hlast : Plain last) : residue (join ls last) = last := by
  induction ls with
  | nil => exact residue_plain hlast
  | cons l ls ih =>
    rw [join_cons, residue_terminator (hls l List.mem_cons_self) (.lf _),
      ih fun m hm => hls m (List.mem_cons_of_mem _ hm)]

theorem mem_join {b : UInt8} {ls : List (List UInt8)} {last l : List UInt8}
    (hl : l ∈ ls ++ [last]) (hb : b ∈ l) : b ∈ join ls last := by
  rw [join, List.mem_append, List.mem_flatMap]
  rcases List.mem_append.mp hl with h | h
  · exact .inl ⟨l, h, List.mem_append_left _ hb⟩
  · rw [List.mem_singleton] at h
    exact .inr (h ▸ hb)

theorem plain_of_join {ls : List (List UInt8)} {last : List UInt8} (hcr : CR ∉ join ls last)
    (hlf : ∀ l ∈ ls ++ [last], LF ∉ l) : (∀ l ∈ ls, Plain l) ∧ Plain last := by
  have hplain : ∀ l ∈ ls ++ [last], Plain l :=
    fun l hl => ⟨hlf l hl, fun hmem => hcr (mem_join hl hmem)⟩
  exact ⟨fun l hl => hplain l (List.mem_append_left _ hl),
    hplain last (List.mem_append_right _ (List.mem_singleton_self last))⟩

theorem cr_notMem_join {ls : List (List UInt8)} {last : List UInt8}
    (hls : ∀ l ∈ ls, Plain l) (hlast : Plain last) : CR ∉ join ls last := by
  intro hmem
  rw [join, List.mem_append, List.mem_flatMap] at hmem
  rcases hmem with ⟨l, hl, hb⟩ | hb
  · rcases List.mem_append.mp hb with hb | hb
    · exact (hls l hl).2 hb
    · exact absurd (List.mem_singleton.mp hb) cr_ne_lf
  · exact hlast.2 hb

theorem lines_plain {bs : List UInt8} (h : Plain bs) : lines bs = lastLine bs := by
  rw [lines, complete_plain h, residue_plain h, List.nil_append]

theorem lines_terminator {l t rest : List UInt8} (hl : Plain l) (ht : Terminator t rest) :
    lines (l ++ (t ++ rest)) = l :: lines rest := by
  rw [lines, complete_terminator hl ht, residue_terminator hl ht]
  rfl

theorem lines_join {ls : List (List UInt8)} {last : List UInt8}
    (hls : ∀ l ∈ ls, Plain l) (hlast : Plain last) : lines (join ls last) = ls ++ lastLine last := by
  rw [lines, complete_join hls hlast, residue_join hls hlast]

theorem segments_join {ls : List (List UInt8)} {last : List UInt8}
    (hls : ∀ l ∈ ls, Plain l) (hlast : Plain last) : segments (join ls last) = ls ++ [last] := by
  rw [segments, complete_join hls hlast, residue_join hls hlast]

theorem exists_split_prefix (p bs : List UInt8) :
    ∃ l ∈ (split ⟨p, false⟩ bs).2 ++ [(split ⟨p, false⟩ bs).1.partialLine], p <+: l := by
  induction bs generalizing p with
  | nil => simp
  | cons b bs ih =>
    rw [split_cons]
    by_cases hlf : b = LF
    · exact ⟨p, by simp [step, hlf], List.prefix_refl p⟩
    by_cases hcr : b = CR
    · exact ⟨p, by simp [step, hcr], List.prefix_refl p⟩
    obtain ⟨l, hl, hpre⟩ := ih (p ++ [b])
    refine ⟨l, ?_, (List.prefix_append p [b]).trans hpre⟩
    simpa [step, hlf, hcr] using hl

/-- What is retained from the start of some data starts one of its lines. -/
theorem exists_segment_prefix (as bs : List UInt8) :
    ∃ l ∈ segments (as ++ bs), residue as <+: l := by
  by_cases hp : residue as = []
  · exact ⟨_, List.mem_append_right _ (List.mem_singleton_self _), hp ▸ List.nil_prefix⟩
  have hcr : (split .fresh as).1.afterCr = false := by
    cases h : (split .fresh as).1.afterCr with
    | true => exact absurd (partialLine_of_afterCr as h) hp
    | false => rfl
  have hstate : (split .fresh as).1 = ⟨residue as, false⟩ := by
    rw [← hcr]
    rfl
  obtain ⟨l, hl, hpre⟩ := exists_split_prefix (residue as) bs
  refine ⟨l, ?_, hpre⟩
  rw [segments, complete, residue, split_append, hstate, List.append_assoc]
  exact List.mem_append_right _ hl

/-! ### Text written with CR LF -/

theorem complete_eq_nil {bs : List UInt8} : complete bs = [] ↔ Plain bs := by
  constructor
  · intro hnil
    rcases plain_or_line bs with hplain | ⟨l, t, rest, rfl, hl, ht⟩
    · exact hplain
    · rw [complete_terminator hl ht] at hnil
      cases hnil
  · exact complete_plain

theorem segments_plain {bs : List UInt8} (h : Plain bs) : segments bs = [bs] := by
  rw [segments, complete_plain h, residue_plain h]
  rfl

theorem length_segments (bs : List UInt8) : (segments bs).length = (complete bs).length + 1 :=
  List.length_append

/-- CR LF ends the line that is in progress, whatever came before. -/
theorem split_crLf (s : LineState) : split s [CR, LF] = (.fresh, [s.partialLine]) := by
  simp [split_cons, step]

theorem split_append_crLf (bs rest : List UInt8) :
    split .fresh (bs ++ [CR, LF] ++ rest) =
      ((split .fresh rest).1, segments bs ++ complete rest) := by
  rw [split_append, split_append, split_crLf, segments, complete, complete, residue]

/-- The lines of texts that are each written with CR LF. -/
theorem split_flatMap_crLf (texts : List (List UInt8)) :
    split .fresh (texts.flatMap fun text => text ++ [CR, LF]) = (.fresh, texts.flatMap segments) := by
  induction texts with
  | nil => rfl
  | cons text texts ih =>
    rw [List.flatMap_cons, split_append_crLf, complete, ih]
    rfl

theorem length_le_flatMap_segments (texts : List (List UInt8)) :
    texts.length ≤ (texts.flatMap segments).length := by
  induction texts with
  | nil => exact Nat.le_refl 0
  | cons text texts ih =>
    rw [List.flatMap_cons, List.length_append, List.length_cons, length_segments]
    omega

/-- There is one line for each text only when no text has a line break. -/
theorem plain_of_length_flatMap_segments {texts : List (List UInt8)}
    (h : (texts.flatMap segments).length = texts.length) : ∀ text ∈ texts, Plain text := by
  induction texts with
  | nil => exact nofun
  | cons text texts ih =>
    have hle := length_le_flatMap_segments texts
    rw [List.flatMap_cons, List.length_append, List.length_cons, length_segments] at h
    intro text' htext'
    rcases List.mem_cons.mp htext' with rfl | htext'
    · apply complete_eq_nil.mp
      apply List.eq_nil_of_length_eq_zero
      omega
    · exact ih (by omega) text' htext'

theorem flatMap_segments_plain {texts : List (List UInt8)} (h : ∀ text ∈ texts, Plain text) :
    texts.flatMap segments = texts := by
  induction texts with
  | nil => rfl
  | cons text texts ih =>
    rw [List.flatMap_cons, segments_plain (h text List.mem_cons_self),
      ih fun text' htext' => h text' (List.mem_cons_of_mem _ htext')]
    rfl

/-! ### The two calls of the codec -/

theorem findLineTerminator_plain {bs : List UInt8} (h : Plain bs) :
    findLineTerminator bs = none := by
  rw [findLineTerminator, List.findIdx?_eq_none_iff]
  intro b hb
  have hlf : b ≠ LF := fun he => h.1 (he ▸ hb)
  have hcr : b ≠ CR := fun he => h.2 (he ▸ hb)
  simp [hlf, hcr]

theorem findLineTerminator_terminator {l t rest : List UInt8} (hl : Plain l)
    (ht : Terminator t rest) : findLineTerminator (l ++ (t ++ rest)) = some l.length := by
  have hnone := findLineTerminator_plain hl
  rw [findLineTerminator] at hnone ⊢
  rw [List.findIdx?_append, hnone]
  cases ht <;> simp [List.findIdx?_cons]

theorem byteAt_append (as : List UInt8) (bs : List UInt8) (i : Nat) :
    byteAt (as ++ bs) (as.length + i) = byteAt bs i := by
  simp only [byteAt, List.getD_eq_getElem?_getD]
  rw [List.getElem?_append_right (Nat.le_add_right _ _), Nat.add_sub_cancel_left]

theorem consumeTerminator_terminator {l t rest : List UInt8} (ht : Terminator t rest) :
    consumeTerminator (l ++ (t ++ rest)) l.length = l.length + t.length := by
  have hat : byteAt (l ++ (t ++ rest)) l.length = byteAt (t ++ rest) 0 := byteAt_append _ _ 0
  have hnext : byteAt (l ++ (t ++ rest)) (l.length + 1) = byteAt (t ++ rest) 1 := byteAt_append _ _ 1
  rw [consumeTerminator, hat, hnext]
  cases ht with
  | lf => simp [byteAt]
  | crLf => simp [byteAt]
  | cr hrest =>
    cases rest with
    | nil => simp
    | cons b rest =>
      have hb : b ≠ LF := by simpa using hrest
      simp [byteAt, hb]

end Liaozhai.Lines
